import Famicom.Proofs.Processor.Nesting
import Famicom.Proofs.Processor.Trace

/-! Instructions over plain memory, where no access is refused: where the operand is, and what is
left of the registers and the memory. -/

namespace Famicom

/-- The operand of an instruction at `r.pc`. -/
def Mode.find (m : FlatMemory) (r : Registers) : Mode → Processor.Operand
  | .implied | .accumulator => .plain 0
  | .immediate => .plain (r.pc + 1)
  | .zeroPage => .plain (m.get (r.pc + 1)).toUInt16
  | .zeroPageX => .plain (m.get (r.pc + 1) + r.x).toUInt16
  | .zeroPageY => .plain (m.get (r.pc + 1) + r.y).toUInt16
  | .absolute => .plain (Processor.word (m.get (r.pc + 1)) (m.get (r.pc + 2)))
  | .absoluteX => .indexed (Processor.word (m.get (r.pc + 1)) (m.get (r.pc + 2))) r.x
  | .absoluteY => .indexed (Processor.word (m.get (r.pc + 1)) (m.get (r.pc + 2))) r.y
  | .indirect =>
    let low := m.get (r.pc + 1)
    let high := m.get (r.pc + 2)
    .plain (Processor.word (m.get (Processor.word low high))
      (m.get (Processor.word (low + 1) high)))
  | .indirectX =>
    let zp := m.get (r.pc + 1) + r.x
    .plain (Processor.word (m.get zp.toUInt16) (m.get (zp + 1).toUInt16))
  | .indirectY =>
    let zp := m.get (r.pc + 1)
    .indexed (Processor.word (m.get zp.toUInt16) (m.get (zp + 1).toUInt16)) r.y
  | .relative => .branch (r.pc + 2) (m.get (r.pc + 1))

namespace Processor

/-- The instruction that the processor executes next. -/
def nextInstruction (p : Processor FlatMemory) : Instruction :=
  Instruction.decode (p.memory.get p.registers.pc)

/-- The operand of the next instruction. -/
def nextOperand (p : Processor FlatMemory) : Operand :=
  p.nextInstruction.mode.find p.memory p.registers

/-- The address that the next instruction works on. -/
def effectiveAddress (p : Processor FlatMemory) : UInt16 := p.nextOperand.addr

/-- The registers behind the next instruction. -/
def advanced (p : Processor FlatMemory) : Registers :=
  { p.registers with pc := p.registers.pc + 1 + p.nextInstruction.mode.operandBytes }

/-- The cost of the next instruction in the table, with the penalty for leaving the page. -/
def tableCost (p : Processor FlatMemory) : Nat :=
  p.nextInstruction.cycles +
    if p.nextInstruction.pagePenalty && p.nextOperand.crossed then 1 else 0

/-- What a step answers that takes what is owed and the cost in the table. -/
def charge (p : Processor FlatMemory) : UInt32 := .ofNat (p.owed + p.tableCost)

/-- The processor after its next instruction has left `r` and `m`, with the cycles counted. -/
def stepped (p : Processor FlatMemory) (r : Registers) (m : FlatMemory) : Processor FlatMemory :=
  { registers := r, cycles := p.cycles + p.charge.toUInt64, pending := 0, stall := 0, memory := m }

/-- The next instruction leaves `r` and `m`, and costs what the table says. -/
def Leaves (p : Processor FlatMemory) (r : Registers) (m : FlatMemory) : Prop :=
  execute p = ⟨.ok p.tableCost, { p with registers := r, memory := m }, []⟩

variable {p q : Processor FlatMemory} {r : Registers} {m : FlatMemory}

theorem operand_flat (mode : Mode) (hp : p.registers = { r with pc := r.pc + 1 }) :
    operand mode p = ⟨.ok (mode.find p.memory r),
      { p with registers := { r with pc := r.pc + 1 + mode.operandBytes } }, []⟩ := by
  obtain ⟨registers, cycles, pending, stall, memory⟩ := p
  subst hp
  -- a mode that fetches twice counts the program counter up one by one
  cases mode
  case implied | accumulator =>
    rw [Mode.operandBytes, UInt16.add_zero]
    rfl
  case immediate | zeroPage | zeroPageX | zeroPageY | indirectX | indirectY => rfl
  case relative =>
    rw [Mode.find, ← add_one_one]
    rfl
  case absolute | absoluteX | absoluteY =>
    rw [Mode.find, Mode.operandBytes, ← add_two_one, ← add_one_one]
    rfl
  case indirect =>
    rw [Mode.find, Mode.operandBytes, ← add_two_one, ← add_one_one, ← nextInPage_word]
    rfl

theorem Leaves.step (h : p.Leaves r m) : step p = ⟨.ok p.charge, p.stepped r m, []⟩ := by
  have hcharge : p.pending + p.stall + .ofNat p.tableCost = p.charge := ofNat_owed_add p _
  rw [step_of_ok h, hcharge]
  rfl

theorem Leaves.charge (h : p.Leaves r m) :
    p.charge.toNat + p.uncounted = p.owed + p.tableCost := by
  rw [← toNat_answer h, ofNat_owed_add]
  rfl

/-- An instruction does to its operand what its operation does. -/
theorem leaves_of_perform (h : perform p.registers.pc (p.memory.get p.registers.pc)
      p.nextInstruction.mode p.nextOperand p.nextOperation.behaviour
      { p with registers := p.advanced } = ⟨.ok 0, { p with registers := r, memory := m }, []⟩) :
    p.Leaves r m := by
  have hoperand := operand_flat (r := p.registers) p.nextInstruction.mode
    (p := { p with registers := { p.registers with pc := p.registers.pc + 1 } }) rfl
  exact (execute_flat rfl).trans ((Action.bind_of_quiet hoperand).trans (Action.bind_of_quiet h))

theorem leaves_of_internal {f : Registers → Registers}
    (h : p.nextOperation.behaviour = .internal f) : p.Leaves (f p.advanced) p.memory := by
  refine leaves_of_perform ?_
  rw [h]
  rfl

theorem leaves_of_load {f : Registers → UInt8 → Registers}
    (h : p.nextOperation.behaviour = .load f) :
    p.Leaves (f p.advanced (p.memory.get p.effectiveAddress)) p.memory := by
  refine leaves_of_perform ?_
  rw [h]
  rfl

section

variable {change : Registers → UInt8 → UInt8 × Registers} {settle : Registers → UInt8 → Registers}

theorem leaves_of_modify (h : p.nextOperation.behaviour = .modify change settle)
    (hmode : p.nextInstruction.mode ≠ .accumulator) :
    let written := change p.advanced (p.memory.get p.effectiveAddress)
    p.Leaves (settle written.2 written.1) (p.memory.set p.effectiveAddress written.1) := by
  refine leaves_of_perform ?_
  rw [h]
  simp only [perform, readOperand, writeOperand, if_neg hmode]
  rfl

/-- The operand may be the accumulator. -/
theorem leaves_of_accumulator (h : p.nextOperation.behaviour = .modify change settle)
    (hmode : p.nextInstruction.mode = .accumulator) :
    let written := change p.advanced p.registers.a
    p.Leaves (settle { written.2 with a := written.1 } written.1) p.memory := by
  refine leaves_of_perform ?_
  rw [h]
  simp only [perform, readOperand, writeOperand, if_pos hmode]
  rfl

end

/-- A processor with the same byte at every address. -/
def amid (v a status : UInt8) : Processor FlatMemory :=
  { powerOn ⟨Vector.replicate 0x10000 v⟩ with
    registers := { Registers.powerOn with a := a, status := status } }

theorem get_amid (v a status : UInt8) (addr : UInt16) : (amid v a status).memory.get addr = v :=
  Vector.getElem_replicate _

theorem nextInstruction_amid (v a status : UInt8) :
    (amid v a status).nextInstruction = Instruction.decode v :=
  congrArg Instruction.decode (get_amid v a status _)

end Processor

end Famicom
