import Famicom.Proofs.Processor.Completed
import Famicom.Proofs.Processor.Datasheet

/-! What an instruction costs: the cycles that the data sheet gives for its opcode, one more for an
indexed access that leaves the page and does not write, and up to two for a branch. The cost is
given by the registers at the start and the bytes that have been read, whatever the memory is. -/

namespace Famicom

/-- Indexing leaves the page of the base address. The bytes are those behind the opcode, in the
order in which they are read: with a pointer in page zero its address comes first. -/
def Mode.Crosses (r : Registers) : Mode → List UInt8 → Prop
  | .absoluteX, low :: _ => 255 < low.toNat + r.x.toNat
  | .absoluteY, low :: _ => 255 < low.toNat + r.y.toNat
  | .indirectY, _ :: low :: _ => 255 < low.toNat + r.y.toNat
  | _, _ => False

instance (r : Registers) (mode : Mode) (bytes : List UInt8) : Decidable (mode.Crosses r bytes) := by
  unfold Mode.Crosses
  split <;> infer_instance

/-- Where a branch at `pc` leads. -/
def branchTarget (pc : UInt16) (offset : UInt8) : Nat :=
  ((pc.toNat + 2 + offset.toInt8.toInt) % 65536).toNat

/-- What a branch adds to its cost, by whether it is taken and by whether it then stays in the page
of the instruction behind it. -/
def Operation.branchCost (op : Operation) (r : Registers) : List UInt8 → Nat
  | offset :: _ =>
    if op.taken r = false then 0
    else if branchTarget r.pc offset / 256 = (r.pc.toNat + 2) % 65536 / 256 then 1
    else 2
  | [] => 0

theorem Operation.branchCost_of_not_taken {op : Operation} {r : Registers}
    (h : op.taken r = false) (bytes : List UInt8) : op.branchCost r bytes = 0 := by
  cases bytes with
  | nil => rfl
  | cons offset bytes => exact if_pos h

/-- The modes that index a base address of two bytes. -/
def Mode.indexesWord : Mode → Bool
  | .absoluteX | .absoluteY | .indirectY => true
  | _ => false

theorem Mode.not_crosses {mode : Mode} (h : mode.indexesWord = false) (r : Registers)
    (bytes : List UInt8) : ¬mode.Crosses r bytes := by
  cases mode with
  | absoluteX | absoluteY | indirectY => cases h
  | _ => exact id

namespace Instruction

/-! What the table says of each of its instructions. -/

/-- The table asks for the penalty where an operand that may leave the page is not written. -/
theorem pagePenalty_decode (opcode : UInt8) : (decode opcode).pagePenalty =
    (!(decode opcode).operation.behaviour.writesMemory (decode opcode).mode &&
      (decode opcode).mode.indexesWord) :=
  forall_decode (P := fun i => i.pagePenalty =
    (!i.operation.behaviour.writesMemory i.mode && i.mode.indexesWord)) (by decide) opcode

theorem relative_iff (opcode : UInt8) : (decode opcode).operation.condition?.isSome = true ↔
    (decode opcode).mode = .relative :=
  forall_decode (P := fun i => i.operation.condition?.isSome = true ↔ i.mode = .relative)
    (by decide) opcode

theorem relative_of_taken {opcode : UInt8} {r : Registers}
    (h : (decode opcode).operation.taken r = true) : (decode opcode).mode = .relative := by
  apply (relative_iff opcode).mp
  cases hcondition : (decode opcode).operation.condition? with
  | none =>
    unfold Operation.taken at h
    rw [hcondition] at h
    cases h
  | some condition => rfl

theorem cycles_of_relative {opcode : UInt8} (h : (decode opcode).mode = .relative) :
    (decode opcode).cycles = 2 :=
  forall_decode (P := fun i => i.mode = .relative → i.cycles = 2) (by decide) opcode h

theorem cycles_le (opcode : UInt8) :
    (decode opcode).cycles + (if (decode opcode).pagePenalty then 1 else 0) ≤ 8 :=
  forall_decode (P := fun i => i.cycles + (if i.pagePenalty then 1 else 0) ≤ 8) (by decide) opcode

end Instruction

namespace Processor

open Famicom.Action

variable {M ε : Type} [Memory M ε]

/-- The bytes that the next instruction reads, in order. -/
def bytesRead (p : Processor M) : List UInt8 := p.exchanges.filterMap Exchange.byte?

/-- Whether the next instruction writes to the memory. -/
def writes (p : Processor M) : Bool := p.exchanges.any Exchange.isWrite

/-- What is known of an instruction that has completed: `opcode`, and the bytes read behind it. -/
structure Charged (p q : Processor M) (cost : Nat) (opcode : UInt8) (bytes : List UInt8) :
    Prop where
  bytesRead_eq : p.bytesRead = opcode :: bytes
  /-- The official opcodes are those of the data sheet, and the branches. -/
  official_iff : (Instruction.decode opcode).official = true ↔
    (datasheet.lookup opcode).isSome = true ∨ (Instruction.decode opcode).mode = .relative
  cost_eq : cost = documentedCost opcode +
    (if p.writes = false ∧ (Instruction.decode opcode).mode.Crosses p.registers bytes then 1
      else 0) +
    (Instruction.decode opcode).operation.branchCost p.registers bytes
  two_le_cost : 2 ≤ cost
  cost_le_eight : cost ≤ 8
  /-- The program counter goes on to the next instruction, if nothing else is done to it. -/
  pc_eq : (Instruction.decode opcode).operation ∉ [Operation.jmp, .jsr, .rts, .rti, .brk] →
    (Instruction.decode opcode).operation.taken p.registers = false →
    q.registers.pc.toNat = (p.registers.pc.toNat + 1 +
      (Instruction.decode opcode).mode.operandBytes.toNat) % 65536
  pc_of_taken : (Instruction.decode opcode).operation.taken p.registers = true →
    ∃ offset rest, bytes = offset :: rest ∧
      q.registers.pc.toNat = branchTarget p.registers.pc offset

/-! Pages. -/

theorem pagesDiffer_iff (a b : UInt16) :
    pagesDiffer a b = true ↔ a.toNat / 256 ≠ b.toNat / 256 := by
  have hpage : ∀ c : UInt16, (c &&& 0xFF00).toNat = c.toNat / 256 * 256 := by
    intro c
    have hlt := c.toNat_lt
    calc (c &&& 0xFF00 : UInt16).toNat
      _ = c.toNat / 2 ^ 8 % 2 ^ 8 * 2 ^ 8 := Bits.and_digit _ 8 8
      _ = c.toNat / 256 * 256 := by omega
  unfold pagesDiffer
  rw [bne_iff_ne, ne_eq, ← UInt16.toNat_inj, hpage, hpage]
  omega

/-- An index leads out of the page of its base if it carries out of the low byte. -/
theorem crossed_indexed (low high index : UInt8) :
    (Operand.indexed (word low high) index).crossed = true ↔
      255 < low.toNat + index.toNat := by
  have hlow := low.toNat_lt
  have hhigh := high.toNat_lt
  have hindex := index.toNat_lt
  have hbase := toNat_word low high
  change pagesDiffer (word low high) (word low high + index.toUInt16) = true ↔ _
  -- at the end of the address space the next page is the first one
  rw [pagesDiffer_iff, UInt16.toNat_add, UInt8.toNat_toUInt16, hbase]
  omega

/-- An offset is counted forwards or backwards. -/
theorem toNat_offset (offset : UInt8) :
    (offset.toInt8.toInt16.toUInt16.toNat : Int) = offset.toInt8.toInt % 65536 := by
  have hlt := offset.toNat_lt
  have hword : offset.toInt8.toInt16.toUInt16.toNat =
      (BitVec.signExtend 16 offset.toBitVec).toNat := rfl
  have hsigned : offset.toInt8.toInt = offset.toBitVec.toInt := rfl
  have hbits : offset.toBitVec.toNat = offset.toNat := rfl
  rw [hword, hsigned, BitVec.toNat_signExtend, BitVec.toInt_eq_msb_cond, BitVec.toNat_setWidth,
    hbits]
  split
  · push_cast
    omega
  · push_cast
    omega

theorem toNat_branch (pc : UInt16) (offset : UInt8) :
    (Operand.branch (pc + 1 + 1) offset).addr.toNat = branchTarget pc offset := by
  have hoffset := toNat_offset offset
  change (pc + 1 + 1 + offset.toInt8.toInt16.toUInt16).toNat = _
  unfold branchTarget
  rw [add_one_one, UInt16.toNat_add, UInt16.toNat_add]
  change ((pc.toNat + 2) % 65536 + _) % 65536 = _
  omega

theorem crossed_branch (pc : UInt16) (offset : UInt8) :
    (Operand.branch (pc + 1 + 1) offset).crossed = true ↔
      branchTarget pc offset / 256 ≠ (pc.toNat + 2) % 65536 / 256 := by
  change pagesDiffer (pc + 1 + 1) (Operand.branch (pc + 1 + 1) offset).addr = true ↔ _
  rw [pagesDiffer_iff, toNat_branch, add_one_one, UInt16.toNat_add]
  exact ne_comm

theorem crossed_of_finds {r : Registers} {pc : UInt16} {vs : List UInt8} {o : Operand} {mode : Mode}
    (h : Finds { r with pc := pc } vs o mode) (hmode : mode ≠ .relative) (rest : List UInt8) :
    o.crossed = true ↔ mode.Crosses r (vs ++ rest) := by
  cases mode with
  | absoluteX | absoluteY =>
    obtain ⟨low, high, rfl, rfl⟩ := h
    exact crossed_indexed low high _
  | indirectY =>
    obtain ⟨zp, low, high, rfl, rfl⟩ := h
    exact crossed_indexed low high _
  | relative => exact absurd rfl hmode
  | _ => exact iff_of_false (by rw [h]; exact Bool.false_ne_true) id

/-- The penalty is that of the table if the operand leaves its page as the bytes say. -/
theorem penalty_iff {opcode : UInt8} {o : Operand} {r : Registers} {bytes : List UInt8}
    (h : (Instruction.decode opcode).mode ≠ .relative →
      (o.crossed = true ↔ (Instruction.decode opcode).mode.Crosses r bytes)) :
    ((Instruction.decode opcode).pagePenalty && o.crossed) = true ↔
      (Instruction.decode opcode).operation.behaviour.writesMemory
        (Instruction.decode opcode).mode = false ∧
      (Instruction.decode opcode).mode.Crosses r bytes := by
  rw [Instruction.pagePenalty_decode]
  cases hmode : (Instruction.decode opcode).mode.indexesWord with
  -- a branch may cross, but its mode does not index and has no penalty
  | false => simp [Mode.not_crosses hmode]
  | true =>
    have hrelative : (Instruction.decode opcode).mode ≠ .relative := by
      intro hrelative
      rw [hrelative] at hmode
      cases hmode
    simp [h hrelative]

/-- What a branch adds is the same whether it is told by its operand or by its offset. -/
theorem branchCost_eq {opcode : UInt8} {o : Operand} {r : Registers} {pc : UInt16}
    {vs : List UInt8} (hpc : pc = r.pc + 1)
    (h : Finds { r with pc := pc } vs o (Instruction.decode opcode).mode) (rest : List UInt8) :
    (Instruction.decode opcode).operation.branchCost r (vs ++ rest) =
      if (Instruction.decode opcode).operation.taken r then if o.crossed then 2 else 1 else 0 := by
  cases htaken : (Instruction.decode opcode).operation.taken r with
  | false => rw [Operation.branchCost_of_not_taken htaken, if_neg Bool.false_ne_true]
  | true =>
    have hmode := Instruction.relative_of_taken htaken
    rw [hmode, hpc] at h
    obtain ⟨offset, rfl, rfl⟩ := h
    have hcrossed := crossed_branch r.pc offset
    change (if (Instruction.decode opcode).operation.taken r = false then 0 else _) = _
    rw [htaken, if_neg nofun, if_pos rfl]
    by_cases hpage : branchTarget r.pc offset / 256 = (r.pc.toNat + 2) % 65536 / 256
    · rw [if_pos hpage, if_neg fun hleft => hcrossed.mp hleft hpage]
    · rw [if_neg hpage, if_pos (hcrossed.mpr hpage)]

theorem cost_le_eight (opcode : UInt8) (o : Operand) (r : Registers) :
    (Instruction.decode opcode).cycles +
      (if (Instruction.decode opcode).pagePenalty && o.crossed then 1 else 0) +
      (if (Instruction.decode opcode).operation.taken r then if o.crossed then 2 else 1 else 0) ≤
        8 := by
  have hcycles := Instruction.cycles_le opcode
  have hpenalty : ∀ asked crossed : Bool,
      (if asked && crossed then 1 else 0) ≤ if asked then 1 else 0 := by decide
  have hpage := hpenalty (Instruction.decode opcode).pagePenalty o.crossed
  cases htaken : (Instruction.decode opcode).operation.taken r with
  | false =>
    rw [if_neg Bool.false_ne_true]
    omega
  -- a branch is far from the limit, since it costs two cycles without what it adds
  | true =>
    have hcycles' := Instruction.cycles_of_relative (Instruction.relative_of_taken htaken)
    have hbranch : (if o.crossed then 2 else 1) ≤ 2 := by split <;> decide
    have hone : (if (Instruction.decode opcode).pagePenalty then 1 else 0) ≤ 1 := by
      split <;> decide
    rw [if_pos rfl]
    omega

/-- An instruction that completes does so over a memory with a log, which holds its bytes. -/
theorem logging_of_execute {p q : Processor M} {cost : Nat} {es : List Event}
    (h : execute p = ⟨.ok cost, q, es⟩) :
    ∃ q', execute p.logging = ⟨.ok cost, q', es⟩ ∧ q = q'.map Logged.memory := by
  have hlogging := execute_logging p
  rw [h] at hlogging
  rcases hrun : execute p.logging with ⟨answer, q', es'⟩
  rw [hrun] at hlogging
  obtain ⟨rfl, rfl, rfl⟩ : .ok cost = answer ∧ q = q'.map Logged.memory ∧ es = es' := by
    simpa using hlogging
  exact ⟨q', rfl, rfl⟩

theorem cost_le_of_execute {p q : Processor M} {cost : Nat} {es : List Event}
    (h : execute p = ⟨.ok cost, q, es⟩) : cost ≤ 8 := by
  obtain ⟨q', hrun, -⟩ := logging_of_execute h
  obtain ⟨opcode, vs, rest, o, hran⟩ := ran_execute hrun
  rw [hran.cost_eq]
  exact cost_le_eight opcode o p.registers

/-- Whatever its opcode, its registers and its memory, an instruction that completes costs what the
documents say, and goes on to the next one if it does not say where else. -/
theorem charged_of_execute {p q : Processor M} {cost : Nat} {es : List Event}
    (h : execute p = ⟨.ok cost, q, es⟩) : ∃ opcode bytes, Charged p q cost opcode bytes := by
  have hle := cost_le_of_execute h
  have htwo := two_le_of_execute h
  obtain ⟨q', hrun, rfl⟩ := logging_of_execute h
  obtain ⟨opcode, vs, rest, o, hsince, hfinds, hcost, hpc⟩ := ran_execute hrun
  have hregisters : p.logging.registers = p.registers := rfl
  rw [hregisters] at hfinds hcost hpc
  have hwrites : p.writes = (Instruction.decode opcode).operation.behaviour.writesMemory
      (Instruction.decode opcode).mode := by
    unfold writes exchanges
    rw [hrun]
    exact hsince.written
  -- what the operand has crossed, told by the bytes that it comes from
  have hbranch := branchCost_eq rfl hfinds rest
  have hpenalty := penalty_iff fun hmode => crossed_of_finds hfinds hmode rest
  have hbase := Instruction.documentedCost_eq opcode
  refine ⟨opcode, vs ++ rest, ?_, Instruction.official_iff opcode, ?_, htwo, hle, ?_, ?_⟩
  · unfold bytesRead exchanges
    rw [hrun]
    exact hsince.read
  · rw [hcost, hbase, hwrites, hbranch]
    simp only [hpenalty]
  · intro hoperation htaken
    have hredirects : (Instruction.decode opcode).operation.behaviour.redirects = false := by
      rw [Operation.redirects_behaviour, decide_eq_false hoperation]
    change q'.registers.pc.toNat = _
    rw [hpc hredirects, htaken, if_neg Bool.false_ne_true, UInt16.toNat_add, UInt16.toNat_add]
    exact Nat.mod_add_mod _ _ _
  · intro htaken
    have hmode := Instruction.relative_of_taken htaken
    have hredirects := Operation.redirects_of_taken htaken
    rw [hmode] at hfinds
    obtain ⟨offset, rfl, rfl⟩ := hfinds
    refine ⟨offset, rest, rfl, ?_⟩
    change q'.registers.pc.toNat = _
    rw [hpc hredirects, htaken, if_pos rfl]
    exact toNat_branch _ _

/-- A branch at the end of the address space, a load at 0x8000, and 0xFF everywhere else. -/
structure Wrapping where

instance : Memory Wrapping Empty where
  read addr := .view fun _ => if addr = 0xFFFE then 0x50 else if addr = 0x8000 then 0xBD else 0xFF
  write _ _ := .update id

/-- A processor at `pc` with an index of 1. -/
def Wrapping.before (pc : UInt16) : Processor Wrapping :=
  ⟨{ Registers.powerOn with x := 1, pc := pc }, 0, 0, 0, {}⟩

/-- The branch goes back over the end of the address space, and the load indexes over it. -/
theorem charged_of_wrapping :
    (∃ q, execute (Wrapping.before 0xFFFE) = ⟨.ok 4, q, []⟩ ∧
      Charged (Wrapping.before 0xFFFE) q 4 0x50 [0xFF]) ∧
    ∃ q, execute (Wrapping.before 0x8000) = ⟨.ok 5, q, []⟩ ∧
      Charged (Wrapping.before 0x8000) q 5 0xBD [0xFF, 0xFF, 0xFF] := by
  have hbranch : execute (Wrapping.before 0xFFFE) = ⟨.ok 4, _, []⟩ := rfl
  have hload : execute (Wrapping.before 0x8000) = ⟨.ok 5, _, []⟩ := rfl
  have hread : (Wrapping.before 0xFFFE).bytesRead = [0x50, 0xFF] := rfl
  have hread' : (Wrapping.before 0x8000).bytesRead = [0xBD, 0xFF, 0xFF, 0xFF] := rfl
  obtain ⟨opcode, bytes, hcharged⟩ := charged_of_execute hbranch
  obtain ⟨opcode', bytes', hcharged'⟩ := charged_of_execute hload
  obtain ⟨rfl, rfl⟩ := List.cons.inj (hcharged.bytesRead_eq.symm.trans hread)
  obtain ⟨rfl, rfl⟩ := List.cons.inj (hcharged'.bytesRead_eq.symm.trans hread')
  exact ⟨⟨_, hbranch, hcharged⟩, _, hload, hcharged'⟩

end Processor

end Famicom
