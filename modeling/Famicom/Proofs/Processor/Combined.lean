import Famicom.Proofs.Processor.Flat

/-! Unofficial instructions that combine two official ones. What such an instruction does to a byte,
the two do one after the other, wherever their code lies. -/

namespace Famicom

namespace FlatMemory

/-- The bytes lie one after another from `addr` on. -/
def CodeAt (m : FlatMemory) : UInt16 → List UInt8 → Prop
  | _, [] => True
  | addr, v :: vs => m.get addr = v ∧ m.CodeAt (addr + 1) vs

/-- The addresses that `n` bytes from `addr` on take up. -/
def span (addr : UInt16) : Nat → List UInt16
  | 0 => []
  | n + 1 => addr :: span (addr + 1) n

variable {m : FlatMemory} {addr e : UInt16} {w : UInt8} {vs : List UInt8}

theorem codeAt_set (he : e ∉ span addr vs.length) (h : m.CodeAt addr vs) :
    (m.set e w).CodeAt addr vs := by
  induction vs generalizing addr with
  | nil => trivial
  | cons v vs ih =>
    obtain ⟨hhead, hrest⟩ := not_or.mp (List.mem_cons.not.mp he)
    exact ⟨(get_set_of_ne hhead).trans h.1, ih hrest h.2⟩

theorem get_setAll {a : UInt16} (h : a ∉ span addr vs.length) :
    (m.setAll addr vs).get a = m.get a := by
  induction vs generalizing m addr with
  | nil => rfl
  | cons v vs ih =>
    obtain ⟨hhead, hrest⟩ := not_or.mp (List.mem_cons.not.mp h)
    exact (ih hrest).trans (get_set_of_ne (Ne.symm hhead))

/-- Bytes that are stored without wrapping around onto themselves lie there. -/
theorem codeAt_setAll (h : (span addr vs.length).Nodup) : (m.setAll addr vs).CodeAt addr vs := by
  induction vs generalizing m addr with
  | nil => trivial
  | cons v vs ih =>
    obtain ⟨hhead, hrest⟩ := List.nodup_cons.mp h
    exact ⟨(get_setAll hhead).trans (get_set_self m addr v), ih hrest⟩

theorem get_set_congr {m' : FlatMemory} {a : UInt16} (h : m.get a = m'.get a) :
    (m.set e w).get a = (m'.set e w).get a := by
  by_cases ha : e = a
  · rw [ha, get_set_self, get_set_self]
  · rw [get_set_of_ne ha, get_set_of_ne ha, h]

end FlatMemory

/-- The code of an instruction with the operand `e`. -/
def absoluteCode (opcode : UInt8) (e : UInt16) : List UInt8 :=
  [opcode, e.toUInt8, (e >>> 8).toUInt8]

/-- The official instructions, each with its code, that together do to the byte `m` at `e` what an
unofficial one does. -/
def Instruction.parts (i : Instruction) (e : UInt16) (m : UInt8) : List (List UInt8) :=
  match i.operation with
  | .slo => [absoluteCode 0x0E e, absoluteCode 0x0D e] -- asl, ora
  | .rla => [absoluteCode 0x2E e, absoluteCode 0x2D e] -- rol, and
  | .sre => [absoluteCode 0x4E e, absoluteCode 0x4D e] -- lsr, eor
  | .rra => [absoluteCode 0x6E e, absoluteCode 0x6D e] -- ror, adc
  | .dcp => [absoluteCode 0xCE e, absoluteCode 0xCD e] -- dec, cmp
  | .isc => [absoluteCode 0xEE e, absoluteCode 0xED e] -- inc, sbc
  | .lax => [absoluteCode 0xAD e, [0xAA]] -- lda, tax
  | .alr => [[0x29, m], [0x4A]] -- and with `m` itself, lsr of the accumulator
  | .sbc => if i.official then [] else [[0xE9, m]] -- sbc of `m` itself
  | _ => []

/-- Those that have their operand at its address. -/
def Operation.addresses (op : Operation) : Bool :=
  op ∈ [.slo, .rla, .sre, .rra, .dcp, .isc, .lax]

namespace Processor

/-- The official instructions that the next one is made up of. -/
def nextParts (p : Processor FlatMemory) : List (List UInt8) :=
  p.nextInstruction.parts p.effectiveAddress (p.memory.get p.effectiveAddress)

/-- The cost of an instruction in the table, by its code. -/
def codeCycles : List UInt8 → Nat
  | [] => 0
  | opcode :: _ => (Instruction.decode opcode).cycles

/-- One instruction of `p` comes to the same as `n` of `q`, which cost `cost`. Where the memories
have been the same they are the same again. -/
def Matches (n cost : Nat) (p q : Processor FlatMemory) : Prop :=
  ∃ s u taken, step p = ⟨.ok (.ofNat (p.owed + p.tableCost)), s, []⟩ ∧
    runSteps n q = ⟨.ok taken, u, []⟩ ∧ taken + q.uncounted = q.owed + cost ∧
    s.registers = { u.registers with
      pc := p.registers.pc + 1 + p.nextInstruction.mode.operandBytes } ∧
    ∀ a, q.memory.get a = p.memory.get a → u.memory.get a = s.memory.get a

variable {p q : Processor FlatMemory} {e : UInt16} {v opcode : UInt8} {code : List UInt8}

/-! Instructions whose code is known. -/

theorem nextInstruction_of_codeAt (h : q.memory.CodeAt q.registers.pc (opcode :: code)) :
    q.nextInstruction = Instruction.decode opcode :=
  congrArg Instruction.decode h.1

theorem tableCost_of_plain (h : q.nextOperand = .plain e) :
    q.tableCost = q.nextInstruction.cycles := by
  have hpenalty : (q.nextInstruction.pagePenalty && (Operand.plain e).crossed) = false :=
    Bool.and_false _
  rw [tableCost, h, hpenalty]
  rfl

/-- The next instruction is the one with `opcode`, it works on `e`, and `code` lies behind it. -/
structure Decodes (opcode : UInt8) (e : UInt16) (code : List UInt8) (q : Processor FlatMemory) :
    Prop where
  instruction : q.nextInstruction = Instruction.decode opcode
  operand : q.nextOperand = .plain e
  code : q.memory.CodeAt q.advanced.pc code

theorem Decodes.tableCost (h : Decodes opcode e code q) :
    q.tableCost = (Instruction.decode opcode).cycles := by
  rw [tableCost_of_plain h.operand, h.instruction]

theorem Decodes.effectiveAddress (h : Decodes opcode e code q) : q.effectiveAddress = e :=
  congrArg Operand.addr h.operand

theorem Decodes.pc (h : Decodes opcode e code q) :
    q.advanced.pc = q.registers.pc + 1 + (Instruction.decode opcode).mode.operandBytes := by
  rw [advanced, h.instruction]

theorem Decodes.behaviour (h : Decodes opcode e code q) :
    q.nextOperation.behaviour = (Instruction.decode opcode).operation.behaviour :=
  congrArg (fun i => i.operation.behaviour) h.instruction

theorem decodes_of_absolute (hmode : (Instruction.decode opcode).mode = .absolute)
    (h : q.memory.CodeAt q.registers.pc (absoluteCode opcode e ++ code)) :
    Decodes opcode e code q := by
  have hnext := nextInstruction_of_codeAt h
  obtain ⟨-, hlow, hhigh, hcode⟩ := h
  refine ⟨hnext, ?_, ?_⟩
  · rw [add_one_one] at hhigh
    rw [nextOperand, hnext, hmode, Mode.find, hlow, hhigh, word_halves]
  · rw [advanced, hnext, hmode]
    rwa [add_one_one (q.registers.pc + 1)] at hcode

theorem decodes_of_immediate (hmode : (Instruction.decode opcode).mode = .immediate)
    (h : q.memory.CodeAt q.registers.pc (opcode :: v :: code)) :
    Decodes opcode (q.registers.pc + 1) code q := by
  have hnext := nextInstruction_of_codeAt h
  refine ⟨hnext, ?_, ?_⟩
  · rw [nextOperand, hnext, hmode, Mode.find]
  · rw [advanced, hnext, hmode]
    exact h.2.2

theorem decodes_of_none (hmode : (Instruction.decode opcode).mode ∈ [Mode.implied, .accumulator])
    (h : q.memory.CodeAt q.registers.pc (opcode :: code)) : Decodes opcode 0 code q := by
  have hnext := nextInstruction_of_codeAt h
  have hnone : q.registers.pc + 1 + 0 = q.registers.pc + 1 := UInt16.add_zero _
  rcases List.mem_pair.mp hmode with hmode | hmode
  all_goals
    refine ⟨hnext, ?_, ?_⟩
    · rw [nextOperand, hnext, hmode, Mode.find]
    · rw [advanced, hnext, hmode, Mode.operandBytes, hnone]
      exact h.2

theorem advanced_eq (h : q.registers = { p.registers with pc := q.registers.pc }) :
    q.advanced = { p.registers with pc := q.advanced.pc } :=
  congrArg (fun r : Registers => { r with pc := q.advanced.pc }) h

/-! One after the other. -/

section

variable {r r' : Registers} {m m' : FlatMemory}

theorem Leaves.one (h : q.Leaves r m) : ∃ taken, runSteps 1 q = ⟨.ok taken, q.stepped r m, []⟩ ∧
    taken + q.uncounted = q.owed + q.tableCost :=
  ⟨q.charge.toNat, Action.bind_of_quiet h.step, h.charge⟩

/-- Behind the first instruction nothing is owed. -/
theorem Leaves.two (h : q.Leaves r m) (h' : (q.stepped r m).Leaves r' m') : ∃ taken,
    runSteps 2 q = ⟨.ok taken, (q.stepped r m).stepped r' m', []⟩ ∧
      taken + q.uncounted = q.owed + (q.tableCost + (q.stepped r m).tableCost) := by
  refine ⟨q.charge.toNat + (q.stepped r m).charge.toNat,
    (Action.bind_of_quiet h.step).trans (Action.bind_of_quiet (Action.bind_of_quiet h'.step)), ?_⟩
  have hfirst := h.charge
  have hsecond := h'.charge
  rw [uncounted_of_settled rfl rfl, show (q.stepped r m).owed = 0 from rfl] at hsecond
  omega

end

section

variable {change change' : Registers → UInt8 → UInt8 × Registers}
  {settle settle' f f' : Registers → UInt8 → Registers} {g : Registers → Registers}
  {first second : UInt8}

/-- An instruction that changes a byte and works on with it does what one that changes it and one
that loads it do. -/
theorem matches_of_modify (hregisters : q.registers = { p.registers with pc := q.registers.pc })
    (hcode : q.memory.CodeAt q.registers.pc p.nextParts.flatten)
    (hoperand : p.effectiveAddress ∉ FlatMemory.span q.registers.pc p.nextParts.flatten.length ∧
      q.memory.get p.effectiveAddress = p.memory.get p.effectiveAddress)
    (hparts : p.nextParts =
      [absoluteCode first p.effectiveAddress, absoluteCode second p.effectiveAddress])
    (hop : p.nextOperation.behaviour = .modify change settle)
    (hmode : p.nextInstruction.mode ≠ .accumulator)
    (hfirst : (Instruction.decode first).operation.behaviour = .modify change' settle')
    (hfirstMode : (Instruction.decode first).mode = .absolute)
    (hsecond : (Instruction.decode second).operation.behaviour = .load f)
    (hsecondMode : (Instruction.decode second).mode = .absolute)
    (hsplit : ∀ (r : Registers) m pc pc',
      let whole := change { r with pc := pc } m
      let part := change' { r with pc := pc' } m
      whole.1 = part.1 ∧ (settle' part.2 part.1).pc = pc' ∧ ∀ pc'', settle whole.2 whole.1 =
        { f { settle' part.2 part.1 with pc := pc'' } part.1 with pc := pc }) :
    Matches p.nextParts.length (p.nextParts.map codeCycles).sum p q := by
  obtain ⟨hapart, hbyte⟩ := hoperand
  rw [hparts] at hcode hapart ⊢
  have hadvanced := advanced_eq hregisters
  have hd := decodes_of_absolute hfirstMode hcode
  have hstep := leaves_of_modify (p := q) (hd.behaviour.trans hfirst)
    (by rw [hd.instruction, hfirstMode]; decide)
  rw [hd.effectiveAddress, hbyte, hadvanced] at hstep
  obtain ⟨hwritten, hpc, hsettled⟩ := hsplit p.registers (p.memory.get p.effectiveAddress)
    p.advanced.pc q.advanced.pc
  -- the second instruction has not been overwritten
  generalize change' { p.registers with pc := q.advanced.pc } (p.memory.get p.effectiveAddress) =
    part at hstep hwritten hpc hsettled
  have hd' : Decodes second p.effectiveAddress []
      (q.stepped (settle' part.2 part.1) (q.memory.set p.effectiveAddress part.1)) := by
    refine decodes_of_absolute hsecondMode (FlatMemory.codeAt_set ?_ ?_)
    · change _ ∉ FlatMemory.span (settle' part.2 part.1).pc 3
      rw [hpc, hd.pc, hfirstMode, Mode.operandBytes, ← add_one_one]
      exact fun h => hapart (List.mem_cons_of_mem _ (List.mem_cons_of_mem _
        (List.mem_cons_of_mem _ h)))
    · change q.memory.CodeAt (settle' part.2 part.1).pc _
      rw [hpc]
      exact hd.code
  have hloaded : (q.stepped (settle' part.2 part.1)
      (q.memory.set p.effectiveAddress part.1)).memory.get p.effectiveAddress = part.1 :=
    FlatMemory.get_set_self _ _ _
  have hstep' := leaves_of_load (hd'.behaviour.trans hsecond)
  rw [hd'.effectiveAddress, hloaded] at hstep'
  obtain ⟨taken, hrun, htaken⟩ := hstep.two hstep'
  rw [hd.tableCost, hd'.tableCost] at htaken
  refine ⟨_, _, taken, (leaves_of_modify hop hmode).step, hrun, htaken, hsettled _, ?_⟩
  intro a ha
  change (q.memory.set p.effectiveAddress part.1).get a =
    (p.memory.set p.effectiveAddress (change p.advanced _).1).get a
  rw [show (change p.advanced _).1 = part.1 from hwritten]
  exact FlatMemory.get_set_congr ha

/-- An instruction that loads a byte and puts it into two registers does what one that loads it and
one that copies it do. -/
theorem matches_of_load (hregisters : q.registers = { p.registers with pc := q.registers.pc })
    (hcode : q.memory.CodeAt q.registers.pc p.nextParts.flatten)
    (hbyte : q.memory.get p.effectiveAddress = p.memory.get p.effectiveAddress)
    (hparts : p.nextParts = [absoluteCode first p.effectiveAddress, [second]])
    (hop : p.nextOperation.behaviour = .load f)
    (hfirst : (Instruction.decode first).operation.behaviour = .load f')
    (hfirstMode : (Instruction.decode first).mode = .absolute)
    (hsecond : (Instruction.decode second).operation.behaviour = .internal g)
    (hsecondMode : (Instruction.decode second).mode = .implied)
    (hsplit : ∀ (r : Registers) m pc pc', (f' { r with pc := pc' } m).pc = pc' ∧
      ∀ pc'', f { r with pc := pc } m =
        { g { f' { r with pc := pc' } m with pc := pc'' } with pc := pc }) :
    Matches p.nextParts.length (p.nextParts.map codeCycles).sum p q := by
  rw [hparts] at hcode ⊢
  have hd := decodes_of_absolute hfirstMode hcode
  have hstep := leaves_of_load (hd.behaviour.trans hfirst)
  rw [hd.effectiveAddress, hbyte, advanced_eq hregisters] at hstep
  obtain ⟨hpc, hcopied⟩ := hsplit p.registers (p.memory.get p.effectiveAddress)
    p.advanced.pc q.advanced.pc
  generalize f' { p.registers with pc := q.advanced.pc } (p.memory.get p.effectiveAddress) =
    r at hstep hpc hcopied
  have hd' : Decodes second 0 [] (q.stepped r q.memory) := by
    refine decodes_of_none (by rw [hsecondMode]; decide) ?_
    change q.memory.CodeAt r.pc _
    rw [hpc]
    exact hd.code
  -- the copy runs behind the load and touches no memory
  obtain ⟨taken, hrun, htaken⟩ := hstep.two (leaves_of_internal (hd'.behaviour.trans hsecond))
  rw [hd.tableCost, hd'.tableCost] at htaken
  exact ⟨_, _, taken, (leaves_of_load hop).step, hrun, htaken, hcopied _, fun a ha => ha⟩

/-- An instruction that masks the accumulator and shifts it does what one that masks it and one that
shifts it do. -/
theorem matches_of_mask (hregisters : q.registers = { p.registers with pc := q.registers.pc })
    (hcode : q.memory.CodeAt q.registers.pc p.nextParts.flatten)
    (hparts : p.nextParts = [[first, p.memory.get p.effectiveAddress], [second]])
    (hop : p.nextOperation.behaviour = .load f)
    (hfirst : (Instruction.decode first).operation.behaviour = .load f')
    (hfirstMode : (Instruction.decode first).mode = .immediate)
    (hsecond : (Instruction.decode second).operation.behaviour = .modify change settle)
    (hsecondMode : (Instruction.decode second).mode = .accumulator)
    (hsplit : ∀ (r : Registers) m pc pc', (f' { r with pc := pc' } m).pc = pc' ∧ ∀ pc'',
      let masked := f' { r with pc := pc' } m
      let part := change { masked with pc := pc'' } masked.a
      f { r with pc := pc } m = { settle { part.2 with a := part.1 } part.1 with pc := pc }) :
    Matches p.nextParts.length (p.nextParts.map codeCycles).sum p q := by
  rw [hparts] at hcode ⊢
  have hd := decodes_of_immediate hfirstMode hcode
  have hstep := leaves_of_load (hd.behaviour.trans hfirst)
  rw [hd.effectiveAddress, hcode.2.1, advanced_eq hregisters] at hstep
  obtain ⟨hpc, hshifted⟩ := hsplit p.registers (p.memory.get p.effectiveAddress)
    p.advanced.pc q.advanced.pc
  generalize f' { p.registers with pc := q.advanced.pc } (p.memory.get p.effectiveAddress) =
    r at hstep hpc hshifted
  have hd' : Decodes second 0 [] (q.stepped r q.memory) := by
    refine decodes_of_none (by rw [hsecondMode]; decide) ?_
    change q.memory.CodeAt r.pc _
    rw [hpc]
    exact hd.code
  obtain ⟨taken, hrun, htaken⟩ := hstep.two (leaves_of_accumulator (hd'.behaviour.trans hsecond)
    (by rw [hd'.instruction, hsecondMode]))
  rw [hd.tableCost, hd'.tableCost] at htaken
  exact ⟨_, _, taken, (leaves_of_load hop).step, hrun, htaken, hshifted _, fun a ha => ha⟩

/-- An instruction that loads a byte does the same if the byte is part of its code. -/
theorem matches_of_immediate (hregisters : q.registers = { p.registers with pc := q.registers.pc })
    (hcode : q.memory.CodeAt q.registers.pc p.nextParts.flatten)
    (hparts : p.nextParts = [[first, p.memory.get p.effectiveAddress]])
    (hop : p.nextOperation.behaviour = .load f)
    (hfirst : (Instruction.decode first).operation.behaviour = .load f)
    (hfirstMode : (Instruction.decode first).mode = .immediate)
    (hsame : ∀ (r : Registers) m pc pc',
      f { r with pc := pc } m = { f { r with pc := pc' } m with pc := pc }) :
    Matches p.nextParts.length (p.nextParts.map codeCycles).sum p q := by
  rw [hparts] at hcode ⊢
  have hd := decodes_of_immediate hfirstMode hcode
  have hstep := leaves_of_load (hd.behaviour.trans hfirst)
  rw [hd.effectiveAddress, hcode.2.1, advanced_eq hregisters] at hstep
  obtain ⟨taken, hrun, htaken⟩ := hstep.one
  rw [hd.tableCost] at htaken
  exact ⟨_, _, taken, (leaves_of_load hop).step, hrun, htaken, hsame _ _ _ _, fun a ha => ha⟩

end

/-- Instructions that change a byte and work on with it do so in memory. -/
theorem mode_ne_accumulator (h : p.nextOperation ∈ [Operation.slo, .rla, .sre, .rra, .dcp, .isc]) :
    p.nextInstruction.mode ≠ .accumulator :=
  Instruction.forall_decode (P := fun i => i.operation ∈ [Operation.slo, .rla, .sre, .rra, .dcp,
    .isc] → i.mode ≠ .accumulator) (by decide) _ h

/-! The second of two instructions decides on the zero and negative flags, wherever both are. -/

section

variable (r : Registers) (m w : UInt8) (pc pc' pc'' : UInt16)

theorem compare_split : { r with pc := pc }.compare r.a w =
    { { { r with pc := pc' }.setZeroNegative w with pc := pc'' }.compare r.a w with pc := pc } :=
  calc { r with pc := pc }.compare r.a w
    _ = { r.compare r.a w with pc := pc } := rfl
    _ = { (r.setZeroNegative w).compare r.a w with pc := pc } := by
      rw [Registers.compare_setZeroNegative]

theorem subtract_split : { r with pc := pc }.subtractWithBorrow w =
    { { { r with pc := pc' }.setZeroNegative w with pc := pc'' }.subtractWithBorrow w with
      pc := pc } :=
  calc { r with pc := pc }.subtractWithBorrow w
    _ = { r.subtractWithBorrow w with pc := pc } := rfl
    _ = { (r.setZeroNegative w).subtractWithBorrow w with pc := pc } := by
      rw [Registers.subtractWithBorrow_setZeroNegative]

theorem copy_split : { r with pc := pc, x := m }.setA m =
    { { { r with pc := pc' }.setA m with pc := pc'' }.setX m with pc := pc } :=
  calc { r with pc := pc, x := m }.setA m
    _ = { { r with a := m, x := m }.setZeroNegative m with pc := pc } := rfl
    _ = { ({ r with a := m, x := m }.setZeroNegative m).setZeroNegative m with pc := pc } := by
      rw [Registers.setZeroNegative_setZeroNegative]

theorem mask_split :
    { ({ r with pc := pc }.shiftRight w false).2 with
      a := ({ r with pc := pc }.shiftRight w false).1 } =
    { ({ { r with pc := pc' }.setA w with pc := pc'' }.shiftRight w false).2 with
      a := ({ { r with pc := pc' }.setA w with pc := pc'' }.shiftRight w false).1, pc := pc } :=
  calc { ({ r with pc := pc }.shiftRight w false).2 with
      a := ({ r with pc := pc }.shiftRight w false).1 }
    _ = { (r.shiftRight w false).2 with a := (r.shiftRight w false).1, pc := pc } := rfl
    _ = { ((r.setZeroNegative w).shiftRight w false).2 with
        a := ((r.setZeroNegative w).shiftRight w false).1, pc := pc } := by
      rw [Registers.shiftRight_setZeroNegative]

end

theorem nextParts_eq {op : Operation} (h : p.nextOperation = op) :
    p.nextParts = { p.nextInstruction with operation := op }.parts p.effectiveAddress
      (p.memory.get p.effectiveAddress) := by
  subst h
  rfl

/-- A combined instruction does to the registers and to the memory what its official parts do one
after the other, wherever their code lies as long as it is not at the address that they work on.
Only the program counter goes on behind the one instruction, and the cost is that of the table. -/
theorem step_matches_parts (hparts : p.nextParts ≠ [])
    (hregisters : q.registers = { p.registers with pc := q.registers.pc })
    (hcode : q.memory.CodeAt q.registers.pc p.nextParts.flatten)
    (hoperand : p.nextOperation.addresses →
      p.effectiveAddress ∉ FlatMemory.span q.registers.pc p.nextParts.flatten.length ∧
        q.memory.get p.effectiveAddress = p.memory.get p.effectiveAddress) :
    Matches p.nextParts.length (p.nextParts.map codeCycles).sum p q := by
  cases hop : p.nextOperation with
  | slo | rla | sre | rra =>
    exact matches_of_modify hregisters hcode (hoperand (by rw [hop]; rfl)) (nextParts_eq hop)
      (by rw [hop]; rfl) (mode_ne_accumulator (by rw [hop]; decide)) rfl rfl rfl rfl
      fun r m pc pc' => ⟨rfl, rfl, fun _ => rfl⟩
  | dcp =>
    exact matches_of_modify hregisters hcode (hoperand (by rw [hop]; rfl)) (nextParts_eq hop)
      (by rw [hop]; rfl) (mode_ne_accumulator (by rw [hop]; decide)) rfl rfl rfl rfl
      fun r m pc pc' => ⟨rfl, rfl, compare_split r (m + -1) pc pc'⟩
  | isc =>
    exact matches_of_modify hregisters hcode (hoperand (by rw [hop]; rfl)) (nextParts_eq hop)
      (by rw [hop]; rfl) (mode_ne_accumulator (by rw [hop]; decide)) rfl rfl rfl rfl
      fun r m pc pc' => ⟨rfl, rfl, subtract_split r (m + 1) pc pc'⟩
  | lax =>
    exact matches_of_load hregisters hcode (hoperand (by rw [hop]; rfl)).2 (nextParts_eq hop)
      (by rw [hop]; rfl) rfl rfl rfl rfl fun r m pc pc' => ⟨rfl, copy_split r m pc pc'⟩
  | alr =>
    exact matches_of_mask hregisters hcode (nextParts_eq hop) (by rw [hop]; rfl) rfl rfl rfl rfl
      fun r m pc pc' => ⟨rfl, mask_split r (r.a &&& m) pc pc'⟩
  | sbc =>
    -- the official opcodes stand for themselves
    have hif := nextParts_eq hop
    by_cases hofficial : p.nextInstruction.official
    · exact (hparts (hif.trans (if_pos hofficial))).elim
    · exact matches_of_immediate hregisters hcode (hif.trans (if_neg hofficial)) (by rw [hop]; rfl)
        rfl rfl fun r m pc pc' => rfl
  | _ => exact (hparts (nextParts_eq hop)).elim

/-- The code of a shift and an or of the byte at 0x0F0F, where there has been a byte 0x0F. -/
def shiftAndOr : List UInt8 := [0x0E, 0x0F, 0x0F, 0x0D, 0x0F, 0x0F]

/-- The same at address 0x0200, in memory that is otherwise full of the combined instruction. -/
def amidParts : Processor FlatMemory :=
  { amid 0x0F 0x40 0x24 with
    registers := { (amid 0x0F 0x40 0x24).registers with pc := 0x0200 }
    memory := (amid 0x0F 0x40 0x24).memory.setAll 0x0200 shiftAndOr }

theorem step_matches_shiftAndOr :
    Matches 2 10 (amid 0x0F 0x40 0x24) amidParts ∧ (amid 0x0F 0x40 0x24).tableCost = 6 := by
  have hnext := nextInstruction_amid 0x0F 0x40 0x24
  have hoperand : (amid 0x0F 0x40 0x24).nextOperand = .plain 0x0F0F := by
    rw [nextOperand, hnext, show (Instruction.decode 0x0F).mode = .absolute from rfl, Mode.find,
      get_amid, get_amid]
    decide
  have haddress : (amid 0x0F 0x40 0x24).effectiveAddress = 0x0F0F := congrArg Operand.addr hoperand
  have hparts : (amid 0x0F 0x40 0x24).nextParts = [[0x0E, 0x0F, 0x0F], [0x0D, 0x0F, 0x0F]] := by
    rw [nextParts, hnext, haddress, get_amid]
    decide
  have hmatches := step_matches_parts (p := amid 0x0F 0x40 0x24) (q := amidParts)
    (by rw [hparts]; decide) rfl
    (by rw [hparts]; exact FlatMemory.codeAt_setAll (by decide))
    (fun _ => by
      rw [hparts, haddress]
      exact ⟨by decide, FlatMemory.get_setAll (by decide)⟩)
  rw [hparts] at hmatches
  refine ⟨hmatches, ?_⟩
  rw [tableCost, hnext, hoperand]
  rfl

end Processor

end Famicom
