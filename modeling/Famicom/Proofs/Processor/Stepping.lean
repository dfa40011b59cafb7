import Famicom.Proofs.Processor.Composed

/-! Whole instructions against single cycles. An instruction takes effect in its first cycle, so
that after the cycles it costs both ways of running agree. The clock counts in words: what a step
answers is a word too, and says less than the step has taken if that does not fit. -/

namespace Famicom

/-- What holds of every entry of the table holds of every instruction. -/
theorem Instruction.forall_decode {P : Instruction → Prop} (h : ∀ i j : Fin 16, P table[i][j])
    (opcode : UInt8) : P (decode opcode) := by
  have hlt := opcode.toNat_lt
  exact h ⟨opcode.toNat / 16, by omega⟩ ⟨opcode.toNat % 16, by omega⟩

theorem Instruction.two_le_cycles (opcode : UInt8) : 2 ≤ (decode opcode).cycles :=
  forall_decode (P := fun i => 2 ≤ i.cycles) (by decide) opcode

theorem Instruction.cycles_le_eight (opcode : UInt8) : (decode opcode).cycles ≤ 8 :=
  forall_decode (P := fun i => i.cycles ≤ 8) (by decide) opcode

namespace Processor

open Famicom.Action

variable {M ε : Type} [Memory M ε]

/-- Instructions one after another; the answer is what they cost together. -/
def runSteps : Nat → Action (Fault ε) (Processor M) Nat
  | 0 => return 0
  | k + 1 => do
    let cost ← step
    let rest ← runSteps k
    return cost.toNat + rest

omit [Memory M ε] in
/-- The cycles that are to pass before the next instruction. -/
def owed (p : Processor M) : Nat := p.pending.toNat + p.stall.toNat

/-- The cycles of the next step that its answer leaves out, since it is a word. -/
def uncounted (p : Processor M) : Nat :=
  match (execute p).answer with
  | .ok cost => UInt32.size * ((p.owed + cost) / UInt32.size)
  | .error _ => 0

/-! What an instruction costs. -/

/-- Only a branch adds cycles, two at most. -/
theorem answers_perform (start : UInt16) (opcode : UInt8) (mode : Mode) (operand : Operand)
    (b : Behaviour) : Answers (· ≤ 2)
      (perform start opcode mode operand b : Action (Fault ε) (Processor M) Nat) := by
  have hzero : Answers (· ≤ 2) (pure 0 : Action (Fault ε) (Processor M) Nat) :=
    answers_pure (by decide)
  cases b with
  | branch taken =>
    refine answers_bind fun isTaken => ?_
    cases isTaken with
    | false => exact hzero
    | true => exact answers_bind fun _ => answers_pure (by split <;> decide)
  | jam => exact answers_bind fun _ => answers_bind fun _ => answers_fail _
  | internal f => exact answers_bind fun _ => hzero
  | load f => exact answers_bind fun _ => answers_bind fun _ => hzero
  | store f => exact answers_bind fun _ => answers_bind fun _ => answers_bind fun _ => hzero
  | modify change settle =>
    exact answers_bind fun _ => answers_bind fun _ => answers_bind fun _ => answers_bind fun _ =>
      answers_bind fun _ => hzero
  | push value => exact answers_bind fun _ => answers_bind fun _ => hzero
  | pull f => exact answers_bind fun _ => answers_bind fun _ => hzero
  | jump => exact answers_bind fun _ => hzero
  | call =>
    exact answers_bind fun _ => answers_bind fun _ => answers_bind fun _ => hzero
  | ret => exact answers_bind fun _ => answers_bind fun _ => hzero
  | returnFromInterrupt =>
    exact answers_bind fun _ => answers_bind fun _ => answers_bind fun _ => answers_bind fun _ =>
      hzero
  | brk =>
    exact answers_bind fun _ => answers_bind fun _ => answers_bind fun _ => answers_bind fun _ =>
      answers_bind fun _ => answers_bind fun _ => answers_bind fun _ => answers_bind fun _ => hzero

theorem answers_execute : Answers (fun cost => 2 ≤ cost ∧ cost ≤ 11)
    (execute : Action (Fault ε) (Processor M) Nat) := by
  refine answers_bind fun start => answers_bind fun opcode => answers_bind fun operand => ?_
  intro p cost h
  have htwo := Instruction.two_le_cycles opcode
  have height := Instruction.cycles_le_eight opcode
  rcases hp : perform start opcode (Instruction.decode opcode).mode operand
    (Instruction.decode opcode).operation.behaviour p with ⟨e | extra, q, es⟩
  · rw [bind_of_error hp] at h
    cases h
  · have hextra := answers_perform start opcode _ operand _ p extra (by rw [hp])
    rw [bind_of_ok hp] at h
    cases h
    split <;> omega

variable {p q : Processor M} {e : Fault ε} {cost : Nat} {es : List Event}

/-- Every instruction that completes costs at least two cycles. -/
theorem two_le_of_execute (h : execute p = ⟨.ok cost, q, es⟩) : 2 ≤ cost :=
  (answers_execute p cost (by rw [h])).1

theorem toNat_of_execute (h : execute p = ⟨.ok cost, q, es⟩) :
    (UInt32.ofNat cost).toNat = cost := by
  have hle := (answers_execute p cost (by rw [h])).2
  exact UInt32.toNat_ofNat_of_lt' (lt_of_le_of_lt hle (by decide))

/-! Counting down. -/

theorem toNat_pred {n : UInt32} (h : 0 < n) : (n - 1).toNat = n.toNat - 1 :=
  UInt32.toNat_sub_of_le n 1 (UInt32.le_iff_toNat_le.mpr (UInt32.lt_iff_toNat_lt.mp h))

theorem eq_zero_of_not_pos {n : UInt32} (h : ¬0 < n) : n = 0 := by
  rw [← UInt32.toNat_inj]
  exact Nat.eq_zero_of_not_pos fun hpos => h (UInt32.lt_iff_toNat_lt.mpr hpos)

theorem pos_of_ne_zero {n : UInt32} (h : n ≠ 0) : 0 < n := by
  by_contra hnot
  exact h (eq_zero_of_not_pos hnot)

theorem pos_of_execute (h : execute p = ⟨.ok cost, q, es⟩) : 0 < UInt32.ofNat cost := by
  rw [UInt32.lt_iff_toNat_lt, toNat_of_execute h]
  exact Nat.lt_of_lt_of_le (by decide) (two_le_of_execute h)

theorem toNat_pred_of_execute (h : execute p = ⟨.ok cost, q, es⟩) :
    (UInt32.ofNat cost - 1).toNat = cost - 1 := by
  rw [toNat_pred (pos_of_execute h), toNat_of_execute h]

omit [Memory M ε] in
theorem owed_eq_zero_iff : p.owed = 0 ↔ p.pending = 0 ∧ p.stall = 0 := by
  unfold owed
  rw [Nat.add_eq_zero_iff, ← UInt32.toNat_inj, ← UInt32.toNat_inj]
  rfl

omit [Memory M ε] in
theorem owed_pos_iff : 0 < p.owed ↔ 0 < p.stall ∨ 0 < p.pending := by
  rw [UInt32.lt_iff_toNat_lt, UInt32.lt_iff_toNat_lt, or_comm]
  exact Nat.add_pos_iff_pos_or_pos

omit [Memory M ε] in
theorem owed_withClock (p : Processor M) (c : UInt64) (n s : UInt32) :
    (p.withClock c n s).owed = n.toNat + s.toNat := rfl

/-! One cycle of what is owed is paid, from the stall or from the instruction. -/

omit [Memory M ε] in
theorem owed_pred_stall (h : 0 < p.stall) (c : UInt64) :
    (p.withClock c p.pending (p.stall - 1)).owed + 1 = p.owed := by
  have hpos : 0 < p.stall.toNat := UInt32.lt_iff_toNat_lt.mp h
  rw [owed_withClock, toNat_pred h]
  unfold owed
  omega

omit [Memory M ε] in
theorem owed_pred_pending (hstall : p.stall = 0) (h : 0 < p.pending) (c : UInt64) :
    (p.withClock c (p.pending - 1) 0).owed + 1 = p.owed := by
  have hpos : 0 < p.pending.toNat := UInt32.lt_iff_toNat_lt.mp h
  have hnone : p.stall.toNat = (0 : UInt32).toNat := congrArg UInt32.toNat hstall
  rw [owed_withClock, toNat_pred h]
  unfold owed
  omega

omit [Memory M ε] in
/-- The stall for a transfer takes one cycle more if it starts on an odd one. -/
theorem toNat_transfer (p : Processor M) : p.transfer.stall.toNat =
    (p.stall.toNat + if p.cycles.toNat % 2 = 0 then 513 else 514) % UInt32.size := by
  have hodd : (p.cycles % 2).toUInt32.toNat = p.cycles.toNat % 2 := by
    rw [UInt64.toNat_toUInt32, UInt64.toNat_mod]
    exact Nat.mod_eq_of_lt (lt_of_lt_of_le (Nat.mod_lt _ (by decide)) (by decide))
  have hsum : (transferCycles + (p.cycles % 2).toUInt32).toNat =
      if p.cycles.toNat % 2 = 0 then 513 else 514 := by
    rw [UInt32.toNat_add, hodd]
    rcases Nat.mod_two_eq_zero_or_one p.cycles.toNat with h | h <;> rw [h] <;> rfl
  rw [← hsum]
  exact UInt32.toNat_add _ _

/-! A step and a cycle. -/

/-- A step settles what is owed and executes one instruction. -/
theorem step_of_ok (h : execute p = ⟨.ok cost, q, es⟩) :
    step p = ⟨.ok (p.pending + p.stall + .ofNat cost),
      q.withClock (p.cycles + (p.pending + p.stall + .ofNat cost).toUInt64) 0 0, es⟩ := by
  have hx := Composed.execute.run_withClock p p.cycles 0 0
  rw [h] at hx
  unfold step
  rw [Action.view_bind, Action.update_bind]
  change (execute >>= _) (p.withClock p.cycles 0 0) = _
  rw [Action.bind_of_ok hx]
  simp only [Action.update_bind, Action.pure_apply, List.append_nil]
  rfl

theorem step_of_error (h : execute p = ⟨.error e, q, es⟩) :
    step p = ⟨.error e, q.withClock p.cycles 0 0, es⟩ := by
  have hx := Composed.execute.run_withClock p p.cycles 0 0
  rw [h] at hx
  unfold step
  rw [Action.view_bind, Action.update_bind]
  change (execute >>= _) (p.withClock p.cycles 0 0) = _
  rw [Action.bind_of_error hx]

/-- While a transfer goes on, a cycle only counts its stall down. -/
theorem cycle_of_stall (p : Processor M) (h : 0 < p.stall) :
    cycle p = ⟨.ok (), p.withClock (p.cycles + 1) p.pending (p.stall - 1), []⟩ := by
  unfold cycle
  rw [Action.update_bind, Action.view_bind, Action.ite_apply, if_pos h]
  rfl

theorem cycle_of_pending (p : Processor M) (hs : p.stall = 0) (h : 0 < p.pending) :
    cycle p = ⟨.ok (), p.withClock (p.cycles + 1) (p.pending - 1) 0, []⟩ := by
  have hne : p.pending ≠ 0 := fun hzero => absurd (hzero ▸ h) (by decide)
  unfold cycle
  simp only [Action.update_bind, Action.view_bind, Action.ite_apply, hs, Action.update_apply,
    UInt32.lt_irrefl, gt_iff_lt, if_false, hne]
  rfl

/-- At the boundary of an instruction, a cycle executes the next one. -/
theorem cycle_of_ok (hs : p.stall = 0) (hn : p.pending = 0)
    (h : execute p = ⟨.ok cost, q, es⟩) :
    cycle p = ⟨.ok (), q.withClock (p.cycles + 1) (.ofNat cost - 1) 0, es⟩ := by
  have hx := Composed.execute.run_withClock p (p.cycles + 1) 0 0
  rw [h] at hx
  unfold cycle
  simp only [Action.update_bind, Action.view_bind, Action.ite_apply, hs, hn, UInt32.lt_irrefl,
    gt_iff_lt, if_false, if_true]
  change (execute >>= _) (p.withClock (p.cycles + 1) 0 0) = _
  rw [Action.bind_of_ok hx]
  simp only [Action.update_bind, Action.update_apply, List.append_nil]
  rfl

theorem cycle_of_error (hs : p.stall = 0) (hn : p.pending = 0)
    (h : execute p = ⟨.error e, q, es⟩) :
    cycle p = ⟨.error e, q.withClock (p.cycles + 1) 0 0, es⟩ := by
  have hx := Composed.execute.run_withClock p (p.cycles + 1) 0 0
  rw [h] at hx
  unfold cycle
  simp only [Action.update_bind, Action.view_bind, Action.ite_apply, hs, hn, UInt32.lt_irrefl,
    gt_iff_lt, if_false, if_true]
  change (execute >>= _) (p.withClock (p.cycles + 1) 0 0) = _
  rw [Action.bind_of_error hx]

theorem uncounted_of_ok (h : execute p = ⟨.ok cost, q, es⟩) :
    p.uncounted = UInt32.size * ((p.owed + cost) / UInt32.size) := by
  unfold uncounted
  rw [h]

omit [Memory M ε] in
theorem ofNat_owed_add (p : Processor M) (cost : Nat) :
    p.pending + p.stall + .ofNat cost = UInt32.ofNat (p.owed + cost) := by
  unfold owed
  rw [UInt32.ofNat_add, UInt32.ofNat_add, UInt32.ofNat_toNat, UInt32.ofNat_toNat]

/-- What a step answers and what it leaves out make up what is owed and what the instruction
costs. -/
theorem toNat_answer (h : execute p = ⟨.ok cost, q, es⟩) :
    (p.pending + p.stall + .ofNat cost).toNat + p.uncounted = p.owed + cost := by
  rw [uncounted_of_ok h, UInt32.toNat_add, UInt32.toNat_add, toNat_of_execute h, Nat.mod_add_mod]
  exact Nat.mod_add_div _ _

/-- Nothing is left out unless almost a word of cycles is owed. -/
theorem uncounted_of_lt (h : p.owed + 11 < UInt32.size) : p.uncounted = 0 := by
  rcases hx : execute p with ⟨e | cost, r, es'⟩
  · unfold uncounted
    rw [hx]
  · have hle := (answers_execute p cost (by rw [hx])).2
    rw [uncounted_of_ok hx, Nat.div_eq_of_lt (by omega), Nat.mul_zero]

theorem uncounted_of_settled (hp : p.pending = 0) (hs : p.stall = 0) : p.uncounted = 0 := by
  refine uncounted_of_lt ?_
  rw [owed_eq_zero_iff.mpr ⟨hp, hs⟩]
  decide

/-- A memory without state: two instructions that do nothing, and jams behind them. -/
structure TwoNops where

instance : Memory TwoNops Empty where
  read addr := .view fun _ => if addr < 2 then 0xEA else 0x02
  write _ _ := .update id

/-- A processor before the two instructions, with a stall of two cycles and three cycles owed. -/
def TwoNops.before : Processor TwoNops := ⟨.powerOn, 1, 3, 2, {}⟩

/-- The processor behind the two instructions. -/
def TwoNops.behind : Processor TwoNops := ⟨{ Registers.powerOn with pc := 2 }, 10, 0, 0, {}⟩

end Processor

end Famicom
