import Famicom.Proofs.Processor.Stepping

/-! The account of a processor's cycles: those that have passed and those that are still owed. Every
call adds its cost to it. As long as no counter wraps around, only a step whose instruction fails
takes something away, and that is all that was owed before it. -/

namespace Famicom.Processor

variable {M ε : Type} [Memory M ε]

/-- What can be asked of a processor that runs. -/
inductive Call
  | step | cycle | nmi | irq | transfer
deriving DecidableEq, Repr

/-- Does what is asked, without the cycles that a step answers. -/
def Call.run : Call → Action (Fault ε) (Processor M) Unit
  | .step => do
    let _ ← Processor.step
    return
  | .cycle => Processor.cycle
  | .nmi => Processor.nmi
  | .irq => Processor.irq
  | .transfer => .update Processor.transfer

/-- The processor after calls one after another, whether they have failed or not. -/
def after (p : Processor M) : List Call → Processor M
  | [] => p
  | call :: calls => (call.run p).state.after calls

variable {p q : Processor M} {e : Fault ε} {es : List Event} {vector : UInt16}

omit [Memory M ε] in
/-- The cycles that have passed, with those that are owed. -/
def accounted (p : Processor M) : Nat := p.cycles.toNat + p.owed

/-- The cost of the next instruction, or what is counted instead if it fails. -/
def nextCost (p : Processor M) (failed : Nat) : Nat :=
  match (execute p).answer with
  | .ok cost => cost
  | .error _ => failed

/-- What a call adds to the account. A cycle has passed even if its instruction fails. -/
def Call.gain (p : Processor M) : Call → Nat
  | .step => p.nextCost 0
  | .cycle => if 0 < p.owed then 0 else p.nextCost 1
  | .nmi => if (Processor.nmi p).answer.isOk then 7 else 0
  | .irq =>
    if p.registers.flag Flag.interruptDisable then 0
    else if (Processor.irq p).answer.isOk then 7 else 0
  | .transfer => if p.cycles.toNat % 2 = 0 then 513 else 514

/-- What a call takes from the account. -/
def Call.loss (p : Processor M) : Call → Nat
  | .step => if (Processor.step p).answer.isOk then 0 else p.owed
  | .cycle | .nmi | .irq | .transfer => 0

/-- What a counter of some size loses where it wraps around. -/
def wrapped (size n : Nat) : Nat := size * (n / size)

/-- What a call takes from the account because a counter wraps around. -/
def Call.wrapped (p : Processor M) (call : Call) : Nat :=
  match call with
  | .step =>
    match (Processor.step p).answer with
    | .ok n => p.uncounted + Processor.wrapped UInt64.size (p.cycles.toNat + n.toNat)
    | .error _ => 0
  | .cycle => Processor.wrapped UInt64.size (p.cycles.toNat + 1)
  | .nmi | .irq => Processor.wrapped UInt32.size (p.pending.toNat + call.gain p)
  | .transfer => Processor.wrapped UInt32.size (p.stall.toNat + call.gain p)

def gains (p : Processor M) : List Call → Nat
  | [] => 0
  | call :: calls => call.gain p + (call.run p).state.gains calls

def losses (p : Processor M) : List Call → Nat
  | [] => 0
  | call :: calls => call.loss p + (call.run p).state.losses calls

def wraps (p : Processor M) : List Call → Nat
  | [] => 0
  | call :: calls => call.wrapped p + (call.run p).state.wraps calls

/-! Entries into an interrupt. -/

/-- The accesses of an entry, before its cycles are owed. -/
def enter (vector : UInt16) : Action (Fault ε) (Processor M) Unit := do
  pushWord (← view (·.pc))
  push (← view (·.statusWithoutBreak))
  update (·.setFlag Flag.interruptDisable true)
  followVector vector

omit [Memory M ε] in
/-- The processor with the cycles of an entry to pay. -/
def entered (p : Processor M) : Processor M := { p with pending := p.pending + interruptCycles }

theorem interrupt_eq_enter (vector : UInt16) :
    (interrupt vector : Action (Fault ε) (Processor M) Unit) =
      enter vector >>= fun _ => .update entered := by
  unfold interrupt enter
  simp only [bind_assoc]
  rfl

theorem Composed.enter (vector : UInt16) :
    Composed (enter vector : Action (Fault ε) (Processor M) Unit) :=
  ((Accesses.view _).bind fun _ => (Accesses.pushWord _).bind fun _ => (Accesses.view _).bind
    fun _ => (Accesses.push _).bind fun _ => (Accesses.update _).bind fun _ =>
      Accesses.followVector _).composed

theorem nmi_of_entered (h : enter nmiVector p = ⟨.ok (), q, es⟩) :
    ∃ es', nmi p = ⟨.ok (), q.entered, es'⟩ := by
  unfold nmi
  rw [interrupt_eq_enter, view_registers, bind_assoc, Action.bind_of_ok h]
  exact ⟨_, rfl⟩

theorem nmi_of_refused (h : enter nmiVector p = ⟨.error e, q, es⟩) :
    nmi p = ⟨.error e, q, es⟩ := by
  unfold nmi
  rw [interrupt_eq_enter, view_registers, bind_assoc, Action.bind_of_error h]

theorem irq_of_disabled (h : p.registers.flag Flag.interruptDisable = true) :
    irq p = ⟨.ok (), p, []⟩ := by
  unfold irq
  rw [view_registers, h]
  rfl

/-- While interrupts are enabled, a request is entered like one that cannot be disabled. -/
theorem irq_of_enabled (h : p.registers.flag Flag.interruptDisable = false) :
    irq p = (interrupt irqVector >>= fun _ => do
      .report (.irq p.registers.pc (← view (·.pc)))) p := by
  unfold irq
  rw [view_registers, h]
  rfl

theorem irq_of_entered (hon : p.registers.flag Flag.interruptDisable = false)
    (h : enter irqVector p = ⟨.ok (), q, es⟩) : ∃ es', irq p = ⟨.ok (), q.entered, es'⟩ := by
  rw [irq_of_enabled hon, interrupt_eq_enter, bind_assoc, Action.bind_of_ok h]
  exact ⟨_, rfl⟩

theorem irq_of_refused (hon : p.registers.flag Flag.interruptDisable = false)
    (h : enter irqVector p = ⟨.error e, q, es⟩) : irq p = ⟨.error e, q, es⟩ := by
  rw [irq_of_enabled hon, interrupt_eq_enter, bind_assoc, Action.bind_of_error h]

/-! A call apart from the clock. -/

/-- The instruction or the entry that a call is made of, if there is one. -/
def Call.work (p : Processor M) : Call → Action (Fault ε) (Processor M) Unit
  | .step => do
    let _ ← execute
    return
  | .cycle =>
    if 0 < p.owed then return
    else do
      let _ ← execute
      return
  | .nmi => enter nmiVector
  | .irq => if p.registers.flag Flag.interruptDisable then return else enter irqVector
  | .transfer => return

theorem run_step (p : Processor M) : Call.step.run p =
    ⟨(step p).answer.map fun _ => (), (step p).state, (step p).events⟩ := by
  rcases h : step p with ⟨e | n, q, es⟩
  · exact Action.bind_of_error h
  · exact (Action.bind_of_ok h).trans (by rw [Action.pure_apply, List.append_nil]; rfl)

/-- Around its instruction or its entry a call only moves the clock. -/
theorem run_work (call : Call) (p : Processor M) :
    (call.run p).answer = (call.work p p).answer ∧
      ∃ c n s, (call.run p).state = (call.work p p).state.withClock c n s := by
  cases call with
  | step =>
    rw [run_step, Call.work]
    rcases h : execute p with ⟨e | cost, q, es⟩
    · rw [step_of_error h, Action.bind_of_error h]
      exact ⟨rfl, _, _, _, rfl⟩
    · rw [step_of_ok h, Action.bind_of_ok h]
      exact ⟨rfl, _, _, _, rfl⟩
  | cycle =>
    change (cycle p).answer = _ ∧ ∃ c n s, (cycle p).state = _
    rw [Call.work, Action.ite_apply]
    by_cases howed : 0 < p.owed
    · rw [if_pos howed]
      by_cases hs : 0 < p.stall
      · rw [cycle_of_stall p hs]
        exact ⟨rfl, _, _, _, rfl⟩
      · have hstall := eq_zero_of_not_pos hs
        have hpending := pos_of_ne_zero fun hzero =>
          howed.ne' (owed_eq_zero_iff.mpr ⟨hzero, hstall⟩)
        rw [cycle_of_pending p hstall hpending]
        exact ⟨rfl, _, _, _, rfl⟩
    · obtain ⟨hpending, hstall⟩ := owed_eq_zero_iff.mp (Nat.eq_zero_of_not_pos howed)
      rw [if_neg howed]
      rcases h : execute p with ⟨e | cost, q, es⟩
      · rw [cycle_of_error hstall hpending h, Action.bind_of_error h]
        exact ⟨rfl, _, _, _, rfl⟩
      · rw [cycle_of_ok hstall hpending h, Action.bind_of_ok h]
        exact ⟨rfl, _, _, _, rfl⟩
  | nmi =>
    change (nmi p).answer = (enter nmiVector p).answer ∧
      ∃ c n s, (nmi p).state = (enter nmiVector p).state.withClock c n s
    rcases h : enter nmiVector p with ⟨e | _, q, es⟩
    · rw [nmi_of_refused h]
      exact ⟨rfl, q.cycles, q.pending, q.stall, rfl⟩
    · obtain ⟨es', hnmi⟩ := nmi_of_entered h
      rw [hnmi]
      exact ⟨rfl, _, _, _, rfl⟩
  | irq =>
    change (irq p).answer = _ ∧ ∃ c n s, (irq p).state = _
    rw [Call.work, Action.ite_apply]
    cases hon : p.registers.flag Flag.interruptDisable with
    | true =>
      rw [irq_of_disabled hon]
      exact ⟨rfl, p.cycles, p.pending, p.stall, rfl⟩
    | false =>
      rw [if_neg Bool.false_ne_true]
      rcases h : enter irqVector p with ⟨e | _, q, es⟩
      · rw [irq_of_refused hon h]
        exact ⟨rfl, q.cycles, q.pending, q.stall, rfl⟩
      · obtain ⟨es', hirq⟩ := irq_of_entered hon h
        rw [hirq]
        exact ⟨rfl, _, _, _, rfl⟩
  | transfer => exact ⟨rfl, _, _, _, rfl⟩

/-! What each call does to the account. -/

theorem nextCost_of_ok {cost : Nat} (h : execute p = ⟨.ok cost, q, es⟩) (failed : Nat) :
    p.nextCost failed = cost := by
  unfold nextCost
  rw [h]

theorem nextCost_of_error (h : execute p = ⟨.error e, q, es⟩) (failed : Nat) :
    p.nextCost failed = failed := by
  unfold nextCost
  rw [h]

theorem mod_add_wrapped (size n : Nat) : n % size + wrapped size n = n := Nat.mod_add_div n size

theorem wrapped_of_lt {size n : Nat} (h : n < size) : wrapped size n = 0 := by
  unfold wrapped
  rw [Nat.div_eq_of_lt h, Nat.mul_zero]

omit [Memory M ε] in
theorem accounted_withClock (p : Processor M) (cycles : UInt64) (pending stall : UInt32) :
    (p.withClock cycles pending stall).accounted =
      cycles.toNat + (pending.toNat + stall.toNat) := rfl

omit [Memory M ε] in
theorem accounted_entered (p : Processor M) :
    p.entered.accounted + wrapped UInt32.size (p.pending.toNat + 7) = p.accounted + 7 := by
  have hpending : p.entered.pending.toNat = (p.pending.toNat + 7) % UInt32.size :=
    UInt32.toNat_add p.pending 7
  have hmod := mod_add_wrapped UInt32.size (p.pending.toNat + 7)
  have hclock : p.entered.cycles = p.cycles ∧ p.entered.stall = p.stall := ⟨rfl, rfl⟩
  unfold accounted owed
  rw [hpending, hclock.1, hclock.2]
  omega

/-- What leaves the clock alone leaves the account alone. -/
theorem Composed.accounted_eq {α : Type} {x : Action (Fault ε) (Processor M) α}
    (h : Composed x) (p : Processor M) : (x p).state.accounted = p.accounted := by
  rw [← h.clock_eq p]
  rfl

/-- A cycle that fails has come to the boundary of an instruction. -/
theorem owed_of_cycle_error (h : cycle p = ⟨.error e, q, es⟩) :
    p.pending = 0 ∧ p.stall = 0 ∧ q.pending = 0 ∧ q.stall = 0 := by
  by_cases hs : 0 < p.stall
  · rw [cycle_of_stall p hs] at h
    cases h
  have hstall := eq_zero_of_not_pos hs
  by_cases hn : 0 < p.pending
  · rw [cycle_of_pending p hstall hn] at h
    cases h
  have hpending := eq_zero_of_not_pos hn
  rcases hx : execute p with ⟨e' | cost, r, es'⟩
  · rw [cycle_of_error hstall hpending hx] at h
    cases h
    exact ⟨hpending, hstall, rfl, rfl⟩
  · rw [cycle_of_ok hstall hpending hx] at h
    cases h

theorem accounted_step (p : Processor M) :
    (step p).state.accounted + Call.step.loss p + Call.step.wrapped p =
      p.accounted + Call.step.gain p := by
  simp only [Call.loss, Call.gain, Call.wrapped]
  rcases h : execute p with ⟨e | cost, q, es⟩
  · rw [nextCost_of_error h, step_of_error h, accounted_withClock]
    rfl
  · have hanswer := toNat_answer h
    have hmod := mod_add_wrapped UInt64.size
      (p.cycles.toNat + (p.pending + p.stall + .ofNat cost).toNat)
    rw [nextCost_of_ok h, step_of_ok h, accounted_withClock, UInt64.toNat_add,
      UInt32.toNat_toUInt64]
    simp only [accounted, Except.isOk, Except.toBool, if_true]
    change _ % UInt64.size + (0 + 0) + 0 + _ = _
    omega

theorem accounted_cycle (p : Processor M) :
    (cycle p).state.accounted + Call.cycle.wrapped p = p.accounted + Call.cycle.gain p := by
  have hmod := mod_add_wrapped UInt64.size (p.cycles.toNat + 1)
  have hpassed : (p.cycles + 1).toNat = (p.cycles.toNat + 1) % UInt64.size :=
    UInt64.toNat_add p.cycles 1
  simp only [Call.gain, Call.wrapped]
  unfold accounted
  -- while cycles are owed, one of them passes
  by_cases hs : 0 < p.stall
  · have howed := owed_pred_stall hs (p.cycles + 1)
    rw [cycle_of_stall p hs, if_pos (owed_pos_iff.mpr (.inl hs))]
    change (p.cycles + 1).toNat + (p.withClock _ _ _).owed + _ = _
    omega
  have hstall := eq_zero_of_not_pos hs
  by_cases hn : 0 < p.pending
  · have howed := owed_pred_pending hstall hn (p.cycles + 1)
    rw [cycle_of_pending p hstall hn, if_pos (owed_pos_iff.mpr (.inr hn))]
    change (p.cycles + 1).toNat + (p.withClock _ _ _).owed + _ = _
    omega
  -- at a boundary the instruction is paid for, its first cycle at once
  have hpending := eq_zero_of_not_pos hn
  have hzero : p.owed = 0 := owed_eq_zero_iff.mpr ⟨hpending, hstall⟩
  rw [if_neg (by omega)]
  rcases h : execute p with ⟨e | cost, q, es⟩
  · rw [cycle_of_error hstall hpending h, nextCost_of_error h]
    change (p.cycles + 1).toNat + (0 + 0) + _ = _
    omega
  · have hcost := two_le_of_execute h
    have hfirst : (UInt32.ofNat cost - 1).toNat = cost - 1 := toNat_pred_of_execute h
    rw [cycle_of_ok hstall hpending h, nextCost_of_ok h]
    change (p.cycles + 1).toNat + ((UInt32.ofNat cost - 1).toNat + 0) + _ = _
    omega

/-- An entry owes its seven cycles, and one that is refused owes nothing. -/
theorem accounted_entry (henter : enter vector p = ⟨.ok (), q, es⟩) :
    q.entered.accounted + wrapped UInt32.size (p.pending.toNat + 7) = p.accounted + 7 := by
  have hclock := (Composed.enter vector).clock_eq p
  rw [henter] at hclock
  have hpending : q.pending = p.pending := (congrArg Processor.pending hclock).symm
  have hkept := (Composed.enter vector).accounted_eq p
  rw [henter] at hkept
  have hentered := accounted_entered q
  rw [hpending] at hentered
  exact hentered.trans (congrArg (· + 7) hkept)

theorem accounted_refusal (henter : enter vector p = ⟨.error e, q, es⟩) :
    q.accounted = p.accounted := by
  have hkept := (Composed.enter vector).accounted_eq p
  rwa [henter] at hkept

theorem wrapped_pending (p : Processor M) : wrapped UInt32.size (p.pending.toNat + 0) = 0 :=
  wrapped_of_lt p.pending.toNat_lt_size

theorem accounted_nmi (p : Processor M) :
    (nmi p).state.accounted + Call.nmi.wrapped p = p.accounted + Call.nmi.gain p := by
  simp only [Call.wrapped, Call.gain]
  rcases h : enter nmiVector p with ⟨e | _, q, es⟩
  · rw [nmi_of_refused h]
    change q.accounted + wrapped UInt32.size (p.pending.toNat + 0) = _
    rw [wrapped_pending, accounted_refusal h]
    rfl
  · obtain ⟨es', hnmi⟩ := nmi_of_entered h
    rw [hnmi]
    exact accounted_entry h

theorem accounted_irq (p : Processor M) :
    (irq p).state.accounted + Call.irq.wrapped p = p.accounted + Call.irq.gain p := by
  simp only [Call.wrapped, Call.gain]
  cases hon : p.registers.flag Flag.interruptDisable with
  | true =>
    rw [irq_of_disabled hon]
    change p.accounted + wrapped UInt32.size (p.pending.toNat + 0) = _
    rw [wrapped_pending]
    rfl
  | false =>
    rcases h : enter irqVector p with ⟨e | _, q, es⟩
    · rw [irq_of_refused hon h]
      change q.accounted + wrapped UInt32.size (p.pending.toNat + 0) = _
      rw [wrapped_pending, accounted_refusal h]
      rfl
    · obtain ⟨es', hirq⟩ := irq_of_entered hon h
      rw [hirq]
      exact accounted_entry h

theorem accounted_transfer (p : Processor M) :
    p.transfer.accounted + Call.transfer.wrapped p = p.accounted + Call.transfer.gain p := by
  have hmod := mod_add_wrapped UInt32.size
    (p.stall.toNat + if p.cycles.toNat % 2 = 0 then 513 else 514)
  have hstall := toNat_transfer p
  have hclock : p.transfer.cycles = p.cycles ∧ p.transfer.pending = p.pending := ⟨rfl, rfl⟩
  simp only [Call.wrapped, Call.gain, accounted, owed, hclock.1, hclock.2]
  omega

theorem accounted_run (call : Call) (p : Processor M) :
    (call.run p).state.accounted + call.loss p + call.wrapped p = p.accounted + call.gain p := by
  cases call with
  | step =>
    rw [run_step]
    exact accounted_step p
  | cycle => exact accounted_cycle p
  | nmi => exact accounted_nmi p
  | irq => exact accounted_irq p
  | transfer => exact accounted_transfer p

/-- Along a whole run the account is the sum of what its calls add and take. -/
theorem accounted_after (calls : List Call) (p : Processor M) :
    (p.after calls).accounted + p.losses calls + p.wraps calls =
      p.accounted + p.gains calls := by
  induction calls generalizing p with
  | nil => rfl
  | cons call calls ih =>
    have hcall := accounted_run call p
    have hrest := ih (call.run p).state
    simp only [after, losses, gains, wraps]
    omega

/-- Only a step can lose what is owed when it fails. -/
theorem owed_of_error {call : Call} (hne : call ≠ .step)
    (h : call.run p = ⟨.error e, q, es⟩) : q.pending = p.pending ∧ q.stall = p.stall := by
  -- an entry that is refused has not moved the clock
  have hrefused : ∀ vector, enter vector p = ⟨.error e, q, es⟩ →
      q.pending = p.pending ∧ q.stall = p.stall := by
    intro vector henter
    have hclock := (Composed.enter vector).clock_eq p
    rw [henter] at hclock
    exact ⟨(congrArg pending hclock).symm, (congrArg stall hclock).symm⟩
  cases call with
  | step => exact absurd rfl hne
  | cycle =>
    obtain ⟨hpending, hstall, hpending', hstall'⟩ := owed_of_cycle_error h
    exact ⟨hpending'.trans hpending.symm, hstall'.trans hstall.symm⟩
  | nmi =>
    have hnmi : nmi p = ⟨.error e, q, es⟩ := h
    rcases henter : enter nmiVector p with ⟨e' | _, r, es'⟩
    · rw [nmi_of_refused henter] at hnmi
      cases hnmi
      exact hrefused _ henter
    · obtain ⟨es₂, hentered⟩ := nmi_of_entered henter
      rw [hentered] at hnmi
      cases hnmi
  | irq =>
    have hirq : irq p = ⟨.error e, q, es⟩ := h
    cases hon : p.registers.flag Flag.interruptDisable with
    | true =>
      rw [irq_of_disabled hon] at hirq
      cases hirq
    | false =>
      rcases henter : enter irqVector p with ⟨e' | _, r, es'⟩
      · rw [irq_of_refused hon henter] at hirq
        cases hirq
        exact hrefused _ henter
      · obtain ⟨es₂, hentered⟩ := irq_of_entered hon henter
        rw [hentered] at hirq
        cases hirq
  | transfer => cases h

theorem step_answer {n : UInt32} (h : step p = ⟨.ok n, q, es⟩) :
    n.toNat + p.uncounted = p.owed + Call.step.gain p := by
  simp only [Call.gain]
  rcases hx : execute p with ⟨e | cost, r, es'⟩
  · rw [step_of_error hx] at h
    cases h
  · rw [step_of_ok hx] at h
    cases h
    rw [nextCost_of_ok hx]
    exact toNat_answer hx

theorem gain_le (call : Call) (p : Processor M) : call.gain p ≤ 514 := by
  -- a transfer adds the most, and an instruction is far below it
  have hcost : ∀ failed ≤ 1, p.nextCost failed ≤ 514 := by
    intro failed hfailed
    rcases h : execute p with ⟨e | cost, q, es⟩
    · rw [nextCost_of_error h]
      omega
    · have hle := (answers_execute p cost (by rw [h])).2
      rw [nextCost_of_ok h]
      omega
  cases call with
  | step => exact hcost 0 (by decide)
  | cycle =>
    have hone := hcost 1 (by decide)
    simp only [Call.gain]
    split <;> omega
  | nmi =>
    simp only [Call.gain]
    split <;> omega
  | irq =>
    simp only [Call.gain]
    split
    · omega
    · split <;> omega
  | transfer =>
    simp only [Call.gain]
    split <;> omega

/-- No counter wraps around unless it is almost full. -/
theorem wrapped_of_small (call : Call) (howed : p.owed + 514 < UInt32.size)
    (hall : p.accounted + 514 < UInt64.size) : call.wrapped p = 0 := by
  have hgain := gain_le call p
  have hparts : p.owed = p.pending.toNat + p.stall.toNat := rfl
  have htotal : p.accounted = p.cycles.toNat + p.owed := rfl
  cases call with
  | step =>
    simp only [Call.wrapped]
    rcases h : step p with ⟨e | n, q, es⟩
    · rfl
    · have hanswer := step_answer h
      have hcounted : p.uncounted = 0 := uncounted_of_lt (by omega)
      dsimp only
      rw [hcounted, Nat.zero_add]
      exact wrapped_of_lt (by omega)
  | cycle => exact wrapped_of_lt (by omega)
  | nmi => exact wrapped_of_lt (n := p.pending.toNat + Call.nmi.gain p) (by omega)
  | irq => exact wrapped_of_lt (n := p.pending.toNat + Call.irq.gain p) (by omega)
  | transfer => exact wrapped_of_lt (n := p.stall.toNat + Call.transfer.gain p) (by omega)

/-- A step that fails has dropped what was owed, so that its cycles never pass. -/
theorem accounted_lt_iff {call : Call} (hwrapped : call.wrapped p = 0) :
    (call.run p).state.accounted < p.accounted ↔
      call = .step ∧ (∃ e, (step p).answer = .error e) ∧ 0 < p.owed := by
  have hcall := accounted_run call p
  constructor
  · intro hlt
    cases call with
    | step =>
      simp only [Call.loss] at hcall
      rcases h : step p with ⟨e | n, q, es⟩
      · rw [h] at hcall
        simp only [Except.isOk, Except.toBool, Bool.false_eq_true, if_false] at hcall
        exact ⟨rfl, ⟨e, rfl⟩, by omega⟩
      · rw [h] at hcall
        simp only [Except.isOk, Except.toBool, if_true] at hcall
        omega
    | cycle | nmi | irq | transfer =>
      simp only [Call.loss] at hcall
      omega
  · rintro ⟨rfl, ⟨e, he⟩, howed⟩
    rcases h : execute p with ⟨e' | cost, q, es⟩
    · simp only [Call.loss, Call.gain, he, nextCost_of_error h, Except.isOk, Except.toBool,
        Bool.false_eq_true, if_false] at hcall
      omega
    · rw [step_of_ok h] at he
      cases he

/-- Every call adds its cost to the account: an instruction its own, an entry into an interrupt
seven cycles, and a transfer its stall. What is owed outlasts every call that fails, except a step:
there it is lost, and this is the only way in which the account can shrink as long as no counter
wraps around, which takes one that is almost full. -/
theorem account_of_calls (p : Processor M) :
    (∀ call : Call, (call.run p).state.accounted + call.loss p + call.wrapped p =
      p.accounted + call.gain p) ∧
    (∀ call : Call, p.owed + 514 < UInt32.size → p.accounted + 514 < UInt64.size →
      call.wrapped p = 0) ∧
    (∀ n q es, step p = ⟨.ok n, q, es⟩ → n.toNat + p.uncounted = p.owed + Call.step.gain p) ∧
    (∀ (call : Call) e q es, call ≠ .step → call.run p = ⟨.error e, q, es⟩ →
      q.pending = p.pending ∧ q.stall = p.stall) ∧
    (∀ call : Call, call.wrapped p = 0 → ((call.run p).state.accounted < p.accounted ↔
      call = .step ∧ (∃ e, (step p).answer = .error e) ∧ 0 < p.owed)) ∧
    ∀ calls : List Call, (p.after calls).accounted + p.losses calls + p.wraps calls =
      p.accounted + p.gains calls :=
  ⟨fun call => accounted_run call p, fun call => wrapped_of_small call,
    fun _ _ _ h => step_answer h, fun _ _ _ _ hne h => owed_of_error hne h,
    fun _ h => accounted_lt_iff h, fun calls => accounted_after calls p⟩

/-- A processor before a jam, with an entry and a transfer to pay. -/
def TwoNops.stalled : Processor TwoNops := { TwoNops.behind with pending := 7, stall := 513 }

/-- The step into the jam loses the cycles of the entry and of the transfer. -/
theorem account_of_stalled :
    (7 + 0 = TwoNops.before.owed + Call.step.gain TwoNops.before) ∧
    (∃ q es, Call.cycle.run TwoNops.behind = ⟨.error (.jammed 0x02 2), q, es⟩ ∧
      q.pending = 0 ∧ q.stall = 0) ∧
    (Call.step.run TwoNops.stalled).state.accounted < TwoNops.stalled.accounted ∧
    (TwoNops.stalled.after [.step]).accounted + 520 = TwoNops.stalled.accounted := by
  have hstep : (step TwoNops.stalled).answer = .error (.jammed 0x02 2) := rfl
  have hwrapped := (account_of_calls TwoNops.stalled).2.1 .step (by decide) (by decide)
  exact ⟨(account_of_calls TwoNops.before).2.2.1 7 _ _ rfl,
    ⟨_, _, rfl, (account_of_calls TwoNops.behind).2.2.2.1 .cycle _ _ _ (by decide) rfl⟩,
    ((account_of_calls TwoNops.stalled).2.2.2.2.1 .step hwrapped).mpr
      ⟨rfl, ⟨_, hstep⟩, by decide⟩,
    (account_of_calls TwoNops.stalled).2.2.2.2.2 [.step]⟩

end Famicom.Processor
