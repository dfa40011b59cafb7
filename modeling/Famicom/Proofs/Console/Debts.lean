import Famicom.Proofs.Console.Transfer
import Famicom.Proofs.Picture.Interrupt
import Famicom.Proofs.Processor.Account
import Famicom.Proofs.Processor.Cost

/-! What the processor owes: the rest of an instruction, the stall for one transfer, and the entries
into two interrupts. One of these is raised by the write of the instruction, the other by the dot of
the vertical blank, and before that dot comes again all is paid. -/

namespace Famicom

open Famicom.Action

namespace Processor

theorem nmi_debts {M ε : Type} [Memory M ε] {p q : Processor M} {es : List Event}
    (h : nmi p = ⟨.ok (), q, es⟩) : q.pending = p.pending + 7 ∧ q.stall = p.stall := by
  rcases henter : enter nmiVector p with ⟨e | _, r, es'⟩
  · rw [nmi_of_refused henter] at h
    cases h
  · have hclock := (Composed.enter nmiVector).clock_eq p
    rw [henter] at hclock
    obtain ⟨es'', hnmi⟩ := nmi_of_entered henter
    rw [hnmi] at h
    cases h
    -- the accesses of an entry leave the clock alone
    exact ⟨congrArg (·.pending + 7) hclock.symm, (congrArg stall hclock).symm⟩

variable {p q : Processor Bus} {es : List Event}

/-- The processor's part of a clock pays one cycle of what is owed. -/
theorem clockProcessor_of_owed (h : p.memory.dmaPending = false) (ho : 0 < p.owed) :
    ∃ pending stall es, Console.clockProcessor p =
        ⟨.ok (), p.withClock (p.cycles + 1) pending stall, es⟩ ∧
      pending.toNat ≤ p.pending.toNat ∧ stall.toNat ≤ p.stall.toNat ∧
      pending.toNat + stall.toNat + 1 = p.owed := by
  by_cases hs : 0 < p.stall
  · obtain ⟨es, hclock⟩ := clockProcessor_of_stall h hs
    have hless := toNat_pred hs
    have hpos : 0 < p.stall.toNat := UInt32.lt_iff_toNat_lt.mp hs
    unfold owed
    exact ⟨_, _, es, hclock, le_refl _, by omega, by omega⟩
  · have hstall : p.stall = 0 := eq_zero_of_not_pos hs
    have hn : 0 < p.pending := (owed_pos_iff.mp ho).resolve_left hs
    obtain ⟨es, hclock⟩ := clockProcessor_of_withClock h (cycle_of_pending p hstall hn)
    have hless := toNat_pred hn
    have hpos : 0 < p.pending.toNat := UInt32.lt_iff_toNat_lt.mp hn
    unfold owed
    rw [hstall]
    exact ⟨_, _, es, hclock, by omega, le_refl _, by change _ + 0 + 1 = _ + 0; omega⟩

/-- If nothing is owed it executes an instruction, which may ask for one transfer. -/
theorem debts_of_settled (h : p.memory.dmaPending = false) (ho : p.owed = 0)
    (hc : Console.clockProcessor p = ⟨.ok (), q, es⟩) :
    q.pending.toNat ≤ 7 ∧ q.stall.toNat ≤ 514 := by
  obtain ⟨hn, hs⟩ := owed_eq_zero_iff.mp ho
  obtain ⟨-, -, hle, hstall⟩ := clockProcessor_of_ok h hc
  refine ⟨?_, ?_⟩
  · unfold Console.clockProcessor at hc
    rcases hx : execute p with ⟨e | cost, r, es'⟩
    · rw [cycle_of_error hs hn hx] at hc
      cases hc
    · have hcost := cost_le_of_execute hx
      rw [cycle_of_ok hs hn hx] at hc
      dsimp only at hc
      rw [serveDma_eq] at hc
      cases hc
      change (UInt32.ofNat cost - 1).toNat ≤ 7
      rw [toNat_pred_of_execute hx]
      omega
  · have hlong : (if q.cycles.toNat % 2 = 0 then 513 else 514) ≤ 514 := by split <;> decide
    rw [hstall, hs]
    calc 0 - 1 + transfers p.accesses * (if q.cycles.toNat % 2 = 0 then 513 else 514)
      _ ≤ 0 - 1 + 1 * 514 := by gcongr
      _ = 514 := rfl

theorem debts_of_error {e : Fault Bus.Fault}
    (hc : Console.clockProcessor p = ⟨.error e, q, es⟩) :
    p.owed = 0 ∧ q.pending = 0 ∧ q.stall = 0 := by
  unfold Console.clockProcessor at hc
  rcases hp : cycle p with ⟨e' | _, r, es'⟩
  · rw [hp] at hc
    cases hc
    obtain ⟨hpending, hstall, hpaid⟩ := owed_of_cycle_error hp
    exact ⟨owed_eq_zero_iff.mpr ⟨hpending, hstall⟩, hpaid⟩
  · rw [hp] at hc
    dsimp only at hc
    rw [serveDma_eq] at hc
    cases hc

end Processor

namespace Console

variable {x : Picture.Position} {n m k w rest : Nat} {c d : Console} {es : List Event}

/-- The dot of the blank that raises the interrupt, behind which 7144 dots are left of the frame,
has passed, and all that is owed is paid before the frame ends. -/
def Passed (rest : Nat) (c : Console) : Prop :=
  c.picture.position.left < 7145 ∧ 3 * c.processor.owed + rest < c.picture.position.left

/-- With `rest` dots of a clock to come, and after it has waited for `w` cycles, the processor owes
no more than an instruction, a transfer and `n` entries into the interrupt. -/
structure Owes (n w rest : Nat) (c : Console) : Prop where
  entries_le : n ≤ 2
  stall_le : c.processor.stall.toNat ≤ 514
  pending_le : c.processor.pending.toNat ≤ 7 + 7 * n
  owed_le : w + c.processor.owed ≤ 521 + 7 * n
  /-- The second entry is due to the dot of the blank, and there is no third one. -/
  passed : n = 2 → c.Passed rest
  polled : 0 < n → c.picture.nmiPending = false

theorem Owes.bounds (h : Owes n w rest c) :
    c.processor.pending ≤ 21 ∧ c.processor.stall ≤ 514 ∧ w + c.processor.owed ≤ 535 := by
  obtain ⟨hn, hstall, hpending, howed, -, -⟩ := h
  have hpending' : c.processor.pending.toNat ≤ 21 := by omega
  exact ⟨UInt32.le_iff_toNat_le.mpr hpending', UInt32.le_iff_toNat_le.mpr hstall, by omega⟩

/-- How long the processor has waited may be left out of the account. -/
theorem Owes.restart (h : Owes n w rest c) : Owes n 0 rest c :=
  { h with owed_le := by have howed := h.owed_le; omega }

theorem owes_of_instruction (hpending : c.processor.pending.toNat ≤ 7)
    (hstall : c.processor.stall.toNat ≤ 514) (rest : Nat) : Owes 0 0 rest c where
  entries_le := by decide
  stall_le := hstall
  pending_le := hpending
  owed_le := by
    unfold Processor.owed
    omega
  passed h := by cases h
  polled h := absurd h (lt_irrefl 0)

theorem owes_of_nothing (hpending : c.processor.pending = 0) (hstall : c.processor.stall = 0)
    (rest : Nat) : Owes 0 0 rest c :=
  owes_of_instruction (by rw [hpending]; decide) (by rw [hstall]; decide) rest

theorem Owes.congr (h : Owes n w rest c) (hstall : d.processor.stall = c.processor.stall)
    (hpending : d.processor.pending = c.processor.pending)
    (hraised : d.picture.nmiPending = c.picture.nmiPending)
    (hleft : d.picture.position.left = c.picture.position.left) : Owes n w rest d := by
  have howed : d.processor.owed = c.processor.owed := by
    unfold Processor.owed
    rw [hstall, hpending]
  refine ⟨h.entries_le, hstall ▸ h.stall_le, hpending ▸ h.pending_le, howed ▸ h.owed_le, ?_,
    hraised ▸ h.polled⟩
  unfold Passed
  rw [hleft, howed]
  exact h.passed

/-! One clock. -/

/-- The processor's part of a clock, and the first `k` dots behind it. -/
def clockTo : Nat → Action Fault Console Unit
  | 0 => onProcessor clockProcessor
  | k + 1 => do
    clockTo k
    clockPicture

theorem clockTo_three : clockTo 3 = clock := by
  unfold clock
  simp only [clockTo, bind_assoc]

/-- A dot adds the entry into an interrupt if one is pending, or if it is the dot of the blank. -/
theorem debts_of_clockPicture (h : c.Stands x n) (hclock : clockPicture c = ⟨.ok (), d, es⟩) :
    d.Stands x.next n ∧ d.picture.nmiPending = false ∧
      d.processor.stall = c.processor.stall ∧
      (d.processor.pending = c.processor.pending ∨
        d.processor.pending = c.processor.pending + 7 ∧
          (c.picture.nmiPending = true ∨ x.left = 7145)) := by
  obtain ⟨d', es', hserved, hd, hpolled, hpaused⟩ := clockPicture_serves h
  rw [hserved] at hclock
  cases hclock
  refine ⟨hd, hpolled, hpaused.stall_eq, ?_⟩
  obtain ⟨p, u, es₁, es₂, htick, hsteady, hclock, hu⟩ := clockPicture_eq h
  rw [hserved] at hclock
  cases hclock
  rcases hu with ⟨-, rfl⟩ | ⟨hraised, es₃, hentered⟩
  · exact Or.inl rfl
  obtain ⟨q, es₄, hnmi, -⟩ := Processor.nmi_of_stands hsteady.processor
  rw [onProcessor_of_ok hnmi] at hentered
  cases hentered
  refine Or.inr ⟨(Processor.nmi_debts hnmi).1, ?_⟩
  -- a request that was not there before the dot is raised by it, and only one dot does so
  cases hbefore : c.picture.nmiPending with
  | true => exact Or.inl rfl
  | false =>
    obtain ⟨hline, hdot⟩ := Picture.place_of_raised hbefore (by rw [htick]; exact hraised)
    right
    rw [← h.steady.position_eq]
    change 341 * 262 - (341 * c.picture.scanline + c.picture.dot) = 7145
    rw [hline, hdot]
    rfl

/-- A dot adds no third entry to what is owed. -/
theorem owes_of_clockPicture (ho : Owes m w (rest + 1) c) (hrest : rest < 3) (h : c.Stands x n)
    (hclock : clockPicture c = ⟨.ok (), d, es⟩) : ∃ m', Owes m' w rest d := by
  obtain ⟨hd, hpolled, hstall, hpending⟩ := debts_of_clockPicture h hclock
  obtain ⟨hm, hstall_le, hpending_le, howed_le, hpassed, hidle⟩ := ho
  have hnext : 1 < x.left → x.next.left + 1 = x.left := fun hleft =>
    (Picture.Position.next_of_left h.steady.bounded hleft).1
  unfold Passed at hpassed
  rw [h.steady.position_eq] at hpassed
  unfold Processor.owed at howed_le hpassed
  rw [← hstall] at hstall_le howed_le hpassed
  rcases hpending with hsame | ⟨hmore, hcause⟩
  · rw [← hsame] at hpending_le howed_le hpassed
    refine ⟨m, hm, hstall_le, hpending_le, howed_le, ?_, fun _ => hpolled⟩
    intro htwo
    obtain ⟨hlate, hpaid⟩ := hpassed htwo
    have hleft := hnext (by omega)
    unfold Passed Processor.owed
    rw [hd.steady.position_eq]
    omega
  -- after one entry nothing is left pending, and after two the dot of the blank has passed
  · have hfew : m ≤ 1 := by
      by_contra hmany
      rcases hcause with hraised | hblank
      · rw [hidle (by omega)] at hraised
        cases hraised
      · have hlate := (hpassed (by omega)).1
        omega
    have hsum : d.processor.pending.toNat = c.processor.pending.toNat + 7 := by
      rw [hmore, UInt32.toNat_add]
      exact Nat.mod_eq_of_lt (lt_of_le_of_lt (Nat.add_le_add_right hpending_le 7)
        (lt_of_le_of_lt (b := 21) (by change 7 + 7 * m + 7 ≤ 21; omega) (by decide)))
    refine ⟨m + 1, by omega, hstall_le, by omega, ?_, ?_, fun _ => hpolled⟩
    · unfold Processor.owed
      omega
    intro htwo
    have hblank : x.left = 7145 := by
      refine hcause.resolve_left ?_
      rw [hidle (by omega)]
      exact Bool.false_ne_true
    have hleft := hnext (by omega)
    unfold Passed Processor.owed
    rw [hd.steady.position_eq]
    omega

theorem clockTo_of_error {e : Processor.Fault Bus.Fault} {p : Processor Bus}
    (hp : clockProcessor c.processor = ⟨.error e, p, es⟩) (k : Nat) :
    clockTo k c = ⟨.error (.processor e), { c with processor := p }, es⟩ := by
  induction k with
  | zero => exact onProcessor_of_error hp
  | succ k ih => exact bind_of_error ih

/-- The processor's part of a clock pays for a cycle, or it starts the account anew. -/
theorem owes_of_clockProcessor (ho : Owes m w 0 c) (h : c.Settled) {p : Processor Bus}
    (hp : clockProcessor c.processor = ⟨.ok (), p, es⟩) :
    ∃ m', Owes m' (if 0 < c.processor.owed then w + 1 else 0) 3 { c with processor := p } := by
  by_cases howed : 0 < c.processor.owed
  · obtain ⟨pending, stall, es', hpaid, hpending, hstall, hless⟩ :=
      Processor.clockProcessor_of_owed h.dmaPending_eq howed
    rw [hpaid] at hp
    cases hp
    obtain ⟨hm, hstall_le, hpending_le, howed_le, hpassed, hidle⟩ := ho
    rw [if_pos howed]
    refine ⟨m, hm, hstall.trans hstall_le, hpending.trans hpending_le, ?_, ?_, hidle⟩
    · change w + 1 + (pending.toNat + stall.toNat) ≤ _
      omega
    intro htwo
    obtain ⟨hlate, hbefore⟩ := hpassed htwo
    refine ⟨hlate, ?_⟩
    -- the three dots of the clock are those of the cycle that has been paid
    change 3 * (pending.toNat + stall.toNat) + 3 < c.picture.position.left
    omega
  · obtain ⟨hpending, hstall⟩ :=
      Processor.debts_of_settled h.dmaPending_eq (Nat.eq_zero_of_not_pos howed) hp
    rw [if_neg howed]
    exact ⟨0, owes_of_instruction hpending hstall 3⟩

theorem owes_clockTo_of_ok (ho : Owes m w 0 c) (h : c.Settled) (hpowered : c.powered = true)
    {p : Processor Bus} (hp : clockProcessor c.processor = ⟨.ok (), p, es⟩) (hk : k ≤ 3) :
    ∃ d es' x m', clockTo k c = ⟨.ok (), d, es'⟩ ∧ d.Stands x (c.processor.cycles.toNat + 1) ∧
      Owes m' (if 0 < c.processor.owed then w + 1 else 0) (3 - k) d := by
  induction k with
  | zero =>
    have hprocessor := (Processor.clockProcessor_of_stands (h.stands hpowered).processor).1
    rw [hp] at hprocessor
    obtain ⟨m', howes⟩ := owes_of_clockProcessor ho h hp
    exact ⟨_, _, _, m', onProcessor_of_ok hp, ⟨hpowered, hprocessor⟩, howes⟩
  | succ k ih =>
    obtain ⟨d, es', x, m', hclock, hd, howes⟩ := ih (by omega)
    obtain ⟨u, es'', hdot, hu, -⟩ := clockPicture_serves hd
    rw [show 3 - k = 3 - (k + 1) + 1 by omega] at howes
    obtain ⟨m'', howes'⟩ := owes_of_clockPicture howes (by omega) hd hdot
    unfold clockTo
    rw [bind_of_ok hclock, hdot]
    exact ⟨u, _, x.next, m'', rfl, hu, howes'⟩

/-- At every stage of a clock, whether it fails or not. -/
theorem owes_clockTo (ho : Owes m w 0 c) (h : c.Settled) (hpowered : c.powered = true)
    (hk : k ≤ 3) : ∃ m', Owes m' (if 0 < c.processor.owed then w + 1 else 0) (3 - k)
      (clockTo k c).state := by
  rcases hp : clockProcessor c.processor with ⟨e | _, p, es⟩
  · obtain ⟨hnone, hpending, hstall⟩ := Processor.debts_of_error hp
    rw [clockTo_of_error hp, if_neg (by omega)]
    exact ⟨0, owes_of_nothing hpending hstall _⟩
  · obtain ⟨d, es', x, m', hclock, -, howes⟩ := owes_clockTo_of_ok ho h hpowered hp hk
    rw [hclock]
    exact ⟨m', howes⟩

theorem owes_clock (ho : Owes m w 0 c) (h : c.Settled) (hpowered : c.powered = true) :
    ∃ m', Owes m' (if 0 < c.processor.owed then w + 1 else 0) 0 (clock c).state := by
  rw [← clockTo_three]
  exact owes_clockTo ho h hpowered (le_refl 3)

/-! Whole runs. -/

theorem owes_takeFrame (ho : Owes m w 0 c) : Owes m w 0 (takeFrame c).state := by
  unfold takeFrame
  rw [bind_of_ok (onBus_onPicture_of_ok rfl)]
  exact ho.congr rfl rfl rfl rfl

theorem owes_of_isPassive (ho : Owes m w 0 c) {r : Request} (h : r.isPassive) :
    Owes m w 0 (r.serve c).2.state :=
  serve_passive (J := Owes m w 0) ho (fun _ _ _ => ho.congr rfl rfl rfl rfl)
    (ho.congr rfl rfl rfl rfl) (fun _ _ => ho.congr rfl rfl rfl rfl) h

theorem After.owes (h : After c k d) (hc : c.Settled) (ho : Owes m 0 0 c) :
    ∃ m', Owes m' 0 0 d := by
  -- only clocks change what is owed, and how long each of them has waited is forgotten
  induction h with
  | here => exact ⟨m, ho⟩
  | @clock k d hd hp ih =>
    obtain ⟨m', howes⟩ := ih
    obtain ⟨m'', hnext⟩ := owes_clock howes (hd.settled hc) hp
    exact ⟨m'', hnext.restart⟩
  | take _ _ ih =>
    obtain ⟨m', howes⟩ := ih
    exact ⟨m', owes_takeFrame howes⟩
  | serve r _ hr ih =>
    obtain ⟨m', howes⟩ := ih
    exact ⟨m', owes_of_isPassive howes hr⟩

theorem requestKeeps_owes :
    RequestKeeps fun c => c.bus.dmaPending = false ∧ ∃ m, Owes m 0 0 c where
  passive r hr h := by
    obtain ⟨hpending, m, howes⟩ := h
    exact ⟨requestKeeps_dmaPending.passive r hr hpending, m, owes_of_isPassive howes hr⟩
  powerUp {c k} hsound h := by
    refine ⟨requestKeeps_dmaPending.powerUp hsound h.1, ?_⟩
    by_cases hc : c.cartridge.isSome
    · obtain ⟨pc, es, hpower⟩ := powerUp_eq hsound hc
      rw [hpower]
      exact ⟨0, owes_of_nothing rfl rfl 0⟩
    · rw [powerUp_of_empty (Option.not_isSome_iff_eq_none.mp hc)]
      exact h.2
  runFrame {c k} hsound h := by
    obtain ⟨hpending, m, howes⟩ := h
    refine ⟨requestKeeps_dmaPending.runFrame hsound hpending, ?_⟩
    by_cases hp : c.powered = true
    · have hc := settled_of_stands (hsound.stands hp) hpending
      obtain ⟨l, hafter⟩ := After.here.runFrame hc.1 hp hsound.frameReady_eq
      exact hafter.owes hc.1 howes
    · unfold Console.runFrame
      rw [if_neg hp]
      exact ⟨m, howes⟩

theorem owes_of_between (h : Between c) : c.Settled ∧ ∃ m, Owes m 0 0 c := by
  obtain ⟨c₀, frames, k₀, hreached, hafter⟩ := h
  have hsettled := settled_of_reached hreached
  obtain ⟨-, m, howes⟩ := requestKeeps_owes.reached
    ⟨rfl, 0, owes_of_nothing rfl rfl 0⟩ hreached
  exact ⟨hafter.settled hsettled, hafter.owes hsettled howes⟩

/-- The consoles that `k` clocks lead to, none of which starts an instruction, with frames taken and
requests served between them. -/
inductive Waited (c : Console) : Nat → Console → Prop
  | here : Waited c 0 c
  | clock {k : Nat} {d : Console} : Waited c k d → d.powered = true → ¬d.processor.Starts →
      Waited c (k + 1) (clock d).state
  | take {k : Nat} {d : Console} :
      Waited c k d → d.powered = true → Waited c k (takeFrame d).state
  | serve {k : Nat} {d : Console} (r : Request) :
      Waited c k d → r.isPassive → Waited c k (r.serve d).2.state

theorem owed_of_not_starts (h : ¬c.processor.Starts) : 0 < c.processor.owed := by
  rw [Processor.starts_iff, and_comm, ← Processor.owed_eq_zero_iff] at h
  exact Nat.pos_of_ne_zero h

theorem Waited.after (h : Waited c k d) : After c k d := by
  induction h with
  | here => exact .here
  | clock _ hp _ ih => exact ih.clock hp
  | take _ hp ih => exact ih.take hp
  | serve r _ hr ih => exact ih.serve r hr

theorem Waited.owes (h : Waited c k d) (hc : c.Settled) (ho : Owes m 0 0 c) :
    ∃ m', Owes m' k 0 d := by
  -- each clock starts no instruction, so that it is one more cycle of the same wait
  induction h with
  | here => exact ⟨m, ho⟩
  | @clock k d hd hp hstarts ih =>
    obtain ⟨m', howes⟩ := ih
    obtain ⟨m'', hnext⟩ := owes_clock howes (hd.after.settled hc) hp
    rw [if_pos (owed_of_not_starts hstarts)] at hnext
    exact ⟨m'', hnext⟩
  | take _ _ ih =>
    obtain ⟨m', howes⟩ := ih
    exact ⟨m', owes_takeFrame howes⟩
  | serve r _ hr ih =>
    obtain ⟨m', howes⟩ := ih
    exact ⟨m', owes_of_isPassive howes hr⟩

/-- A clock that starts no instruction makes no access, and it does not fail. -/
theorem clock_of_not_starts (h : c.Settled) (hp : c.powered = true) (hs : ¬c.processor.Starts) :
    c.processor.accesses = [] ∧ ∃ d es, clock c = ⟨.ok (), d, es⟩ := by
  have howed := owed_of_not_starts hs
  obtain ⟨pending, stall, es, hcycle, -⟩ :=
    Processor.clockProcessor_of_owed h.dmaPending_eq howed
  obtain ⟨d, es', hclock, -⟩ := clock_serves (h.stands hp) hcycle
  exact ⟨Processor.accesses_of_owed (Processor.owed_pos_iff.mp howed), d, es', hclock⟩

/-- A console that is on comes to the start of an instruction, or it waits for any number of
clocks. -/
theorem starts_or_waits (h : c.Settled) (hp : c.powered = true) (n : Nat) :
    (∃ k d, Waited c k d ∧ d.powered = true ∧ d.processor.Starts) ∨
      ∃ d, Waited c n d ∧ d.powered = true := by
  induction n with
  | zero => exact Or.inr ⟨c, .here, hp⟩
  | succ n ih =>
    rcases ih with hstarts | ⟨d, hd, hpowered⟩
    · exact Or.inl hstarts
    by_cases hs : d.processor.Starts
    · exact Or.inl ⟨n, d, hd, hpowered, hs⟩
    · have hkept := (keeps_clock d ⟨hd.after.settled h, hpowered⟩).1.2
      exact Or.inr ⟨_, hd.clock hpowered hs, hkept⟩

/-- Whatever has been asked of a console and whether or not clocks have failed, between two clocks
and at each stage of a clock the rest of an instruction and the entries that are owed are no more
than 21 cycles, and the stall is no more than 514. At most 535 clocks pass, even if interrupts are
raised in them, before one starts an instruction, and they do not fail. -/
theorem debts_are_bounded (h : Between c) :
    (c.processor.pending ≤ 21 ∧ c.processor.stall ≤ 514) ∧
    (c.powered = true → ∀ k ≤ 3, (clockTo k c).state.processor.pending ≤ 21 ∧
      (clockTo k c).state.processor.stall ≤ 514) ∧
    (∀ k d, Waited c k d → k + d.processor.owed ≤ 535 ∧
      (d.powered = true → ¬d.processor.Starts →
        d.processor.accesses = [] ∧ ∃ u es, clock d = ⟨.ok (), u, es⟩)) ∧
    (c.powered = true →
      ∃ k d, k ≤ 535 ∧ Waited c k d ∧ d.powered = true ∧ d.processor.Starts) := by
  obtain ⟨hc, m, howes⟩ := owes_of_between h
  have hwaited : ∀ k d, Waited c k d → k + d.processor.owed ≤ 535 := by
    intro k d hd
    obtain ⟨m', hlate⟩ := hd.owes hc howes
    exact hlate.bounds.2.2
  refine ⟨⟨howes.bounds.1, howes.bounds.2.1⟩, ?_, ?_, ?_⟩
  · intro hp k hk
    obtain ⟨m', hstage⟩ := owes_clockTo howes hc hp hk
    exact ⟨hstage.bounds.1, hstage.bounds.2.1⟩
  · exact fun k d hd => ⟨hwaited k d hd, clock_of_not_starts (hd.after.settled hc)⟩
  · intro hp
    rcases starts_or_waits hc hp 536 with ⟨k, d, hd, hpowered, hstarts⟩ | ⟨d, hd, -⟩
    · have hle := hwaited k d hd
      exact ⟨k, d, by omega, hd, hpowered, hstarts⟩
    -- one clock too many
    · have hle := hwaited 536 d hd
      omega

/-- A program that has just asked for a transfer goes on when the stall for it is used up. -/
theorem debts_are_bounded_of_transferring : ∃ c, Between c ∧ c.powered = true ∧
    c.processor.pending ≤ 21 ∧ c.processor.stall = 514 ∧
    ∃ k d, 514 ≤ k ∧ k ≤ 535 ∧ Waited c k d ∧ d.powered = true ∧ d.processor.Starts := by
  obtain ⟨c, d, es, hreached, hp, hcycles, hstall, hclock, hone⟩ := exists_clock_of_transfers
  have hc := settled_of_reached hreached
  have hserved := served_of_clock hc hp hclock
  have hlong : d.processor.stall.toNat = 514 := by
    rw [hserved.stall_eq, hone, hserved.cycles_eq, hstall, hcycles]
    rfl
  have hafter : After c 1 d := by
    have hnext := After.here.clock hp
    rwa [hclock] at hnext
  have hpowered : d.powered = true := by
    have hkept := (keeps_clock c ⟨hc, hp⟩).1.2
    rwa [hclock] at hkept
  have hbetween : Between d := ⟨c, [], 1, hreached, hafter⟩
  obtain ⟨⟨hpending, -⟩, -, -, hstarts⟩ := debts_are_bounded hbetween
  obtain ⟨k, u, hk, hu, hu', hstart⟩ := hstarts hpowered
  refine ⟨d, hbetween, hpowered, hpending, UInt32.toNat_inj.mp hlong, k, u, ?_, hk, hu, hu', hstart⟩
  by_contra hshort
  have hleft := (stalled_of_after hu.after (hafter.settled hc) (by omega)).1
  rw [(Processor.starts_iff.mp hstart).1] at hleft
  change 0 = _ at hleft
  omega

end Console

end Famicom
