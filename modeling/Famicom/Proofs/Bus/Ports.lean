import Famicom.Proofs.Bits
import Famicom.Proofs.Bus

/-! The ports of the controllers: what a read of a port answers is told by what has happened at the
ports since power on. -/

namespace Famicom.Bus

open Famicom.Action

/-- The address at which a player's controller is read. -/
def portAddress : Player → UInt16
  | .one => controllerOneAddress
  | .two => controllerTwoAddress

/-- What can happen at the ports. A port is known by the player whose controller is in it. -/
inductive PortEvent
  | press (player : Player) (button : Button)
  | release (player : Player) (button : Button)
  | write (port : Player) (v : UInt8)
  | read (port : Player)
deriving DecidableEq

namespace PortEvent

/-- The bus that an event leaves. -/
def apply : PortEvent → Bus → Bus
  | press player button, b =>
    (onController (ε := Bus.Fault) player (.update (·.press button)) b).state
  | release player button, b =>
    (onController (ε := Bus.Fault) player (.update (·.release button)) b).state
  | write port v, b => (Bus.write (portAddress port) v b).state
  | read port, b => (Bus.read (portAddress port) b).state

/-- The byte that an event writes to the port with the strobe line. -/
def strobe? : PortEvent → Option UInt8
  | write .one v => some v
  | _ => none

/-- Whether an event is one of the player's own or a write to the port with the strobe line. -/
def concerns (player : Player) : PortEvent → Bool
  | press p _ | release p _ | read p => p = player
  | write port _ => port = .one

end PortEvent

/-- The bus after the events of a past, the last event first. -/
def afterEvents : List PortEvent → Bus
  | [] => {}
  | e :: past => e.apply (afterEvents past)

/-- Whether the last byte written to the port with the strobe line had bit 0 set. -/
def strobed (past : List PortEvent) : Bool :=
  match past.findSome? (·.strobe?) with
  | some v => v &&& 1 != 0
  | none => false

/-- Whether the last thing that a player did with a button was to press it. -/
def held (player : Player) (button : Button) (past : List PortEvent) : Bool :=
  past.find? (fun e => e = .press player button ∨ e = .release player button) =
    some (.press player button)

/-- The reads of a port since the last write to the port with the strobe line. -/
def readsSince (port : Player) (past : List PortEvent) : Nat :=
  (past.takeWhile fun e => e.strobe?.isNone).count (.read port)

/-! One event. -/

/-- The controller of a player. -/
def controller (player : Player) (b : Bus) : Controller :=
  match player with
  | .one => b.one
  | .two => b.two

/-- What an event does to the controller of a player. -/
def PortEvent.reach (player : Player) : PortEvent → Controller → Controller
  | press p button, c => if p = player then c.press button else c
  | release p button, c => if p = player then c.release button else c
  | write .one v, c => (Controller.write (ε := Bus.Fault) v c).state
  | write .two _, c => c
  | read p, c => if p = player then (Controller.read (ε := Bus.Fault) c).state else c

variable {player : Player} {past : List PortEvent}

theorem read_port (player : Player) :
    read (portAddress player) = onController player Controller.read := by
  cases player <;> rfl

theorem answer_onController {ε α : Type} (x : Action ε Controller α) (b : Bus) :
    (onController player x b).answer = (x (b.controller player)).answer := by
  cases player <;> rfl

/-- A controller is reached only through its own port. -/
theorem controller_onController {ε α : Type} (p : Player) (x : Action ε Controller α) (b : Bus) :
    (onController p x b).state.controller player =
      if p = player then (x (b.controller player)).state else b.controller player := by
  cases p <;> cases player <;> rfl

theorem controller_apply (e : PortEvent) (b : Bus) :
    (e.apply b).controller player = e.reach player (b.controller player) := by
  cases e with
  | press p button => exact controller_onController p _ b
  | release p button => exact controller_onController p _ b
  | write port v => cases port <;> cases player <;> rfl
  | read p =>
    change (read (portAddress p) b).state.controller player = _
    rw [read_port]
    exact controller_onController p _ b

/-- What does not concern a player leaves the controller alone. -/
theorem reach_of_unconcerned {e : PortEvent} (h : e.concerns player = false) (c : Controller) :
    e.reach player c = c := by
  cases e with
  | press p button | release p button | read p => exact if_neg (of_decide_eq_false h)
  | write port v =>
    cases port with
    | one => cases h
    | two => rfl

theorem controller_filter (player : Player) (past : List PortEvent) :
    (afterEvents (past.filter (·.concerns player))).controller player =
      (afterEvents past).controller player := by
  induction past with
  | nil => rfl
  | cons e past ih =>
    have hlast : (afterEvents (e :: past)).controller player =
        e.reach player ((afterEvents past).controller player) := controller_apply e _
    cases hconcerns : e.concerns player with
    | true =>
      rw [List.filter_cons_of_pos hconcerns, hlast, ← ih]
      exact controller_apply e _
    | false =>
      rw [List.filter_cons_of_neg (by rw [hconcerns]; decide), hlast,
        reach_of_unconcerned hconcerns, ih]

/-! One event after a past. -/

theorem strobed_of_silent {e : PortEvent} (h : e.strobe? = none) :
    strobed (e :: past) = strobed past := by
  unfold strobed
  rw [List.findSome?_cons, h]

theorem readsSince_of_strobe {e : PortEvent} {v : UInt8} (h : e.strobe? = some v) :
    readsSince player (e :: past) = 0 := by
  unfold readsSince
  rw [List.takeWhile_cons_of_neg (by simp [h]), List.count_nil]

theorem readsSince_of_silent {e : PortEvent} (h : e.strobe? = none) :
    readsSince player (e :: past) =
      readsSince player past + if e = .read player then 1 else 0 := by
  unfold readsSince
  rw [List.takeWhile_cons_of_pos (by rw [h]; rfl), List.count_cons]
  simp only [beq_iff_eq]

theorem held_of_other {e : PortEvent} {button : Button} (hpress : e ≠ .press player button)
    (hrelease : e ≠ .release player button) :
    held player button (e :: past) = held player button past := by
  unfold held
  rw [List.find?_cons_of_neg (by simp [hpress, hrelease])]

theorem held_press : held player button (.press player button :: past) = true := by
  simp [held]

theorem held_release : held player button (.release player button :: past) = false := by
  simp [held]

/-! A controller tells of its past. -/

theorem holds_press (c : Controller) (pressed button : Button) :
    (c.press pressed).holds button = (decide (pressed = button) || c.holds button) := by
  unfold Controller.holds Controller.press
  by_cases h : pressed = button
  · subst h
    rw [Bits.or_and_self, decide_eq_true rfl, Bool.true_or]
    cases pressed <;> rfl
  · have hdisjoint : pressed.mask &&& button.mask = 0 := by
      cases pressed <;> cases button <;> first | rfl | exact absurd rfl h
    rw [Bits.or_and_of_disjoint _ hdisjoint, decide_eq_false h, Bool.false_or]

theorem holds_release (c : Controller) (released button : Button) :
    (c.release released).holds button = (!decide (released = button) && c.holds button) := by
  unfold Controller.holds Controller.release
  by_cases h : released = button
  · subst h
    rw [UInt8.and_assoc, UInt8.not_and_self, UInt8.and_zero, decide_eq_true rfl]
    rfl
  · have hdisjoint : released.mask &&& button.mask = 0 := by
      cases released <;> cases button <;> first | rfl | exact absurd rfl h
    rw [Bits.and_not_and_of_disjoint _ hdisjoint, decide_eq_false h, Bool.not_false,
      Bool.true_and]

/-- While the strobe line is low, the buttons come out in order. -/
theorem read_of_low {c : Controller} {k : Nat} (hlow : c.strobe = false)
    (hshifted : c.shifted = min 8 k) : Controller.read (ε := Bus.Fault) c =
      ⟨.ok (match Button.all[k]? with
        | some button => (c.holds button).toUInt8
        | none => 1), { c with shifted := min 8 (k + 1) }, []⟩ := by
  unfold Controller.read
  rw [if_neg (by rw [hlow]; decide), hshifted]
  by_cases hk : k < 8
  · have hbutton : Button.all[k]? = some Button.all[k] := List.getElem?_eq_getElem hk
    rw [Nat.min_eq_right hk.le, Nat.min_eq_right hk, hbutton]
  · have hnone : ∀ n, 8 ≤ n → Button.all[n]? = none :=
      fun n hn => List.getElem?_eq_none hn
    have hle : 8 ≤ k := Nat.not_lt.mp hk
    rw [Nat.min_eq_left hle, Nat.min_eq_left (Nat.le_succ_of_le hle), hnone 8 le_rfl, hnone k hle,
      ← Nat.min_eq_left hle, ← hshifted]

/-- What a controller knows of its past. -/
structure Tells (player : Player) (past : List PortEvent) (c : Controller) : Prop where
  strobe : c.strobe = strobed past
  shifted : c.shifted = if strobed past then 0 else min 8 (readsSince player past)
  holds (button : Button) : c.holds button = held player button past

variable {c : Controller}

/-- An event that is neither a write to the strobe line nor a read of the port, and that changes
the buttons as it should. -/
theorem Tells.change (h : Tells player past c) {e : PortEvent} {buttons : UInt8}
    (hsilent : e.strobe? = none) (hread : e ≠ .read player)
    (hholds : ∀ button, ({ c with buttons } : Controller).holds button =
      held player button (e :: past)) : Tells player (e :: past) { c with buttons } where
  strobe := by rw [strobed_of_silent hsilent, ← h.strobe]
  shifted := by
    rw [strobed_of_silent hsilent, readsSince_of_silent hsilent, if_neg hread, Nat.add_zero,
      ← h.shifted]
  holds := hholds

/-- What happens elsewhere is not told. -/
theorem Tells.elsewhere (h : Tells player past c) {e : PortEvent}
    (helse : e.concerns player = false) : Tells player (e :: past) c := by
  have hsilent : e.strobe? = none := by
    cases e with
    | write port v =>
      cases port with
      | one => cases helse
      | two => rfl
    | _ => rfl
  have hother : ∀ e' : PortEvent, e'.concerns player = true → e ≠ e' := by
    rintro e' he' rfl
    rw [helse] at he'
    cases he'
  apply h.change hsilent (hother _ (decide_eq_true rfl))
  intro button
  rw [held_of_other (hother _ (decide_eq_true rfl)) (hother _ (decide_eq_true rfl))]
  exact h.holds button

theorem Tells.press (h : Tells player past c) (pressed : Button) :
    Tells player (.press player pressed :: past) (c.press pressed) := by
  apply h.change rfl (by simp)
  intro button
  refine (holds_press c pressed button).trans ?_
  by_cases hsame : pressed = button
  · subst hsame
    rw [held_press, decide_eq_true rfl, Bool.true_or]
  · rw [held_of_other (by simp [hsame]) (by simp), decide_eq_false hsame, Bool.false_or,
      h.holds]

theorem Tells.release (h : Tells player past c) (released : Button) :
    Tells player (.release player released :: past) (c.release released) := by
  apply h.change rfl (by simp)
  intro button
  refine (holds_release c released button).trans ?_
  by_cases hsame : released = button
  · subst hsame
    rw [held_release, decide_eq_true rfl]
    rfl
  · rw [held_of_other (by simp) (by simp [hsame]), decide_eq_false hsame, Bool.not_false,
      Bool.true_and, h.holds]

theorem Tells.write (h : Tells player past c) (v : UInt8) :
    Tells player (.write .one v :: past) (Controller.write (ε := Bus.Fault) v c).state where
  strobe := rfl
  shifted := by
    rw [readsSince_of_strobe rfl, Nat.min_zero, ite_self]
    rfl
  holds button := by
    rw [held_of_other (by simp) (by simp)]
    exact h.holds button

theorem Tells.read (h : Tells player past c) :
    Tells player (.read player :: past) (Controller.read (ε := Bus.Fault) c).state := by
  have hholds : ∀ button, c.holds button = held player button (.read player :: past) := by
    intro button
    rw [held_of_other (by simp) (by simp), h.holds]
  have hstrobe : strobed (.read player :: past) = strobed past := strobed_of_silent rfl
  cases hlow : c.strobe with
  | true =>
    have hkept : (Controller.read (ε := Bus.Fault) c).state = c := by
      unfold Controller.read
      rw [if_pos hlow]
    rw [hkept]
    refine ⟨hstrobe ▸ h.strobe, ?_, hholds⟩
    rw [h.shifted, hstrobe, ← h.strobe, if_pos hlow, if_pos hlow]
  | false =>
    have hshifted := h.shifted
    rw [← h.strobe, hlow, if_neg (by decide)] at hshifted
    rw [read_of_low hlow hshifted]
    refine ⟨hstrobe ▸ h.strobe, ?_, hholds⟩
    rw [hstrobe, ← h.strobe, hlow, if_neg (by decide), readsSince_of_silent rfl, if_pos rfl]

theorem tells_cons (h : Tells player past c) (e : PortEvent) :
    Tells player (e :: past) (e.reach player c) := by
  cases hconcerns : e.concerns player with
  | false =>
    rw [reach_of_unconcerned hconcerns]
    exact h.elsewhere hconcerns
  | true =>
    cases e with
    | press p button =>
      obtain rfl : p = player := of_decide_eq_true hconcerns
      rw [PortEvent.reach, if_pos rfl]
      exact h.press button
    | release p button =>
      obtain rfl : p = player := of_decide_eq_true hconcerns
      rw [PortEvent.reach, if_pos rfl]
      exact h.release button
    | write port v =>
      obtain rfl : port = .one := of_decide_eq_true hconcerns
      exact h.write v
    | read p =>
      obtain rfl : p = player := of_decide_eq_true hconcerns
      rw [PortEvent.reach, if_pos rfl]
      exact h.read

theorem tells_after (player : Player) (past : List PortEvent) :
    Tells player past ((afterEvents past).controller player) := by
  induction past with
  | nil =>
    cases player <;> exact ⟨rfl, rfl, fun button => by cases button <;> rfl⟩
  | cons e past ih =>
    change Tells player (e :: past) ((e.apply (afterEvents past)).controller player)
    rw [controller_apply]
    exact tells_cons ih e

/-- While the strobe line is high a port answers with A; else its reads since the last write to the
line have gone through the buttons, and after them it answers 1. What the other player does, reads
of the other port and writes to it do not matter. -/
theorem port_of_history (past : List PortEvent) (player : Player) :
    (read (portAddress player) (afterEvents past)).answer =
      .ok (if strobed past then (held player .a past).toUInt8
        else
          let order : List Button := [.a, .b, .select, .start, .up, .down, .left, .right]
          match order[readsSince player past]? with
          | some button => (held player button past).toUInt8
          | none => 1) ∧
    (read (portAddress player) (afterEvents past)).answer =
      (read (portAddress player) (afterEvents (past.filter (·.concerns player)))).answer := by
  have htells := tells_after player past
  rw [read_port, answer_onController, answer_onController, controller_filter]
  refine ⟨?_, rfl⟩
  cases hstrobed : strobed past with
  | true =>
    have hhigh := htells.strobe.trans hstrobed
    unfold Controller.read
    rw [if_pos hhigh, if_pos rfl, htells.holds]
  | false =>
    -- the reads since the last strobe have gone this far through the buttons
    have hlow := htells.strobe.trans hstrobed
    have hshifted := htells.shifted
    rw [hstrobed, if_neg (by decide)] at hshifted
    rw [read_of_low hlow hshifted, if_neg (by decide)]
    simp only [htells.holds]
    rfl

end Famicom.Bus
