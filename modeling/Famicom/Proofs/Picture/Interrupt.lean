import Famicom.Proofs.Bits
import Famicom.Proofs.Picture.Bounds
import Famicom.Proofs.Picture.Effect

/-! The interrupts of one vertical blank. A dot of the blank raises one, and so does every write to
the control register that enables them while the blank lasts. -/

namespace Famicom.Picture

open Famicom.Action

/-- The vertical blank, up to the dot that clears its flag. -/
def InBlank (p : Picture) : Prop :=
  241 ≤ p.scanline ∧ (p.scanline ≤ 260 ∨ p.scanline = 261 ∧ p.dot ≤ 1)

/-- The dot that raises the interrupt of the blank is still to come. -/
def beforeNmi (p : Picture) : Bool := p.scanline = 241 ∧ p.dot ≤ 16

/-- A write that switches the interrupt off. -/
def switchesOff (p : Picture) (addr : UInt16) (data : UInt8) : Bool :=
  registerAt addr = 0x2000 ∧ Control.nmiEnabled p.ctrl = true ∧ Control.nmiEnabled data = false

/-- What becomes of a unit in the vertical blank if a poll follows every tick and every access to a
register: how many polls have answered that an interrupt was raised, how many writes have switched
it off, and whether a write has raised one before the dot of the blank that does. -/
inductive Blanked (p : Picture) : Nat → Nat → Bool → Picture → Prop
  | start : Blanked p 0 0 false p
  | tick {raised dropped : Nat} {early raises : Bool} {q r : Picture} :
      Blanked p raised dropped early q → q.InBlank →
      takeNmi (ε := Bus.Fault) (tick q).state = ⟨.ok raises, r, []⟩ →
      Blanked p (raised + raises.toNat) dropped early r
  | read {raised dropped : Nat} {early raises : Bool} {q r : Picture} (addr : UInt16) :
      Blanked p raised dropped early q → q.InBlank →
      takeNmi (ε := Bus.Fault) (readRegister addr q).state = ⟨.ok raises, r, []⟩ →
      Blanked p (raised + raises.toNat) dropped early r
  | write {raised dropped : Nat} {early raises : Bool} {q r : Picture} (addr : UInt16)
      (data : UInt8) : Blanked p raised dropped early q → q.InBlank →
      takeNmi (ε := Bus.Fault) (writeRegister addr data q).state = ⟨.ok raises, r, []⟩ →
      Blanked p (raised + raises.toNat) (dropped + (q.switchesOff addr data).toNat)
        (early || raises && q.beforeNmi) r

variable {o p q r : Picture} {raised dropped : Nat} {early raises : Bool}

/-- One if the interrupt is enabled. -/
def enabled (p : Picture) : Nat := (Control.nmiEnabled p.ctrl).toNat

@[simp] theorem nmiPending_polled (p : Picture) : p.polled.nmiPending = false := rfl

@[simp] theorem enabled_polled (p : Picture) : p.polled.enabled = p.enabled := rfl

@[simp] theorem beforeNmi_polled (p : Picture) : p.polled.beforeNmi = p.beforeNmi := rfl

theorem enabled_le (p : Picture) : p.enabled ≤ 1 := Bool.toNat_le _

theorem takeNmi_of_pending (h : q.nmiPending = raises) :
    takeNmi (ε := Bus.Fault) q = ⟨.ok raises, q.polled, []⟩ := by
  rw [← h]
  rfl

theorem eq_of_takeNmi (h : takeNmi (ε := Bus.Fault) q = ⟨.ok raises, r, []⟩) :
    raises = q.nmiPending ∧ r = q.polled := by
  unfold takeNmi at h
  simp only [Outcome.mk.injEq, Except.ok.injEq, and_true] at h
  exact ⟨h.1.symm, h.2.symm⟩

/-! What raises an interrupt. -/

/-- Only the dot of the blank raises one, and only if it is enabled. -/
theorem dotKeeps_idle : DotKeeps
    (fun p => p.nmiPending = false ∧ (p.dot ≠ 16 ∨ Control.nmiEnabled p.ctrl = false))
    (fun _ => True) where
  nextTile _ h := h
  nextLine _ h := h
  copyHorizontal _ h := h
  copyVertical _ h := h
  pipeline _ _ _ h := h
  found _ h := h
  noSprites _ h := h
  blank _ h := h
  line _ _ h _ := h
  pixel _ _ _ h := h
  noteHit p h := by
    unfold noteHit
    split <;> exact h
  overflow _ h := h
  vblank p h := by
    have hquiet : ¬(p.dot = nmiDot ∧ Control.nmiEnabled p.ctrl ∧
        p.status &&& Status.vblank ≠ 0) := by
      rintro ⟨hdot, hon, -⟩
      rcases h.2 with hne | hoff
      · exact hne hdot
      · rw [hoff] at hon
        cases hon
    unfold vblankDot
    rw [if_neg hquiet]
    split <;> exact h
  clear _ h := h
  lowFault _ _ _ _ := trivial
  highFault _ _ _ _ := trivial
  lineFault _ _ _ _ := trivial

theorem nmiPending_tick (p : Picture) :
    (tick p).state.nmiPending = (drawDot p).state.nmiPending :=
  tick_eq_drawDot (f := nmiPending) (fun _ _ _ => rfl) p

theorem idle_tick (h : p.nmiPending = false)
    (hquiet : p.dot ≠ 16 ∨ Control.nmiEnabled p.ctrl = false) :
    (tick p).state.nmiPending = false := by
  rw [nmiPending_tick]
  exact (dotKeeps_idle.drawDot p ⟨h, hquiet⟩).1.1

theorem drawKeeps_idle : DrawKeeps (fun p => p.nmiPending = false) (fun _ => True) where
  nextTile _ h := h
  nextLine _ h := h
  copyHorizontal _ h := h
  copyVertical _ h := h
  pipeline _ _ _ h := h
  found _ h := h
  noSprites _ h := h
  blank _ h := h
  line _ _ h _ := h
  pixel _ _ _ h := h
  noteHit p h := by
    unfold noteHit
    split <;> exact h
  overflow _ h := h
  lowFault _ _ _ _ := trivial
  highFault _ _ _ _ := trivial
  lineFault _ _ _ _ := trivial

/-- No more than one dot of a frame raises an interrupt. -/
theorem place_of_raised (h : p.nmiPending = false) (hraised : (tick p).state.nmiPending = true) :
    p.scanline = vblankScanline ∧ p.dot = nmiDot := by
  constructor
  · by_contra hline
    have hkept : (drawDot p).state.nmiPending = false :=
      drawKeeps_idle.drawDot_of_ne (fun _ hq => hq) h hline
    rw [nmiPending_tick, hkept] at hraised
    cases hraised
  · by_contra hdot
    rw [idle_tick h (Or.inl hdot)] at hraised
    cases hraised

/-- On the scanlines of the blank a tick does no more than its dot, and goes on. -/
theorem tick_of_blank (h : 241 ≤ p.scanline) (hend : p.scanline ≤ 260) (hdot : p.dot < 340) :
    (tick p).state.scanline = p.scanline ∧ (tick p).state.dot = p.dot + 1 ∧
      (tick p).state.status = (if p.scanline = 241 then p.vblankDot else p).status ∧
      (tick p).state.nmiPending = (if p.scanline = 241 then p.vblankDot else p).nmiPending := by
  have hruns : ¬Runs p.scanline := by
    unfold Runs height preRenderScanline
    omega
  have hnext : p.position.next = { p.position with dot := p.dot + 1 } :=
    if_pos (show p.dot + 1 < 341 by omega)
  obtain ⟨hit, es, htick⟩ := tick_of_drawDot (drawDot_of_blank hruns)
  rw [htick, hnext]
  exact ⟨rfl, rfl, rfl, rfl⟩

theorem raised_of_tick (hidle : q.nmiPending = false)
    (hraised : (tick q).state.nmiPending = true) :
    q.beforeNmi = true ∧ Control.nmiEnabled q.ctrl = true ∧ (tick q).state.beforeNmi = false := by
  obtain ⟨hscanline, hdot⟩ : q.scanline = 241 ∧ q.dot = 16 := place_of_raised hidle hraised
  have hon : Control.nmiEnabled q.ctrl = true := by
    by_contra hoff
    rw [idle_tick hidle (Or.inr (Bool.not_eq_true _ ▸ hoff))] at hraised
    cases hraised
  obtain ⟨-, hpassed, -⟩ := tick_of_blank (p := q) (by omega) (by omega) (by omega)
  refine ⟨decide_eq_true ⟨hscanline, by omega⟩, hon, decide_eq_false ?_⟩
  omega

/-- Time goes on: what comes before the dot of the blank came before it already. -/
theorem beforeNmi_of_tick (hb : q.InBlank) (h : (tick q).state.beforeNmi = true) :
    q.beforeNmi = true := by
  have hlate : 241 ≤ q.position.scanline := hb.1
  have hplace := of_decide_eq_true h
  apply decide_eq_true
  change q.position.scanline = 241 ∧ q.position.dot ≤ 16
  change (tick q).state.position.scanline = 241 ∧ (tick q).state.position.dot ≤ 16 at hplace
  rcases position_tick q with hnext | hsame
  · rw [hnext] at hplace
    unfold Position.next at hplace
    split at hplace
    · dsimp only at hplace
      omega
    split at hplace
    · dsimp only at hplace
      omega
    · dsimp only at hplace
      omega
  · rwa [hsame] at hplace

/-- An access elsewhere than to the control register neither raises an interrupt nor moves the
unit. -/
theorem accessKeeps_idle (x : Position) (ctrl : UInt8) :
    AccessKeeps (fun p => p.position = x ∧ p.ctrl = ctrl ∧ p.nmiPending = false)
      (fun _ => True) where
  status _ h := h
  buffer _ _ h := h
  stepAddress _ h := h
  mask _ _ h := h
  oamAddress _ _ h := h
  oam _ _ h := h
  scroll _ _ h := by
    unfold writeScroll
    split <;> exact h
  address _ _ h := by
    unfold writeAddress
    split <;> exact h
  readFault _ _ _ _ _ := trivial
  memory _ _ := fun _ hp => ⟨hp, fun _ _ => trivial⟩

theorem beforeNmi_of_position (h : r.position = q.position) : r.beforeNmi = q.beforeNmi := by
  have hscanline : r.scanline = q.scanline := congrArg Position.scanline h
  have hdot : r.dot = q.dot := congrArg Position.dot h
  unfold beforeNmi
  rw [hscanline, hdot]

theorem enabled_of_ctrl (h : r.ctrl = q.ctrl) : r.enabled = q.enabled := by
  unfold enabled
  rw [h]

/-- A write that raises an interrupt has enabled it, and one that disables it is counted. -/
theorem enabled_of_write (hidle : q.nmiPending = false) (addr : UInt16) (data : UInt8) :
    (writeRegister addr data q).state.position = q.position ∧
      (writeRegister addr data q).state.nmiPending.toNat + q.enabled ≤
        (writeRegister addr data q).state.enabled + (q.switchesOff addr data).toNat := by
  by_cases hcontrol : registerAt addr = 0x2000
  · have hwrite : writeRegister addr data q =
        ⟨.ok (), q.writeControl data, [.registerWrite data (registerAt addr)]⟩ := by
      unfold writeRegister
      rw [bind_of_ok (report_apply _ q), hcontrol]
      rfl
    rw [hwrite]
    refine ⟨rfl, ?_⟩
    unfold writeControl enabled switchesOff
    dsimp only
    rw [hidle]
    -- off and on, on and off, or no change
    cases Control.nmiEnabled q.ctrl <;> cases Control.nmiEnabled data <;>
      simp [hcontrol, Bool.toNat_le]
  · have hkept := ((accessKeeps_idle q.position q.ctrl).writeRegister addr data
      (fun h => absurd h hcontrol) q ⟨rfl, rfl, hidle⟩).1
    obtain ⟨hposition, hctrl, hpending⟩ := hkept
    refine ⟨hposition, ?_⟩
    unfold enabled
    rw [hpending, hctrl, Bool.toNat_false]
    omega

/-! The count. Every interrupt but that of the blank's own dot needs a write that enables it, and
between two such writes there is one that disables it. -/

structure Counted (o : Picture) (raised dropped : Nat) (early : Bool) (p : Picture) : Prop where
  idle : p.nmiPending = false
  before : p.beforeNmi = true → raised + o.enabled ≤ dropped + p.enabled
  total : raised + o.enabled ≤ dropped + p.enabled + 1
  none_before : early = false → p.beforeNmi = true → raised = 0
  total_late : early = false → raised ≤ dropped + p.enabled

theorem counted_tick (h : Counted o raised dropped early q) (hb : q.InBlank)
    (hpoll : takeNmi (ε := Bus.Fault) (tick q).state = ⟨.ok raises, r, []⟩) :
    Counted o (raised + raises.toNat) dropped early r := by
  obtain ⟨hraises, rfl⟩ := eq_of_takeNmi hpoll
  have henabled : (tick q).state.enabled = q.enabled := enabled_of_ctrl (static_tick q).ctrl
  have hbefore := beforeNmi_of_tick hb
  cases raises with
  | false =>
    constructor <;> simp only [nmiPending_polled, enabled_polled, beforeNmi_polled, henabled]
    · exact fun hr => h.before (hbefore hr)
    · exact h.total
    · exact fun hearly hr => h.none_before hearly (hbefore hr)
    · exact h.total_late
  | true =>
    -- this is the dot of the blank, and it does not come a second time
    obtain ⟨hq, hon, hr⟩ := raised_of_tick h.idle hraises.symm
    have hone : q.enabled = 1 := congrArg Bool.toNat hon
    have hcount := h.before hq
    constructor <;> simp only [nmiPending_polled, enabled_polled, beforeNmi_polled, henabled, hr,
      Bool.toNat_true, Bool.false_eq_true, false_implies, implies_true]
    · omega
    · intro hearly
      rw [h.none_before hearly hq]
      omega

theorem counted_read (h : Counted o raised dropped early q) (addr : UInt16)
    (hpoll : takeNmi (ε := Bus.Fault) (readRegister addr q).state = ⟨.ok raises, r, []⟩) :
    Counted o (raised + raises.toNat) dropped early r := by
  obtain ⟨hposition, hctrl, hpending⟩ :=
    ((accessKeeps_idle q.position q.ctrl).readRegister addr q ⟨rfl, rfl, h.idle⟩).1
  obtain ⟨hraises, rfl⟩ := eq_of_takeNmi hpoll
  obtain rfl : raises = false := hraises.trans hpending
  have henabled := enabled_of_ctrl hctrl
  have hbefore := beforeNmi_of_position hposition
  constructor <;> simp only [nmiPending_polled, enabled_polled, beforeNmi_polled, henabled, hbefore]
  · exact h.before
  · exact h.total
  · exact h.none_before
  · exact h.total_late

theorem counted_write (h : Counted o raised dropped early q) (addr : UInt16) (data : UInt8)
    (hpoll : takeNmi (ε := Bus.Fault) (writeRegister addr data q).state = ⟨.ok raises, r, []⟩) :
    Counted o (raised + raises.toNat) (dropped + (q.switchesOff addr data).toNat)
      (early || raises && q.beforeNmi) r := by
  obtain ⟨hposition, hbalance⟩ := enabled_of_write h.idle addr data
  obtain ⟨hraises, rfl⟩ := eq_of_takeNmi hpoll
  rw [← hraises] at hbalance
  have hbefore := beforeNmi_of_position hposition
  constructor <;> simp only [nmiPending_polled, enabled_polled, beforeNmi_polled, hbefore,
    Bool.or_eq_false_iff]
  · intro hr
    have hcount := h.before hr
    omega
  · have hcount := h.total
    omega
  -- a write that is not early either raises nothing or comes behind the dot of the blank
  · rintro ⟨hearly, hlate⟩ hr
    rw [hr, Bool.and_true] at hlate
    rw [hlate, h.none_before hearly hr]
    rfl
  · rintro ⟨hearly, -⟩
    have hcount := h.total_late hearly
    omega

theorem counted_of_blanked (hidle : p.nmiPending = false)
    (h : Blanked p raised dropped early q) : Counted p raised dropped early q := by
  induction h with
  | start => exact ⟨hidle, fun _ => by omega, by omega, fun _ _ => rfl, fun _ => Nat.zero_le _⟩
  | tick _ hb hpoll ih => exact counted_tick ih hb hpoll
  | read addr _ _ hpoll ih => exact counted_read ih addr hpoll
  | write addr data _ _ hpoll ih => exact counted_write ih addr data hpoll

/-! An early write raises one interrupt more. -/

/-- On the line in which the blank begins, with its flag set and nothing pending. -/
structure Flagged (on : Bool) (dot : Nat) (p : Picture) : Prop where
  scanline_eq : p.scanline = 241
  dot_eq : p.dot = dot
  idle : p.nmiPending = false
  flag : p.status &&& Status.vblank ≠ 0
  nmiEnabled_eq : Control.nmiEnabled p.ctrl = on

theorem and_vblank_of_or (status : UInt8) : (status ||| Status.vblank) &&& Status.vblank ≠ 0 := by
  rw [Bits.or_and_self]
  decide

variable {on : Bool} {d : Nat}

theorem Flagged.inBlank (h : Flagged on d q) : q.InBlank := by
  have hscanline := h.scanline_eq
  exact ⟨by omega, Or.inl (by omega)⟩

/-- The dot at which the blank begins sets its flag. -/
theorem flagged_first (hscanline : p.scanline = 241) (hdot : p.dot = 1)
    (hidle : p.nmiPending = false) :
    Flagged (Control.nmiEnabled p.ctrl) 2 (tick p).state := by
  have hfirst : p.vblankDot = { p with status := p.status ||| Status.vblank } := if_pos hdot
  obtain ⟨hline, hnext, hstatus, hpending⟩ := tick_of_blank (p := p) (by omega) (by omega) (by omega)
  rw [if_pos hscanline, hfirst] at hstatus hpending
  refine ⟨hline.trans hscanline, by omega, hpending.trans hidle, ?_, ?_⟩
  · rw [hstatus]
    exact and_vblank_of_or p.status
  · rw [(static_tick p).ctrl]

/-- Up to the dot that raises the interrupt nothing happens. -/
theorem flagged_tick (h : Flagged on d q) (hstart : 2 ≤ d) (hend : d < 16) :
    Flagged on (d + 1) (tick q).state := by
  have hscanline := h.scanline_eq
  have hdot := h.dot_eq
  have hquiet : q.vblankDot = q := by
    unfold vblankDot nmiDot
    rw [if_neg (by omega), if_neg (by omega)]
  obtain ⟨hline, hnext, hstatus, hpending⟩ := tick_of_blank (p := q) (by omega) (by omega) (by omega)
  rw [if_pos hscanline, hquiet] at hstatus hpending
  refine ⟨hline.trans hscanline, by omega, hpending.trans h.idle, ?_, ?_⟩
  · rw [hstatus]
    exact h.flag
  · rw [(static_tick q).ctrl]
    exact h.nmiEnabled_eq

theorem raised_of_flagged (h : Flagged true 16 q) : (tick q).state.nmiPending = true := by
  have hscanline := h.scanline_eq
  have hdot := h.dot_eq
  have hraised : q.vblankDot = { q with nmiPending := true } := by
    unfold vblankDot
    rw [if_neg (by omega), if_pos ⟨hdot, h.nmiEnabled_eq, h.flag⟩]
  obtain ⟨-, -, -, hpending⟩ := tick_of_blank (p := q) (by omega) (by omega) (by omega)
  rw [hpending, if_pos hscanline, hraised]

/-- A write that enables the interrupt under the flag raises one. -/
theorem flagged_write (h : Flagged false d q) :
    (writeRegister 0x2000 0x80 q).state.nmiPending = true ∧
      Flagged true d (writeRegister 0x2000 0x80 q).state.polled := by
  have hpending : (q.writeControl 0x80).nmiPending = true := by
    unfold writeControl
    dsimp only
    rw [h.idle, h.nmiEnabled_eq, bne_iff_ne.mpr h.flag]
    rfl
  have hon : Control.nmiEnabled 0x80 = true := by decide
  exact ⟨hpending, h.scanline_eq, h.dot_eq, rfl, h.flag, hon⟩

theorem Flagged.polled (h : Flagged on d q) : Flagged on d q.polled :=
  ⟨h.scanline_eq, h.dot_eq, rfl, h.flag, h.nmiEnabled_eq⟩

/-- A run through the dots before the one that raises the interrupt. -/
theorem blanked_wait (h : Blanked p raised dropped early q) (hq : Flagged on 2 q) {n : Nat}
    (hn : n ≤ 14) : ∃ r, Blanked p raised dropped early r ∧ Flagged on (2 + n) r := by
  induction n with
  | zero => exact ⟨q, h, hq⟩
  | succ n ih =>
    obtain ⟨r, hr, hflagged⟩ := ih (by omega)
    have hnext := flagged_tick hflagged (by omega) (by omega)
    exact ⟨_, hr.tick hflagged.inBlank (takeNmi_of_pending hnext.idle), hnext.polled⟩

theorem raised_twice (hscanline : p.scanline = 241) (hdot : p.dot = 1)
    (hidle : p.nmiPending = false) (hoff : Control.nmiEnabled p.ctrl = false) :
    ∃ q, Blanked p 2 0 true q := by
  -- the flag comes at once, and the interrupt is enabled at the dot behind it
  have hfirst := flagged_first hscanline hdot hidle
  rw [hoff] at hfirst
  have hblank : p.InBlank := ⟨by omega, Or.inl (by omega)⟩
  have hset : Blanked p 0 0 false (tick p).state.polled :=
    Blanked.start.tick hblank (takeNmi_of_pending hfirst.idle)
  obtain ⟨hraised, hon⟩ := flagged_write hfirst.polled
  have hwritten : Blanked p 1 0 true
      (writeRegister 0x2000 0x80 (tick p).state.polled).state.polled := by
    have hoff := hfirst.polled.nmiEnabled_eq
    have hwrite := hset.write 0x2000 0x80 hfirst.polled.inBlank (takeNmi_of_pending hraised)
    have hnone : (tick p).state.polled.switchesOff 0x2000 0x80 = false := by
      unfold switchesOff
      rw [hoff]
      rfl
    have hbefore : (tick p).state.polled.beforeNmi = true := by
      have hplace := hfirst.dot_eq
      exact decide_eq_true ⟨hfirst.scanline_eq, by change (tick p).state.dot ≤ 16; omega⟩
    rw [hnone, hbefore] at hwrite
    exact hwrite
  -- the dot of the blank still finds the flag
  obtain ⟨q, hq, hflagged⟩ := blanked_wait hwritten hon (Nat.le_refl 14)
  have hlast := takeNmi_of_pending (raised_of_flagged hflagged)
  exact ⟨_, hq.tick hflagged.inBlank hlast⟩

/-- In one vertical blank polls answer at most one interrupt and one more for each write that has
switched it off, unless it was off at the start and a write has raised one before the dot of the
blank. With that there can be one more, and there is a run with two and no such write. -/
theorem raised_le_of_blanked (hscanline : p.scanline = 241) (hdot : p.dot = 1)
    (hidle : p.nmiPending = false) :
    (∀ raised dropped early q, Blanked p raised dropped early q →
      raised ≤ 1 + dropped + (early && !Control.nmiEnabled p.ctrl).toNat) ∧
    (Control.nmiEnabled p.ctrl = false → ∃ q, Blanked p 2 0 true q) := by
  refine ⟨?_, raised_twice hscanline hdot hidle⟩
  intro raised dropped early q h
  have hcounted := counted_of_blanked hidle h
  have hone := q.enabled_le
  cases early with
  | false =>
    calc raised
      _ ≤ dropped + q.enabled := hcounted.total_late rfl
      _ ≤ 1 + dropped + 0 := by omega
  | true =>
    have htotal := hcounted.total
    have hstart : p.enabled + (!Control.nmiEnabled p.ctrl).toNat = 1 := by
      unfold enabled
      cases Control.nmiEnabled p.ctrl <;> rfl
    rw [Bool.true_and]
    omega

/-- From power on a unit comes to every place of its first frame without an interrupt. -/
theorem plugged_at {image : Array UInt8} {c : Cartridge} (himage : Cartridge.ofImage image = .ok c)
    {n : Nat} (hn : n < 89342) : ∃ p, (Plugged p ∧ p.nmiPending = false ∧ p.ctrl = 0) ∧
      p.position = ⟨n / 341, n % 341, false, 0, false⟩ := by
  apply exists_ahead (m := 0) _ ⟨.insert himage, rfl, rfl⟩ rfl (Nat.zero_le n) hn
  rintro p ⟨hp, hidle, hctrl⟩
  have hoff : Control.nmiEnabled p.ctrl = false := by
    rw [hctrl]
    rfl
  exact ⟨⟨hp.tick, idle_tick hidle (Or.inr hoff), (static_tick p).ctrl.trans hctrl⟩,
    position_tick_of_plugged hp⟩

theorem raised_le_of_plain : ∃ p q, Plugged p ∧ p.scanline = 241 ∧ p.dot = 1 ∧
    p.nmiPending = false ∧ Blanked p 2 0 true q ∧
      ∀ raised dropped early q, Blanked p raised dropped early q → raised ≤ 2 + dropped := by
  have himage := Cartridge.ofImage_plainImage (.replicate 0x4000 0) (.replicate 0x2000 0)
  obtain ⟨p, ⟨hp, hidle, hctrl⟩, hplace⟩ := plugged_at himage (show 241 * 341 + 1 < 89342 by decide)
  have hscanline : p.scanline = 241 := congrArg Position.scanline hplace
  have hdot : p.dot = 1 := congrArg Position.dot hplace
  have hoff : Control.nmiEnabled p.ctrl = false := by
    rw [hctrl]
    rfl
  obtain ⟨hbound, htwice⟩ := raised_le_of_blanked hscanline hdot hidle
  obtain ⟨q, hq⟩ := htwice hoff
  refine ⟨p, q, hp, hscanline, hdot, hidle, hq, ?_⟩
  intro raised dropped early q h
  have hle := hbound raised dropped early q h
  have hone := Bool.toNat_le (early && !Control.nmiEnabled p.ctrl)
  omega

end Famicom.Picture
