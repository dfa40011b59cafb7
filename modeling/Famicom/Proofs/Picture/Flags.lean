import Famicom.Proofs.Bits
import Famicom.Proofs.Picture.Bounds
import Famicom.Proofs.Picture.Effect

/-! The two flags of the status that the sprites set: that sprite zero has been hit, and that a
scanline has more sprites than are kept. One dot of each frame clears both. -/

namespace Famicom.Picture

open Famicom.Action

/-- Whether the status says that sprite zero has been hit. -/
def hitFlag (p : Picture) : Bool := p.status &&& Status.spriteZeroHit != 0

/-- Whether the status says that a scanline has too many sprites. -/
def overflowFlag (p : Picture) : Bool := p.status &&& Status.spriteOverflow != 0

/-- The next dot is a visible one, and at its pixel, whose place is `x`, sprite zero meets a solid
background. Neither layer counts where the left column of its pixels is hidden. -/
structure Meets (p : Picture) (x : Nat) : Prop where
  scanline_lt : p.scanline < height
  dot_eq : p.dot = x + 1
  x_lt : x < width
  rendering : Mask.rendering p.mask = true
  spriteShown : Mask.sprites p.mask = true ∧ (8 ≤ x ∨ Mask.spritesLeft p.mask = true)
  spriteZero : ∃ s, p.line[x]? = some (some s) ∧ s.spriteZero = true
  backgroundShown : Mask.background p.mask = true ∧ (8 ≤ x ∨ Mask.backgroundLeft p.mask = true)
  solid : isSolid (p.shifter.shift.pixel p.fineX) = true

/-- The next dot finds the sprites of its scanline, and there are more of them than are kept. -/
def Overflows (p : Picture) : Prop :=
  (p.scanline < height ∨ p.scanline = preRenderScanline) ∧ p.dot = evaluationDot ∧ p.FindsTooMany

/-- The dot that clears both flags. -/
def Clears (p : Picture) : Prop := p.scanline = preRenderScanline ∧ p.dot = 1

/-- The dots of the last scanline behind the one that clears the flags. -/
def Cleared (p : Picture) : Prop := p.scanline = preRenderScanline ∧ 1 < p.dot

instance (p : Picture) : Decidable p.Overflows := inferInstanceAs (Decidable (_ ∧ _))

instance (p : Picture) : Decidable p.Clears := inferInstanceAs (Decidable (_ ∧ _))

/-- Whether the next dot meets sprite zero, by what it draws. -/
def meets (p : Picture) : Bool :=
  decide (p.scanline < height ∧ 1 ≤ p.dot ∧ p.dot ≤ 256) && Mask.rendering p.mask &&
    hitsSpriteZero (p.shiftBackground.backgroundAt (p.dot - 1)) (p.spriteAt (p.dot - 1))

theorem solid_backgroundAt (p : Picture) (x : Nat) : isSolid (p.backgroundAt x) = true ↔
    (Mask.background p.mask = true ∧ (8 ≤ x ∨ Mask.backgroundLeft p.mask = true)) ∧
      isSolid (p.shifter.pixel p.fineX) = true := by
  unfold backgroundAt
  split <;> rename_i h <;> simp only [Bool.and_eq_true, Bool.or_eq_true, decide_eq_true_eq] at h
  · exact (and_iff_right h).symm
  · exact ⟨fun hsolid => absurd hsolid (by decide), fun hshown => absurd hshown.1 h⟩

theorem any_spriteAt (p : Picture) (x : Nat) : (p.spriteAt x).any (·.spriteZero) = true ↔
    (Mask.sprites p.mask = true ∧ (8 ≤ x ∨ Mask.spritesLeft p.mask = true)) ∧
      ∃ s, p.line[x]? = some (some s) ∧ s.spriteZero = true := by
  unfold spriteAt
  split <;> rename_i h <;> simp only [Bool.and_eq_true, Bool.or_eq_true, decide_eq_true_eq] at h
  · rw [and_iff_right h, Option.any_eq_true]
    simp only [Option.join_eq_some_iff]
  · exact ⟨fun hany => absurd hany Bool.false_ne_true, fun hshown => absurd hshown.1 h⟩

theorem meets_iff (p : Picture) : p.meets = true ↔ ∃ x, p.Meets x := by
  unfold meets hitsSpriteZero
  simp only [Bool.and_eq_true, decide_eq_true_eq, solid_backgroundAt, any_spriteAt]
  have hmask : p.shiftBackground.mask = p.mask := by rw [shiftBackground_eq]
  have hfine : p.shiftBackground.fineX = p.fineX := by rw [shiftBackground_eq]
  have hshifter : Mask.background p.mask = true →
      p.shiftBackground.shifter = p.shifter.shift := by
    intro h
    rw [shiftBackground_of_shown h]
  rw [hmask, hfine]
  constructor
  -- a background that is shown has been shifted by the dot before its pixel is looked at
  · rintro ⟨⟨⟨hscanline, hlow, hhigh⟩, hrendering⟩, ⟨hbackground, hsolid⟩, hsprite, hzero⟩
    rw [hshifter hbackground.1] at hsolid
    exact ⟨p.dot - 1, hscanline, by omega, by unfold width; omega, hrendering, hsprite, hzero,
      hbackground, hsolid⟩
  · rintro ⟨x, h⟩
    have hdot := h.dot_eq
    have hx := h.x_lt
    unfold width at hx
    have hplace : p.dot - 1 = x := by omega
    rw [hplace, hshifter h.backgroundShown.1]
    exact ⟨⟨⟨h.scanline_lt, by omega, by omega⟩, h.rendering⟩, ⟨h.backgroundShown, h.solid⟩,
      h.spriteShown, h.spriteZero⟩

/-- What can be done to a unit other than ticking it. -/
inductive Used (p : Picture) : Picture → Prop
  | read (addr : UInt16) : Used p (readRegister addr p).state
  | write (addr : UInt16) (data : UInt8) : Used p (writeRegister addr data p).state
  | transfer (bytes : List UInt8) : Used p (p.writeOamAll bytes)
  | takeNmi : Used p (takeNmi (ε := Bus.Fault) p).state
  | takeFrame : Used p (takeFrame (ε := Bus.Fault) p).state
  | insert (c : Cartridge) : Used p (p.insert c)
  | eject : Used p p.eject

/-- What a unit can come to from power on, with a cartridge in the slot or without one: whether a
dot of the current frame has met sprite zero, and how often the flag for it has been set since the
frame began. -/
inductive Scanned : Bool → Nat → Picture → Prop
  | powerOn : Scanned false 0 powerOn
  | tick {met : Bool} {raised : Nat} {p : Picture} : Scanned met raised p →
      (tick p).state.frameCount = p.frameCount →
      Scanned (met || p.meets) (raised + (!p.hitFlag && (tick p).state.hitFlag).toNat) (tick p).state
  | frame {met : Bool} {raised : Nat} {p : Picture} : Scanned met raised p →
      (tick p).state.frameCount ≠ p.frameCount → Scanned false 0 (tick p).state
  | use {met : Bool} {raised : Nat} {p q : Picture} : Scanned met raised p → Used p q →
      Scanned met raised q

variable {p q : Picture} {met : Bool} {raised : Nat}

/-! What each change does to the flags. -/

/-- Both flags, with the note that sprite zero has been hit in this frame. -/
def flags (p : Picture) : Bool × Bool × Bool := (p.hitFlag, p.overflowFlag, p.hit)

theorem fetchKeeps_flags (F : Bool × Bool × Bool) :
    FetchKeeps (fun p => p.flags = F) (fun _ => True) where
  nextTile _ h := h
  nextLine _ h := h
  copyHorizontal _ h := h
  copyVertical _ h := h
  pipeline _ _ _ h := h
  blank _ h := h
  line _ _ h _ := h
  lowFault _ _ _ _ := trivial
  highFault _ _ _ _ := trivial
  lineFault _ _ _ _ := trivial

theorem flags_noteHit (p : Picture) :
    p.noteHit.flags = (p.hitFlag || !p.hit, p.overflowFlag, true) := by
  unfold noteHit
  split <;> rename_i hhit
  · simp only [flags, hhit, Bool.not_true, Bool.or_false]
  · rw [Bool.not_eq_true] at hhit
    have hset : (p.status ||| Status.spriteZeroHit) &&& Status.spriteZeroHit =
        Status.spriteZeroHit := Bits.or_and_self _ _
    have hkept : (p.status ||| Status.spriteZeroHit) &&& Status.spriteOverflow =
        p.status &&& Status.spriteOverflow := Bits.or_and_of_disjoint _ (by decide)
    simp only [flags, hitFlag, overflowFlag, hset, hkept, hhit, Bool.not_false, Bool.or_true]
    rfl

theorem flags_composePixel (p : Picture) : p.composePixel.flags =
    if hitsSpriteZero (p.backgroundAt (p.dot - 1)) (p.spriteAt (p.dot - 1)) then p.noteHit.flags
    else p.flags := by
  unfold composePixel
  dsimp only
  split <;> rfl

theorem flags_evaluate (p : Picture) :
    p.evaluate.flags = (p.hitFlag, p.overflowFlag || decide p.FindsTooMany, p.hit) := by
  have hhit : (p.status ||| Status.spriteOverflow) &&& Status.spriteZeroHit =
      p.status &&& Status.spriteZeroHit := Bits.or_and_of_disjoint _ (by decide)
  have hset : (p.status ||| Status.spriteOverflow) &&& Status.spriteOverflow =
      Status.spriteOverflow := Bits.or_and_self _ _
  unfold evaluate
  by_cases hmany : p.FindsTooMany
  · simp only [flags, hitFlag, overflowFlag, if_pos hmany, decide_eq_true hmany, hhit, hset,
      Bool.or_true]
    rfl
  · simp only [flags, hitFlag, overflowFlag, if_neg hmany, decide_eq_false hmany, Bool.or_false]

theorem flags_shiftBackground (p : Picture) : p.shiftBackground.flags = p.flags :=
  (fetchKeeps_flags p.flags).shiftBackground rfl

theorem flags_renderDot (visible : Bool) (p : Picture) : (renderDot visible p).state.flags =
    if visible = true ∧ 1 ≤ p.dot ∧ p.dot ≤ 256 then p.shiftBackground.composePixel.flags
    else p.flags := by
  by_cases hdraw : 1 ≤ p.dot ∧ p.dot ≤ 256
  · rw [renderDot_of_draw visible hdraw]
    refine ((fetchKeeps_flags _).drawRest p.dot _ rfl).1.trans ?_
    cases visible with
    | false => exact flags_shiftBackground p
    | true => exact (if_pos ⟨rfl, hdraw⟩).symm
  · rw [if_neg fun h => hdraw h.2]
    exact ((fetchKeeps_flags p.flags).behindPicture visible rfl hdraw).1

/-- On a visible scanline a dot notes a hit if it meets sprite zero. -/
theorem flags_drawVisible (h : p.scanline < height) :
    (drawVisible p).state.flags = if p.meets then p.noteHit.flags else p.flags := by
  obtain ⟨shifter, hshift⟩ : ∃ shifter, p.shiftBackground = { p with shifter } :=
    ⟨_, shiftBackground_eq p⟩
  have hnote : p.shiftBackground.noteHit.flags = p.noteHit.flags := by
    rw [hshift, flags_noteHit, flags_noteHit]
    rfl
  have hdot : p.shiftBackground.dot = p.dot := by rw [hshift]
  have hsprite : ∀ x, p.shiftBackground.spriteAt x = p.spriteAt x := by
    intro x
    rw [hshift]
    rfl
  unfold drawVisible meets
  rw [view_bind, Action.ite_apply]
  by_cases hrendering : Mask.rendering p.mask = true
  · rw [if_pos hrendering, flags_renderDot, flags_composePixel, hnote, flags_shiftBackground, hdot,
      hsprite, hrendering, Bool.and_true]
    by_cases hdraw : 1 ≤ p.dot ∧ p.dot ≤ 256
    · rw [if_pos ⟨rfl, hdraw⟩, decide_eq_true ⟨h, hdraw⟩, Bool.true_and]
    · rw [if_neg fun hd => hdraw hd.2, decide_eq_false fun hd => hdraw hd.2]
      rfl
  · rw [if_neg hrendering, Bool.eq_false_iff.mpr hrendering, Bool.and_false]
    change p.drawBackdrop.flags = _
    unfold drawBackdrop
    split <;> rfl

theorem flags_drawHidden (p : Picture) : (drawHidden p).state.flags = p.flags := by
  unfold drawHidden
  rw [view_bind, Action.ite_apply]
  split
  · exact (flags_renderDot false p).trans (if_neg fun h => Bool.false_ne_true h.1)
  · rfl

/-- The state in which a dot is drawn, with the sprites found if this is the dot for it. -/
def finding (p : Picture) : Picture := if p.dot = evaluationDot then p.evaluate else p

theorem state_of_finding (draw : Action Bus.Fault Picture Unit) (p : Picture) :
    ((if p.dot = evaluationDot then evaluateSprites >>= fun _ => draw else draw) p).state =
      (draw p.finding).state := by
  unfold finding
  rw [Action.ite_apply]
  split
  · obtain ⟨es, heq⟩ := evaluateSprites_eq p
    rw [bind_of_ok heq]
  · rfl

theorem flags_finding (p : Picture) : p.finding.flags =
    (p.hitFlag, p.overflowFlag || decide (p.dot = evaluationDot ∧ p.FindsTooMany), p.hit) := by
  unfold finding
  split <;> rename_i hdot
  · simp only [flags_evaluate, hdot, true_and]
  · simp only [hdot, false_and, decide_false, Bool.or_false]
    rfl

theorem meets_finding (p : Picture) : p.finding.meets = p.meets := by
  have hcongr : ∀ sprites status, meets { p with sprites, status } = p.meets := by
    intro sprites status
    have hshift : shiftBackground { p with sprites, status } =
        { p.shiftBackground with sprites, status } := by
      unfold shiftBackground
      split <;> rfl
    unfold meets
    rw [hshift]
    rfl
  unfold finding
  split
  · exact hcongr _ _
  · rfl

theorem flags_vblankDot (p : Picture) : p.vblankDot.flags = p.flags := by
  have hhit : (p.status ||| Status.vblank) &&& Status.spriteZeroHit =
      p.status &&& Status.spriteZeroHit := Bits.or_and_of_disjoint _ (by decide)
  have hoverflow : (p.status ||| Status.vblank) &&& Status.spriteOverflow =
      p.status &&& Status.spriteOverflow := Bits.or_and_of_disjoint _ (by decide)
  unfold vblankDot
  split
  · simp only [flags, hitFlag, overflowFlag, hhit, hoverflow]
  split <;> rfl

theorem flags_clearStatus (p : Picture) : p.clearStatus.flags = (false, false, p.hit) := by
  have hhit : ~~~(Status.vblank ||| Status.spriteZeroHit ||| Status.spriteOverflow) &&&
      Status.spriteZeroHit = 0 := by decide
  have hoverflow : ~~~(Status.vblank ||| Status.spriteZeroHit ||| Status.spriteOverflow) &&&
      Status.spriteOverflow = 0 := by decide
  simp only [flags, hitFlag, overflowFlag, clearStatus, UInt8.and_assoc, hhit, hoverflow,
    UInt8.and_zero]
  rfl

/-- What a dot does to the flags, whether it fails or not. -/
def dotFlags (p : Picture) : Bool × Bool × Bool :=
  (!decide p.Clears && (p.hitFlag || p.meets && !p.hit),
    !decide p.Clears && (p.overflowFlag || decide p.Overflows), p.hit || p.meets)

theorem meets_of_scanline (h : ¬p.scanline < height) : p.meets = false := by
  unfold meets
  rw [decide_eq_false fun hd => h hd.1]
  rfl

theorem flags_of_visible (h : p.scanline < height) : (drawDot p).state.flags = p.dotFlags := by
  have hclears : ¬p.Clears := by
    rintro ⟨hscanline, -⟩
    rw [hscanline] at h
    exact absurd h (by decide)
  have hoverflows : p.Overflows ↔ p.dot = evaluationDot ∧ p.FindsTooMany :=
    and_iff_right (.inl h)
  have hfound : p.finding.scanline < height := by
    unfold finding
    split <;> exact h
  have hflags := flags_finding p
  have hhitFlag : p.finding.hitFlag = p.hitFlag := congrArg (·.1) hflags
  have hoverflow : p.finding.overflowFlag =
      (p.overflowFlag || decide (p.dot = evaluationDot ∧ p.FindsTooMany)) :=
    congrArg (·.2.1) hflags
  have hhit : p.finding.hit = p.hit := congrArg (·.2.2) hflags
  rw [drawDot_of_visible h, state_of_finding, flags_drawVisible hfound, meets_finding,
    flags_noteHit, hflags, hhitFlag, hoverflow, hhit, dotFlags, decide_eq_false hclears]
  simp only [hoverflows]
  cases p.meets <;> simp

theorem flags_of_preRender (h : p.scanline = preRenderScanline) :
    (drawDot p).state.flags = p.dotFlags := by
  have hbelow : ¬p.scanline < height := by
    rw [h]
    decide
  rw [drawDot_of_preRender h, dotFlags, meets_of_scanline hbelow]
  -- the dot that clears the flags finds no sprites
  by_cases hdot : p.dot = 1
  · have hclears : p.Clears := ⟨h, hdot⟩
    have hlater : p.dot ≠ evaluationDot := by
      rw [hdot]
      decide
    rw [if_pos hdot, if_neg hlater, decide_eq_true hclears, flags_drawHidden, flags_clearStatus,
      Bool.or_false]
    rfl
  · have hclears : ¬p.Clears := fun hc => hdot hc.2
    have hoverflows : p.Overflows ↔ p.dot = evaluationDot ∧ p.FindsTooMany :=
      and_iff_right (.inr h)
    rw [if_neg hdot, decide_eq_false hclears, state_of_finding, flags_drawHidden, flags_finding]
    simp only [hoverflows, Bool.not_false, Bool.true_and, Bool.false_and, Bool.or_false]

theorem flags_drawDot (p : Picture) : (drawDot p).state.flags = p.dotFlags := by
  by_cases hvisible : p.scanline < height
  · exact flags_of_visible hvisible
  by_cases hlast : p.scanline = preRenderScanline
  · exact flags_of_preRender hlast
  have hclears : ¬p.Clears := fun h => hlast h.1
  have hoverflows : ¬p.Overflows := fun h => h.1.elim hvisible hlast
  rw [drawDot_of_blank (not_or.mpr ⟨hvisible, hlast⟩), dotFlags, meets_of_scanline hvisible,
    decide_eq_false hclears, decide_eq_false hoverflows]
  simp only [Bool.not_false, Bool.true_and, Bool.false_and, Bool.or_false]
  split
  · exact flags_vblankDot p
  · rfl

/-! What a tick does to the flags. -/

theorem hitFlag_tick (p : Picture) : (tick p).state.hitFlag =
    (!decide p.Clears && (p.hitFlag || p.meets && !p.hit)) := by
  rw [tick_eq_drawDot (f := hitFlag) fun _ _ _ => rfl]
  exact congrArg (·.1) (flags_drawDot p)

theorem overflowFlag_tick (p : Picture) : (tick p).state.overflowFlag =
    (!decide p.Clears && (p.overflowFlag || decide p.Overflows)) := by
  rw [tick_eq_drawDot (f := overflowFlag) fun _ _ _ => rfl]
  exact congrArg (·.2.1) (flags_drawDot p)

/-- The note is dropped at the end of a frame. -/
theorem hit_tick (p : Picture) : (tick p).state.hit =
    if (tick p).state.frameCount = p.frameCount then p.hit || p.meets else false := by
  have hdot : (drawDot p).state.hit = (p.hit || p.meets) := congrArg (·.2.2) (flags_drawDot p)
  have hcount : (drawDot p).state.frameCount = p.frameCount :=
    congrArg Position.frameCount (static_drawDot p).2
  rw [← hdot, ← hcount]
  unfold tick
  rcases hq : drawDot p with ⟨e | _, q, es⟩
  · rw [bind_of_error hq, if_pos rfl]
  · rw [bind_of_ok hq]
    dsimp only
    unfold advance
    split
    · rw [if_pos rfl]
    split
    · rw [if_pos rfl]
    · rw [if_neg (Nat.succ_ne_self _)]

/-- The dot that clears the flags cannot fail. -/
theorem position_of_clears (h : p.Clears) : (tick p).state.position = p.position.next := by
  obtain ⟨hscanline, hdot⟩ := h
  -- its step of the eight reads a nametable, which needs no cartridge
  have hfetch : ∀ q : Picture, q.dot = 1 → ∃ r, fetchBackground q = ⟨.ok (), r, []⟩ := by
    intro q hq
    unfold fetchBackground
    rw [view_bind]
    cases Mask.background q.mask with
    | false => exact ⟨_, rfl⟩
    | true =>
      change ∃ r, (view _ >>= _) q = _
      rw [view_bind, hq]
      exact ⟨_, rfl⟩
  have hhidden : ∀ q : Picture, q.dot = 1 → ∃ r es, drawHidden q = ⟨.ok (), r, es⟩ := by
    intro q hq
    unfold drawHidden
    rw [view_bind, Action.ite_apply]
    split
    · obtain ⟨r, hr⟩ := hfetch q.shiftBackground (by rw [shiftBackground_eq]; exact hq)
      rw [renderDot_of_draw false (by omega), if_neg Bool.false_ne_true, bind_of_ok hr,
        Action.ite_apply, if_neg (by omega)]
      exact ⟨r, _, rfl⟩
    · exact ⟨q, _, rfl⟩
  obtain ⟨r, es, hr⟩ := hhidden p.clearStatus hdot
  have hdraw : drawDot p = ⟨.ok (), r, es⟩ := by
    rw [drawDot_of_preRender hscanline, if_pos hdot, if_neg (by rw [hdot]; decide), hr]
  obtain ⟨hit, es', htick⟩ := tick_of_drawDot hdraw
  rw [htick]
  rfl

/-! What a run keeps. -/

/-- The note of the frame against the run, and the flag against the note. -/
structure Tracked (met : Bool) (raised : Nat) (p : Picture) : Prop where
  bounded : p.position.Bounded
  hit_eq : p.hit = met
  raised_eq : raised = met.toNat
  flag_eq : ¬p.Cleared → p.hitFlag = p.hit
  flag_cleared : p.Cleared → p.hitFlag = false

theorem Tracked.congr (h : Tracked met raised p) (hflags : q.flags = p.flags)
    (hscanline : q.scanline = p.scanline) (hdot : q.dot = p.dot) : Tracked met raised q := by
  have hhitFlag : q.hitFlag = p.hitFlag := congrArg (·.1) hflags
  have hhit : q.hit = p.hit := congrArg (·.2.2) hflags
  have hcleared : q.Cleared ↔ p.Cleared := by
    unfold Cleared
    rw [hscanline, hdot]
  refine ⟨⟨?_, ?_⟩, hhit.trans h.hit_eq, h.raised_eq, ?_, ?_⟩
  · exact lt_of_eq_of_lt hscanline h.bounded.scanline_lt
  · exact lt_of_eq_of_lt hdot h.bounded.dot_lt
  · rw [hcleared, hhitFlag, hhit]
    exact h.flag_eq
  · rw [hcleared, hhitFlag]
    exact h.flag_cleared

theorem bounded_tick (h : p.position.Bounded) : (tick p).state.position.Bounded := by
  rcases position_tick p with hnext | hsame
  · rw [hnext]
    exact Position.bounded_next h
  · rw [hsame]
    exact h

/-- The dots behind the one that clears the flags come after it only. -/
theorem cleared_of_tick (h : (tick p).state.Cleared) : p.Clears ∨ p.Cleared := by
  change (tick p).state.position.scanline = preRenderScanline ∧ 1 < (tick p).state.position.dot at h
  change (p.position.scanline = preRenderScanline ∧ p.position.dot = 1) ∨
    (p.position.scanline = preRenderScanline ∧ 1 < p.position.dot)
  rcases position_tick p with hnext | hsame
  · rw [hnext] at h
    unfold Position.next at h
    split at h
    · dsimp only at h
      omega
    split at h
    · dsimp only at h
      omega
    · dsimp only [preRenderScanline] at h
      omega
  · rw [hsame] at h
    exact .inr h

/-- Within a frame they are left only by its end. -/
theorem cleared_tick (h : p.Cleared) (hsame : (tick p).state.frameCount = p.frameCount) :
    (tick p).state.Cleared := by
  change (tick p).state.position.frameCount = p.position.frameCount at hsame
  change p.position.scanline = preRenderScanline ∧ 1 < p.position.dot at h
  change (tick p).state.position.scanline = preRenderScanline ∧ 1 < (tick p).state.position.dot
  rcases position_tick p with hnext | hplace
  · rw [hnext] at hsame ⊢
    unfold Position.next preRenderScanline scanlinesPerFrame at *
    split
    · dsimp only
      omega
    split
    · omega
    · rw [if_neg ‹_›, if_neg ‹_›] at hsame
      exact absurd hsame (Nat.succ_ne_self _)
  · rw [hplace]
    exact h

/-- The end of a frame is one of them. -/
theorem cleared_of_frame (hx : p.position.Bounded)
    (hne : (tick p).state.frameCount ≠ p.frameCount) : p.Cleared := by
  change (tick p).state.position.frameCount ≠ p.position.frameCount at hne
  -- a tick that counts a frame has moved on from its last dot
  have hnext := (position_tick p).resolve_right fun hplace => hne (by rw [hplace])
  have hlast : p.position.left ≤ 1 := by
    by_contra hleft
    obtain ⟨-, -, hcount⟩ := Position.next_of_left hx (by omega)
    exact hne (by rw [hnext, hcount])
  obtain ⟨hscanline, -⟩ := Position.start_of_last hx hlast
  have hdot := hx.dot_lt
  unfold Position.left at hlast
  rw [hscanline] at hlast
  unfold dotsPerScanline scanlinesPerFrame preRenderScanline at *
  refine ⟨hscanline, ?_⟩
  change 1 < p.position.dot
  omega

theorem cleared_of_clears (h : p.Clears) : (tick p).state.Cleared := by
  have hdot : p.position.dot = 1 := h.2
  change (tick p).state.position.scanline = preRenderScanline ∧ 1 < (tick p).state.position.dot
  rw [position_of_clears h, Position.next, if_pos (by rw [hdot]; decide)]
  exact ⟨h.1, by dsimp only; omega⟩

theorem meets_of_preRender (h : p.scanline = preRenderScanline) : p.meets = false :=
  meets_of_scanline (by rw [h]; decide)

theorem tracked_tick (h : Tracked met raised p)
    (hsame : (tick p).state.frameCount = p.frameCount) :
    Tracked (met || p.meets) (raised + (!p.hitFlag && (tick p).state.hitFlag).toNat)
      (tick p).state := by
  have hbounded := bounded_tick h.bounded
  have hflag := hitFlag_tick p
  have hhit : (tick p).state.hit = (met || p.meets) := by
    rw [hit_tick, if_pos hsame, h.hit_eq]
  by_cases hclears : p.Clears
  -- the flag is cleared, and the note is not
  · have hmeets := meets_of_preRender hclears.1
    have hnext : (tick p).state.Cleared := cleared_of_clears hclears
    rw [decide_eq_true hclears] at hflag
    refine ⟨hbounded, hhit, ?_, fun hn => absurd hnext hn, fun _ => hflag⟩
    rw [hflag, hmeets, h.raised_eq]
    simp
  -- behind that dot nothing is visible, so that the flag stays clear
  by_cases hcleared : p.Cleared
  · have hmeets := meets_of_preRender hcleared.1
    rw [h.flag_cleared hcleared, hmeets, decide_eq_false hclears] at hflag
    refine ⟨hbounded, hhit, ?_, fun hn => absurd (cleared_tick hcleared hsame) hn, fun _ => hflag⟩
    rw [hflag, hmeets, h.raised_eq]
    simp
  -- before it the flag and the note are the same, and the dot sets both or neither
  · have hbefore : p.hitFlag = met := (h.flag_eq hcleared).trans h.hit_eq
    rw [hbefore, h.hit_eq, decide_eq_false hclears] at hflag
    have hafter : (tick p).state.hitFlag = (met || p.meets) := by
      rw [hflag]
      cases met <;> simp
    refine ⟨hbounded, hhit, ?_, fun _ => hafter.trans hhit.symm,
      fun hc => absurd (cleared_of_tick hc) (not_or.mpr ⟨hclears, hcleared⟩)⟩
    rw [hbefore, hafter, h.raised_eq]
    cases met <;> simp

theorem tracked_frame (h : Tracked met raised p)
    (hne : (tick p).state.frameCount ≠ p.frameCount) : Tracked false 0 (tick p).state := by
  have hcleared := cleared_of_frame h.bounded hne
  have hhit : (tick p).state.hit = false := by
    rw [hit_tick, if_neg hne]
  have hflag : (tick p).state.hitFlag = false := by
    rw [hitFlag_tick, h.flag_cleared hcleared, meets_of_preRender hcleared.1]
    simp
  exact ⟨bounded_tick h.bounded, hhit, rfl, fun _ => hflag.trans hhit.symm, fun _ => hflag⟩

/-- No access to a register moves the unit or changes the flags. -/
theorem registerKeeps_flags (F : Bool × Bool × Bool) (scanline dot : Nat) :
    RegisterKeeps (fun p => p.flags = F ∧ p.scanline = scanline ∧ p.dot = dot) (fun _ => True) where
  status p h := by
    have hhit : p.status &&& ~~~Status.vblank &&& Status.spriteZeroHit =
        p.status &&& Status.spriteZeroHit := Bits.and_not_and_of_disjoint _ (by decide)
    have hoverflow : p.status &&& ~~~Status.vblank &&& Status.spriteOverflow =
        p.status &&& Status.spriteOverflow := Bits.and_not_and_of_disjoint _ (by decide)
    refine ⟨?_, h.2⟩
    rw [← h.1]
    simp only [flags, hitFlag, overflowFlag, hhit, hoverflow]
  buffer _ _ h := h
  stepAddress _ h := h
  control _ _ h := h
  mask _ _ h := h
  oamAddress _ _ h := h
  oam _ _ h := h
  scroll p data h := by
    unfold writeScroll
    split <;> exact h
  address p _ h := by
    unfold writeAddress
    split <;> exact h
  readFault _ _ _ _ _ := trivial
  memory _ _ := fun _ hp => ⟨hp, fun _ _ => trivial⟩

theorem flags_of_used (h : Used p q) :
    q.flags = p.flags ∧ q.scanline = p.scanline ∧ q.dot = p.dot := by
  have hkeeps := registerKeeps_flags p.flags p.scanline p.dot
  cases h with
  | read addr => exact (hkeeps.readRegister addr p ⟨rfl, rfl, rfl⟩).1
  | write addr data => exact (hkeeps.write addr data p ⟨rfl, rfl, rfl⟩).1
  | transfer bytes => exact hkeeps.writeOamAll ⟨rfl, rfl, rfl⟩ bytes
  | takeNmi | takeFrame | insert | eject => exact ⟨rfl, rfl, rfl⟩

theorem tracked_of_scanned (h : Scanned met raised p) : Tracked met raised p := by
  induction h with
  | powerOn =>
    exact ⟨⟨by decide, by decide⟩, rfl, rfl, fun _ => rfl, fun h => absurd h.2 (by decide)⟩
  | tick _ hsame ih => exact tracked_tick ih hsame
  | frame _ hne ih => exact tracked_frame ih hne
  | use _ hused ih =>
    obtain ⟨hflags, hscanline, hdot⟩ := flags_of_used hused
    exact ih.congr hflags hscanline hdot

/-- The flag for sprite zero comes with the first dot of the frame that meets it. -/
theorem raised_iff (h : Tracked met raised p) :
    p.hitFlag = false ∧ (tick p).state.hitFlag = true ↔ (∃ x, p.Meets x) ∧ met = false := by
  rw [hitFlag_tick, h.hit_eq, ← meets_iff]
  constructor
  · rintro ⟨hclear, hset⟩
    rw [hclear, Bool.false_or, Bool.and_eq_true, Bool.and_eq_true] at hset
    exact ⟨hset.2.1, by simpa using hset.2.2⟩
  · rintro ⟨hmeets, rfl⟩
    have hpre : p.scanline ≠ preRenderScanline := by
      intro hlast
      rw [meets_of_preRender hlast] at hmeets
      cases hmeets
    have hclears : ¬p.Clears := fun hc => hpre hc.1
    have hflag : p.hitFlag = false := (h.flag_eq fun hc => hpre hc.1).trans h.hit_eq
    refine ⟨hflag, ?_⟩
    rw [hflag, hmeets, decide_eq_false hclears]
    rfl

/-- A tick sets the flag for sprite zero exactly if its dot is the first of the frame that meets it,
so that the flag is set at most once in a frame; and it sets the flag for too many sprites whenever
it finds them, and only then. Both flags are cleared by one dot of the frame and by nothing else; no
access to a register changes them. Except behind that dot, the first flag agrees with the note that
sprite zero has been hit in this frame. -/
theorem flags_of_scanned (h : Scanned met raised p) :
    (p.hitFlag = false ∧ (tick p).state.hitFlag = true ↔ (∃ x, p.Meets x) ∧ met = false) ∧
    raised = met.toNat ∧
    (p.overflowFlag = false ∧ (tick p).state.overflowFlag = true → p.Overflows) ∧
    (p.Overflows → (tick p).state.overflowFlag = true) ∧
    (p.hitFlag = true ∧ (tick p).state.hitFlag = false ∨
      p.overflowFlag = true ∧ (tick p).state.overflowFlag = false → p.Clears) ∧
    (p.Clears → (tick p).state.hitFlag = false ∧ (tick p).state.overflowFlag = false) ∧
    (∀ q, Used p q → q.hitFlag = p.hitFlag ∧ q.overflowFlag = p.overflowFlag) ∧
    (¬p.Cleared → p.hitFlag = p.hit) := by
  have htracked := tracked_of_scanned h
  refine ⟨raised_iff htracked, htracked.raised_eq, ?_, ?_, ?_, ?_, ?_, htracked.flag_eq⟩
  · rintro ⟨hclear, hset⟩
    rw [overflowFlag_tick, hclear, Bool.false_or, Bool.and_eq_true, decide_eq_true_eq] at hset
    exact hset.2
  · intro hoverflows
    have hclears : ¬p.Clears := by
      rintro ⟨-, hdot⟩
      rw [hoverflows.2.1] at hdot
      exact absurd hdot (by decide)
    rw [overflowFlag_tick, decide_eq_true hoverflows, decide_eq_false hclears, Bool.or_true]
    rfl
  · -- away from the dot that clears them both flags only gain
    intro hcleared
    by_contra hclears
    rw [hitFlag_tick, overflowFlag_tick, decide_eq_false hclears] at hcleared
    rcases hcleared with ⟨hset, hclear⟩ | ⟨hset, hclear⟩
    · rw [hset] at hclear
      cases hclear
    · rw [hset] at hclear
      cases hclear
  · intro hclears
    rw [hitFlag_tick, overflowFlag_tick, decide_eq_true hclears]
    exact ⟨rfl, rfl⟩
  · intro q hused
    obtain ⟨hflags, -, -⟩ := flags_of_used hused
    exact ⟨congrArg (·.1) hflags, congrArg (·.2.1) hflags⟩

/-- A unit that shows sprites while all of them lie on the first scanline. -/
def crowded : Picture :=
  (writeRegister 0x2001 0x10 (powerOn.insert
    (Cartridge.plain (.replicate 0x4000 0) (.replicate 0x2000 0)))).state

/-- From there the evaluation of the first scanline is reached, and it finds too many. -/
theorem flags_of_crowded : crowded.hitFlag = crowded.hit ∧
    ∃ met raised p, Scanned met raised p ∧ p.Overflows ∧ (tick p).state.overflowFlag = true := by
  have himage := Cartridge.ofImage_plainImage (.replicate 0x4000 0) (.replicate 0x2000 0)
  have hstart : Scanned false 0 crowded := .use (.use .powerOn (.insert _)) (.write _ _)
  have hahead : ∀ p, (∃ met raised, Scanned met raised p) ∧ Static crowded p ∧ Plugged p →
      ((∃ met raised, Scanned met raised (tick p).state) ∧ Static crowded (tick p).state ∧
        Plugged (tick p).state) ∧ (tick p).state.position = p.position.next := by
    rintro p ⟨⟨met, raised, hp⟩, hstatic, hplugged⟩
    refine ⟨⟨?_, hstatic.trans (static_tick p), hplugged.tick⟩, position_tick_of_plugged hplugged⟩
    by_cases hsame : (tick p).state.frameCount = p.frameCount
    · exact ⟨_, _, hp.tick hsame⟩
    · exact ⟨_, _, hp.frame hsame⟩
  have hplugged : Plugged crowded := .write _ _ (.insert himage)
  obtain ⟨p, ⟨⟨met, raised, hp⟩, hstatic, -⟩, hplace⟩ := exists_ahead hahead (p := crowded)
    ⟨⟨_, _, hstart⟩, ⟨rfl, rfl, rfl, rfl, rfl, rfl⟩, hplugged⟩ (m := 0) rfl (Nat.zero_le 65)
    (by decide)
  have hscanline : p.scanline = 0 := congrArg Position.scanline hplace
  have hdot : p.dot = 65 := congrArg Position.dot hplace
  have hoverflows : p.Overflows := by
    refine ⟨.inl (by rw [hscanline]; decide), hdot, ?_, ?_⟩
    · rw [hstatic.mask]
      rfl
    · have hoam : crowded.oam = .replicate 256 0 := rfl
      have hctrl : crowded.ctrl = 0 := rfl
      rw [hstatic.oam, hstatic.ctrl, hscanline, hoam, hctrl]
      decide +kernel
  have hagree : crowded.hitFlag = crowded.hit :=
    (flags_of_scanned hstart).2.2.2.2.2.2.2 fun h => absurd h.2 (by decide)
  exact ⟨hagree, met, raised, p, hp, hoverflows, (flags_of_scanned hp).2.2.2.1 hoverflows⟩

end Famicom.Picture
