import Famicom.Proofs.Picture.Flags

/-! What the past of a unit decides: the place at which it stands by the ticks that went through,
the flag of the vertical blank and the frame to be taken by what happened last. -/

namespace Famicom.Picture

open Famicom.Action

/-- What can be done to a unit. -/
inductive Operation
  | tick
  | read (addr : UInt16)
  | write (addr : UInt16) (data : UInt8)
  | transfer (bytes : List UInt8)
  | takeNmi
  | takeFrame
  | insert (c : Cartridge)
  | eject

/-- The unit that an operation leaves, whether it fails or not. -/
def Operation.apply : Operation → Picture → Picture
  | tick, p => (Picture.tick p).state
  | read addr, p => (readRegister addr p).state
  | write addr data, p => (writeRegister addr data p).state
  | transfer bytes, p => p.writeOamAll bytes
  | takeNmi, p => (Picture.takeNmi (ε := Bus.Fault) p).state
  | takeFrame, p => (Picture.takeFrame (ε := Bus.Fault) p).state
  | insert c, p => p.insert c
  | eject, p => p.eject

/-- An operation with the unit that it met. -/
structure Moment where
  before : Picture
  operation : Operation

/-- The units that can be come to from power on, each with its past, the last moment first. -/
inductive Ran : List Moment → Picture → Prop
  | powerOn : Ran [] powerOn
  | operate {past : List Moment} {p : Picture} (o : Operation) :
      Ran past p → Ran (⟨p, o⟩ :: past) (o.apply p)

/-- A frame is there to be taken. -/
def GivesFrame (p : Picture) : Prop :=
  ∃ pixels, (takeFrame (ε := Bus.Fault) p).answer = .ok (some pixels)

/-- Whether the status says that the vertical blank has begun. -/
def blankFlag (p : Picture) : Bool := p.status &&& Status.vblank != 0

/-- The dot that sets the flag of the vertical blank. -/
def Blanks (p : Picture) : Prop := p.scanline = vblankScanline ∧ p.dot = 1

instance (p : Picture) : Decidable p.Blanks := inferInstanceAs (Decidable (_ ∧ _))

namespace Moment

def after (m : Moment) : Picture := m.operation.apply m.before

/-- A tick that does not fail. -/
def ticked (m : Moment) : Bool :=
  match m.operation with
  | .tick => (tick m.before).answer.isOk
  | _ => false

/-- A read of the status. -/
def ReadsStatus (m : Moment) : Prop := ∃ addr, m.operation = .read addr ∧ registerAt addr = 0x2002

def StartsBlank (m : Moment) : Prop := m.ticked = true ∧ m.before.Blanks

def EndsBlank (m : Moment) : Prop := m.ticked = true ∧ m.before.Clears ∨ m.ReadsStatus

/-- A tick that completes a frame. -/
def Completes (m : Moment) : Prop :=
  m.ticked = true ∧ m.after.frameCount = m.before.frameCount + 1

/-- A frame is given away. -/
def TakesFrame (m : Moment) : Prop := m.operation = .takeFrame ∧ m.before.GivesFrame

end Moment

/-- One of the `starts` lies in the past, and none of the `ends` came after it. -/
def Since (starts ends : Moment → Prop) (past : List Moment) : Prop :=
  ∃ late m early, past = late ++ m :: early ∧ starts m ∧ ∀ l ∈ late, ¬ends l

/-- The ticks of the past that did not fail. -/
def ticks (past : List Moment) : Nat := past.countP Moment.ticked

/-- The frames completed in `k` dots; of every two the second is one dot shorter. -/
def framesAfter (k : Nat) : Nat := 2 * (k / 178683) + if 89342 ≤ k % 178683 then 1 else 0

/-- The dots from the first place of its frame to the place reached in `k` dots. -/
def placeAfter (k : Nat) : Nat :=
  if k % 178683 < 89342 then k % 178683 else k % 178683 - 89341

variable {starts ends : Moment → Prop} {past : List Moment} {m : Moment} {p : Picture}

/-- What happens now decides, or else what was so before. -/
theorem since_cons :
    Since starts ends (m :: past) ↔ starts m ∨ ¬ends m ∧ Since starts ends past := by
  constructor
  · rintro ⟨late, l, early, heq, hstarts, hlate⟩
    rcases List.cons_eq_append_iff.mp heq with ⟨rfl, hhead⟩ | ⟨rest, rfl, rfl⟩
    · cases hhead
      exact .inl hstarts
    · exact .inr ⟨hlate m List.mem_cons_self, rest, l, early, rfl, hstarts,
        fun l hl => hlate l (List.mem_cons_of_mem _ hl)⟩
  · rintro (hstarts | ⟨hends, late, l, early, rfl, hstarts, hlate⟩)
    · exact ⟨[], m, past, rfl, hstarts, fun l hl => by cases hl⟩
    · refine ⟨m :: late, l, early, rfl, hstarts, ?_⟩
      intro k hk
      rcases List.mem_cons.mp hk with rfl | hk
      · exact hends
      · exact hlate k hk

theorem not_since_nil : ¬Since starts ends [] := by
  rintro ⟨late, m, early, heq, -⟩
  exact absurd heq.symm (List.append_ne_nil_of_right_ne_nil _ (List.cons_ne_nil _ _))

/-- A moment of neither kind changes nothing. -/
theorem since_of_neither (hs : ¬starts m) (he : ¬ends m) :
    Since starts ends (m :: past) ↔ Since starts ends past := by
  rw [since_cons, or_iff_right hs, and_iff_right he]

theorem givesFrame_iff (p : Picture) : p.GivesFrame ↔ p.frameReady = true := by
  simp [GivesFrame, takeFrame]

/-! The flag of the vertical blank. -/

/-- Drawing leaves the flag alone. -/
theorem drawKeeps_blankFlag (b : Bool) :
    DrawKeeps (fun p => p.blankFlag = b) (fun _ => True) where
  nextTile _ h := h
  nextLine _ h := h
  copyHorizontal _ h := h
  copyVertical _ h := h
  pipeline _ _ _ h := h
  found _ h := h
  noSprites _ h := h
  blank _ h := h
  line _ _ h _ := h
  pixel _ _ _ h := h
  noteHit p h := by
    have hkept : (p.status ||| Status.spriteZeroHit) &&& Status.vblank =
        p.status &&& Status.vblank := Bits.or_and_of_disjoint _ (by decide)
    unfold noteHit
    split
    · exact h
    · rw [← h, blankFlag, hkept]
      rfl
  overflow p h := by
    have hkept : (p.status ||| Status.spriteOverflow) &&& Status.vblank =
        p.status &&& Status.vblank := Bits.or_and_of_disjoint _ (by decide)
    rw [← h, blankFlag, hkept]
    rfl
  lowFault _ _ _ _ := trivial
  highFault _ _ _ _ := trivial
  lineFault _ _ _ _ := trivial

theorem blankFlag_vblankDot (p : Picture) :
    p.vblankDot.blankFlag = (decide (p.dot = 1) || p.blankFlag) := by
  have hset : (p.status ||| Status.vblank) &&& Status.vblank = Status.vblank := Bits.or_and_self _ _
  unfold vblankDot
  by_cases hdot : p.dot = 1
  · rw [if_pos hdot, decide_eq_true hdot, blankFlag, hset]
    rfl
  · rw [if_neg hdot, decide_eq_false hdot]
    split <;> rfl

theorem blankFlag_clearStatus (p : Picture) : p.clearStatus.blankFlag = false := by
  have hclear : ~~~(Status.vblank ||| Status.spriteZeroHit ||| Status.spriteOverflow) &&&
      Status.vblank = 0 := by decide
  simp only [blankFlag, clearStatus, UInt8.and_assoc, hclear, UInt8.and_zero]
  rfl

/-- One dot of a frame sets the flag and one clears it, whether they fail or not. -/
theorem blankFlag_drawDot (p : Picture) :
    (drawDot p).state.blankFlag = (decide p.Blanks || !decide p.Clears && p.blankFlag) := by
  -- on the visible scanlines the flag stays, before them it is cleared, behind them it is set
  by_cases hvisible : p.scanline < height
  · have hblanks : ¬p.Blanks := fun h => absurd (h.1 ▸ hvisible) (by decide)
    have hclears : ¬p.Clears := fun h => absurd (h.1 ▸ hvisible) (by decide)
    rw [decide_eq_false hblanks, decide_eq_false hclears]
    unfold drawDot
    rw [view_bind, Action.ite_apply, if_pos hvisible]
    exact ((drawKeeps_blankFlag _).visibleDot p rfl).1
  by_cases hlast : p.scanline = preRenderScanline
  · have hblanks : ¬p.Blanks := fun h => absurd (hlast.symm.trans h.1) (by decide)
    have hdraw : ∀ b, Keeps (fun p : Picture => p.blankFlag = b) (fun _ => True)
        (if p.dot = evaluationDot then evaluateSprites >>= fun _ => drawHidden
        else drawHidden) := by
      intro b
      have hhidden : Keeps (fun p : Picture => p.blankFlag = b) (fun _ => True) drawHidden := by
        apply keeps_bind (keeps_view _)
        intro rendering
        exact keeps_ite (fun _ => (drawKeeps_blankFlag b).renderDot false) fun _ => keeps_pure _
      apply keeps_ite _ fun _ => hhidden
      exact fun _ => keeps_bind (drawKeeps_blankFlag b).evaluateSprites fun _ => hhidden
    rw [drawDot_of_preRender hlast, decide_eq_false hblanks, Bool.false_or, (hdraw _ _ rfl).1]
    by_cases hdot : p.dot = 1
    · rw [if_pos hdot, decide_eq_true ⟨hlast, hdot⟩, blankFlag_clearStatus]
      rfl
    · rw [if_neg hdot, decide_eq_false fun h => hdot h.2]
      rfl
  · have hclears : ¬p.Clears := fun h => hlast h.1
    rw [drawDot_of_blank (not_or.mpr ⟨hvisible, hlast⟩), decide_eq_false hclears, Bool.not_false,
      Bool.true_and]
    dsimp only
    by_cases hblank : p.scanline = vblankScanline
    · have hblanks : p.Blanks ↔ p.dot = 1 := and_iff_right hblank
      rw [if_pos hblank, blankFlag_vblankDot, decide_eq_decide.mpr hblanks]
    · rw [if_neg hblank, decide_eq_false fun h => hblank h.1]
      rfl

theorem blankFlag_tick (p : Picture) :
    (tick p).state.blankFlag = (decide p.Blanks || !decide p.Clears && p.blankFlag) := by
  rw [tick_eq_drawDot (f := blankFlag) fun _ _ _ => rfl]
  exact blankFlag_drawDot p

/-! The place of a unit. -/

/-- A tick goes on if it does not fail, and a tick that fails stays. -/
theorem tick_cases (p : Picture) :
    (tick p).answer.isOk = true ∧ (tick p).state.position = p.position.next ∨
      (tick p).answer.isOk = false ∧ (tick p).state.position = p.position := by
  rcases hq : drawDot p with ⟨e | _, q, es⟩
  · have hplace : q.position = p.position := by
      rw [← (static_drawDot p).2, hq]
    right
    unfold tick
    rw [bind_of_error hq]
    exact ⟨rfl, hplace⟩
  · obtain ⟨hit, es', htick⟩ := tick_of_drawDot hq
    left
    rw [htick]
    exact ⟨rfl, rfl⟩

theorem Position.next_ne (x : Position) : x.next ≠ x := by
  intro heq
  have hdot := congrArg Position.dot heq
  have hscanline := congrArg Position.scanline heq
  have hcount := congrArg Position.frameCount heq
  unfold next at hdot hscanline hcount
  split at hdot
  · exact Nat.succ_ne_self _ hdot
  rw [if_neg ‹_›] at hscanline hcount
  split at hscanline
  · exact Nat.succ_ne_self _ hscanline
  · rw [if_neg ‹_›] at hcount
    exact Nat.succ_ne_self _ hcount

/-- The dots since power on decide the place and the frames. -/
theorem Position.place_of_elapsed {x : Position} {k : Nat} (hx : x.Bounded) (hr : x.Regular)
    (hk : x.elapsed = k) : x.frameCount = framesAfter k ∧ x.scanline = placeAfter k / 341 ∧
      x.dot = placeAfter k % 341 := by
  obtain ⟨hscanline, hdot⟩ := hx
  have hpos := hr.dot_pos
  unfold elapsed dotsPerScanline scanlinesPerFrame at *
  have hquotient : k / 178683 = x.frameCount / 2 := by omega
  have hrest : k % 178683 = 89341 * (x.frameCount % 2) + 341 * x.scanline + x.dot := by omega
  unfold framesAfter placeAfter
  rw [hquotient, hrest]
  -- a short frame starts at its second dot, which is what keeps the two cases apart
  rcases Nat.mod_two_eq_zero_or_one x.frameCount with heven | hodd
  · rw [heven, if_neg (by omega), if_pos (by omega)]
    omega
  · have hstart := hpos hodd
    rw [hodd, if_pos (by omega), if_neg (by omega)]
    omega

/-- A step either completes a frame or leaves both the count and the note of one alone. -/
theorem Position.frame_next (x : Position) :
    x.next.frameReady = true ∧ x.next.frameCount = x.frameCount + 1 ∨
      x.next.frameReady = x.frameReady ∧ x.next.frameCount = x.frameCount := by
  unfold next
  split
  · exact .inr ⟨rfl, rfl⟩
  split
  · exact .inr ⟨rfl, rfl⟩
  · exact .inl ⟨rfl, rfl⟩

/-- Neither of the dots that change the flag can fail. -/
theorem isOk_of_changes (h : p.Blanks ∨ p.Clears) : (tick p).answer.isOk = true := by
  have hnext : (tick p).state.position = p.position.next := by
    rcases h with hblanks | hclears
    · have hruns : ¬Runs p.scanline := by
        rw [hblanks.1]
        unfold Runs
        decide
      obtain ⟨hit, es, htick⟩ := tick_of_drawDot (drawDot_of_blank hruns)
      rw [htick]
      rfl
    · exact position_of_clears hclears
  rcases tick_cases p with ⟨hok, -⟩ | ⟨-, hsame⟩
  · exact hok
  · exact absurd (hnext.symm.trans hsame) (Position.next_ne _)

/-! What one operation adds to the past. -/

/-- What a past says of the unit that it leads to. -/
structure Recorded (past : List Moment) (p : Picture) : Prop where
  bounded : p.position.Bounded
  regular : p.position.Regular
  elapsed_eq : p.position.elapsed = ticks past
  blank_iff : p.blankFlag = true ↔ Since Moment.StartsBlank Moment.EndsBlank past
  ready_iff : p.frameReady = true ↔ Since Moment.Completes Moment.TakesFrame past

theorem ticks_of_ticked (h : m.ticked = true) : ticks (m :: past) = ticks past + 1 :=
  List.countP_cons_of_pos h

theorem ticks_of_not_ticked (h : m.ticked = false) : ticks (m :: past) = ticks past :=
  List.countP_cons_of_neg (by rw [h]; exact Bool.false_ne_true)

theorem not_readsStatus_tick (p : Picture) : ¬Moment.ReadsStatus ⟨p, .tick⟩ := by
  rintro ⟨addr, heq, -⟩
  cases heq

theorem not_takesFrame_tick (p : Picture) : ¬Moment.TakesFrame ⟨p, .tick⟩ := by
  rintro ⟨heq, -⟩
  cases heq

/-- A tick that goes through. -/
theorem recorded_of_isOk (h : Recorded past p) (hok : (tick p).answer.isOk = true)
    (hnext : (tick p).state.position = p.position.next) :
    Recorded (⟨p, .tick⟩ :: past) (tick p).state := by
  have hticked : Moment.ticked ⟨p, .tick⟩ = true := hok
  have hstarts : Moment.StartsBlank ⟨p, .tick⟩ ↔ p.Blanks := and_iff_right hticked
  have hends : Moment.EndsBlank ⟨p, .tick⟩ ↔ p.Clears := by
    unfold Moment.EndsBlank
    rw [or_iff_left (not_readsStatus_tick p), and_iff_right hticked]
  have hready : (tick p).state.frameReady = p.position.next.frameReady :=
    congrArg Position.frameReady hnext
  have hcount : Moment.Completes ⟨p, .tick⟩ ↔ p.position.next.frameCount = p.frameCount + 1 := by
    unfold Moment.Completes
    rw [and_iff_right hticked, ← hnext]
    rfl
  constructor
  · rw [hnext]
    exact Position.bounded_next h.bounded
  · rw [hnext]
    exact Position.regular_next h.regular
  · rw [hnext, Position.elapsed_next h.bounded h.regular, h.elapsed_eq, ticks_of_ticked hticked]
  · rw [blankFlag_tick, since_cons, hstarts, hends, ← h.blank_iff]
    simp
  · rw [hready, since_cons, hcount, and_iff_right (not_takesFrame_tick p), ← h.ready_iff]
    rcases p.position.frame_next with ⟨hset, hone⟩ | ⟨hkept, hsame⟩
    · exact iff_of_true hset (.inl hone)
    · have hfew : p.position.next.frameCount ≠ p.frameCount + 1 :=
        hsame ▸ (Nat.succ_ne_self p.frameCount).symm
      rw [hkept, or_iff_right hfew]
      rfl

/-- A tick that fails counts for nothing. -/
theorem recorded_of_not_isOk (h : Recorded past p) (hfail : (tick p).answer.isOk = false)
    (hsame : (tick p).state.position = p.position) :
    Recorded (⟨p, .tick⟩ :: past) (tick p).state := by
  have hticked : Moment.ticked ⟨p, .tick⟩ = false := hfail
  have hquiet : ¬Moment.ticked ⟨p, .tick⟩ = true := by
    rw [hticked]
    exact Bool.false_ne_true
  -- the dots that change the flag do not fail
  have hstays : ¬(p.Blanks ∨ p.Clears) := fun hc => hquiet (isOk_of_changes hc)
  obtain ⟨hblanks, hclears⟩ := not_or.mp hstays
  have hstarts : ¬Moment.StartsBlank ⟨p, .tick⟩ := fun hs => hquiet hs.1
  have hends : ¬Moment.EndsBlank ⟨p, .tick⟩ := by
    rintro (he | he)
    · exact hquiet he.1
    · exact not_readsStatus_tick p he
  have hcompletes : ¬Moment.Completes ⟨p, .tick⟩ := fun hc => hquiet hc.1
  have hready : (tick p).state.frameReady = p.frameReady := congrArg Position.frameReady hsame
  constructor
  · rw [hsame]
    exact h.bounded
  · rw [hsame]
    exact h.regular
  · rw [hsame, h.elapsed_eq, ticks_of_not_ticked hticked]
  · rw [blankFlag_tick, decide_eq_false hblanks, decide_eq_false hclears,
      since_of_neither hstarts hends]
    exact h.blank_iff
  · rw [hready, since_of_neither hcompletes (not_takesFrame_tick p)]
    exact h.ready_iff

/-- An access to a register leaves the place alone, and the status too unless it reads it. -/
theorem quietKeeps_place (x : Position) (status : UInt8) :
    QuietKeeps (fun p => p.position = x ∧ p.status = status) (fun _ => True) where
  buffer _ _ h := h
  stepAddress _ h := h
  mask _ _ h := h
  oamAddress _ _ h := h
  oam _ _ h := h
  scroll p data h := by
    unfold writeScroll
    split <;> exact h
  address p data h := by
    unfold writeAddress
    split <;> exact h
  readFault _ _ _ _ _ := trivial
  memory _ _ := fun _ hp => ⟨hp, fun _ _ => trivial⟩

/-- Of what is done between the ticks, only the taking of a frame and a read of the status count. -/
theorem apply_of_quiet {o : Operation} (htick : o ≠ .tick) (hframe : o ≠ .takeFrame)
    (hstatus : ¬Moment.ReadsStatus ⟨p, o⟩) :
    (o.apply p).position = p.position ∧ (o.apply p).status = p.status := by
  have hkeeps := quietKeeps_place p.position p.status
  cases o with
  | tick => exact absurd rfl htick
  | takeFrame => exact absurd rfl hframe
  | read addr =>
    have hother : registerAt addr ≠ 0x2002 := fun heq => hstatus ⟨addr, rfl, heq⟩
    exact (hkeeps.readRegister addr (fun heq => absurd heq hother) p ⟨rfl, rfl⟩).1
  | write addr data =>
    exact (hkeeps.writeRegister addr data (fun _ _ hq => hq) p ⟨rfl, rfl⟩).1
  | transfer bytes => exact hkeeps.writeOamAll ⟨rfl, rfl⟩ bytes
  | takeNmi | insert | eject => exact ⟨rfl, rfl⟩

theorem not_ticked_of_ne {o : Operation} (h : o ≠ .tick) : Moment.ticked ⟨p, o⟩ = false := by
  cases o with
  | tick => exact absurd rfl h
  | read | write | transfer | takeNmi | takeFrame | insert | eject => rfl

/-- An operation other than a tick moves nothing; what it does to the flag and to the note of a
frame is left to show. -/
theorem Recorded.still (h : Recorded past p) {o : Operation} (htick : o ≠ .tick)
    (hplace : { (o.apply p).position with frameReady := p.frameReady } = p.position)
    (hblank : (o.apply p).blankFlag = true ↔ ¬Moment.ReadsStatus ⟨p, o⟩ ∧ p.blankFlag = true)
    (hready : (o.apply p).frameReady = true ↔
      ¬Moment.TakesFrame ⟨p, o⟩ ∧ p.frameReady = true) :
    Recorded (⟨p, o⟩ :: past) (o.apply p) := by
  have hticked : Moment.ticked ⟨p, o⟩ = false := not_ticked_of_ne htick
  have hquiet : ¬Moment.ticked ⟨p, o⟩ = true := by
    rw [hticked]
    exact Bool.false_ne_true
  have hstarts : ¬Moment.StartsBlank ⟨p, o⟩ := fun hs => hquiet hs.1
  have hends : Moment.EndsBlank ⟨p, o⟩ ↔ Moment.ReadsStatus ⟨p, o⟩ :=
    or_iff_right fun he => hquiet he.1
  have hcompletes : ¬Moment.Completes ⟨p, o⟩ := fun hc => hquiet hc.1
  obtain ⟨hbounded, hregular, helapsed, hblank', hready'⟩ := h
  rw [← hplace] at hbounded hregular helapsed
  constructor
  · exact ⟨hbounded.scanline_lt, hbounded.dot_lt⟩
  · exact ⟨hregular.oddFrame_eq, hregular.dot_pos⟩
  · rw [ticks_of_not_ticked hticked]
    exact helapsed
  · rw [hblank, since_cons, or_iff_right hstarts, hends, hblank']
  · rw [hready, since_cons, or_iff_right hcompletes, hready']

theorem recorded_readStatus (h : Recorded past p) {addr : UInt16}
    (haddr : registerAt addr = 0x2002) :
    Recorded (⟨p, .read addr⟩ :: past) (readRegister addr p).state := by
  have hread : readRegister addr p = readStatus p := by
    unfold readRegister
    rw [haddr]
    rfl
  have hclear : p.status &&& ~~~Status.vblank &&& Status.vblank = 0 := by
    rw [UInt8.and_assoc, show ~~~Status.vblank &&& Status.vblank = 0 by decide, UInt8.and_zero]
  have hreads : Moment.ReadsStatus ⟨p, .read addr⟩ := ⟨addr, rfl, haddr⟩
  have hblank : (readRegister addr p).state.blankFlag = false := by
    rw [hread]
    simp [blankFlag, readStatus, hclear]
  apply h.still (o := .read addr) (by simp)
  · change ({ (readRegister addr p).state.position with frameReady := p.frameReady } : Position) = _
    rw [hread]
    rfl
  · change (readRegister addr p).state.blankFlag = true ↔ _
    rw [hblank]
    exact iff_of_false Bool.false_ne_true fun hn => hn.1 hreads
  · have htakes : ¬Moment.TakesFrame ⟨p, .read addr⟩ := by
      rintro ⟨heq, -⟩
      cases heq
    change (readRegister addr p).state.frameReady = true ↔ _
    rw [hread, and_iff_right htakes]
    rfl

theorem recorded_takeFrame (h : Recorded past p) :
    Recorded (⟨p, .takeFrame⟩ :: past) (Operation.takeFrame.apply p) := by
  have hreads : ¬Moment.ReadsStatus ⟨p, .takeFrame⟩ := by
    rintro ⟨addr, heq, -⟩
    cases heq
  have htakes : Moment.TakesFrame ⟨p, .takeFrame⟩ ↔ p.frameReady = true := by
    unfold Moment.TakesFrame
    rw [and_iff_right rfl, givesFrame_iff]
  apply h.still (by simp) rfl
  · rw [and_iff_right hreads]
    rfl
  · rw [htakes]
    -- nothing is left to take, whether there was something or not
    exact iff_of_false Bool.false_ne_true fun hn => hn.1 hn.2

theorem recorded_quiet (h : Recorded past p) {o : Operation} (htick : o ≠ .tick)
    (hframe : o ≠ .takeFrame) (hstatus : ¬Moment.ReadsStatus ⟨p, o⟩) :
    Recorded (⟨p, o⟩ :: past) (o.apply p) := by
  obtain ⟨hplace, hkept⟩ := apply_of_quiet htick hframe hstatus
  have htakes : ¬Moment.TakesFrame ⟨p, o⟩ := fun ht => hframe ht.1
  apply h.still htick
  · rw [hplace]
    rfl
  · rw [and_iff_right hstatus, blankFlag, hkept]
    rfl
  · rw [and_iff_right htakes, show (o.apply p).frameReady = p.frameReady from
      congrArg Position.frameReady hplace]

theorem recorded_operate (h : Recorded past p) (o : Operation) :
    Recorded (⟨p, o⟩ :: past) (o.apply p) := by
  by_cases hstatus : Moment.ReadsStatus ⟨p, o⟩
  · obtain ⟨addr, rfl, haddr⟩ := hstatus
    exact recorded_readStatus h haddr
  by_cases htick : o = .tick
  · subst htick
    rcases tick_cases p with ⟨hok, hnext⟩ | ⟨hfail, hsame⟩
    · exact recorded_of_isOk h hok hnext
    · exact recorded_of_not_isOk h hfail hsame
  by_cases hframe : o = .takeFrame
  · subst hframe
    exact recorded_takeFrame h
  · exact recorded_quiet h htick hframe hstatus

theorem recorded_powerOn : Recorded [] powerOn where
  bounded := ⟨by decide, by decide⟩
  regular := ⟨rfl, fun h => by cases h⟩
  elapsed_eq := rfl
  blank_iff := iff_of_false (by decide) not_since_nil
  ready_iff := iff_of_false (by decide) not_since_nil

/-- Whatever a run consists of, it keeps the record. -/
theorem recorded_of_ran (h : Ran past p) : Recorded past p := by
  induction h with
  | powerOn => exact recorded_powerOn
  | operate o _ ih => exact recorded_operate ih o

/-- Whatever is done to a unit, its place and its frames are those of the ticks that went through,
and a tick that fails leaves them alone. The flag of the vertical blank is set exactly while the dot
that sets it lies behind and neither the dot that clears it nor a read of the status has come since,
and a frame is there to be taken exactly if one was completed since the last was taken. -/
theorem clock_of_ran (h : Ran past p) :
    (p.frameCount = framesAfter (ticks past) ∧ p.scanline = placeAfter (ticks past) / 341 ∧
      p.dot = placeAfter (ticks past) % 341) ∧
    (∀ e, (tick p).answer = .error e → (tick p).state.scanline = p.scanline ∧
      (tick p).state.dot = p.dot ∧ (tick p).state.frameCount = p.frameCount) ∧
    (p.blankFlag = true ↔ Since Moment.StartsBlank Moment.EndsBlank past) ∧
    (p.GivesFrame ↔ Since Moment.Completes Moment.TakesFrame past) := by
  have hrecorded := recorded_of_ran h
  refine ⟨?_, ?_, hrecorded.blank_iff, (givesFrame_iff p).trans hrecorded.ready_iff⟩
  · exact Position.place_of_elapsed hrecorded.bounded hrecorded.regular hrecorded.elapsed_eq
  · intro e he
    rcases tick_cases p with ⟨hok, -⟩ | ⟨-, hsame⟩
    · rw [he] at hok
      cases hok
    · exact ⟨congrArg Position.scanline hsame, congrArg Position.dot hsame,
        congrArg Position.frameCount hsame⟩

/-- With a cartridge in the slot a run comes to every place of the first frame. -/
theorem exists_ran {n : Nat} (hn : n < 89342) :
    ∃ past p, Ran past p ∧ Plugged p ∧ p.position = ⟨n / 341, n % 341, false, 0, false⟩ := by
  have himage := Cartridge.ofImage_plainImage (.replicate 0x4000 0) (.replicate 0x2000 0)
  have hahead : ∀ p, (∃ past, Ran past p) ∧ Plugged p →
      ((∃ past, Ran past (tick p).state) ∧ Plugged (tick p).state) ∧
        (tick p).state.position = p.position.next := by
    rintro p ⟨⟨past, hp⟩, hplugged⟩
    exact ⟨⟨⟨_, hp.operate .tick⟩, hplugged.tick⟩, position_tick_of_plugged hplugged⟩
  obtain ⟨p, ⟨⟨past, hp⟩, hplugged⟩, hplace⟩ := exists_ahead hahead
    ⟨⟨_, Ran.powerOn.operate (.insert _)⟩, .insert himage⟩ (m := 0) rfl (Nat.zero_le n) hn
  exact ⟨past, p, hp, hplugged, hplace⟩

/-- The flag is set at the start of the blank, and a read clears it; the first frame takes all of
its dots, and it can be taken once. -/
theorem clock_of_first : (∃ past p, Ran past p ∧ p.Blanks ∧ (tick p).state.blankFlag = true ∧
      (readRegister 0x2002 (tick p).state).state.blankFlag = false) ∧
    ∃ past p, Ran past p ∧ ticks past = 89342 ∧ p.frameCount = 1 ∧ p.dot = 1 ∧ p.GivesFrame ∧
      ¬(takeFrame (ε := Bus.Fault) p).state.GivesFrame := by
  constructor
  · obtain ⟨past, p, hp, hplugged, hplace⟩ := exists_ran (n := 241 * 341 + 1) (by decide)
    have hblanks : p.Blanks :=
      ⟨congrArg Position.scanline hplace, congrArg Position.dot hplace⟩
    have hticked : Moment.ticked ⟨p, .tick⟩ = true := isOk_of_changes (.inl hblanks)
    have hran := hp.operate .tick
    -- the read is the last that happened, so that nothing has come since
    have hread : Moment.EndsBlank ⟨(tick p).state, .read 0x2002⟩ := .inr ⟨0x2002, rfl, by decide⟩
    have hnever : ¬Moment.StartsBlank ⟨(tick p).state, .read 0x2002⟩ :=
      fun hs => Bool.false_ne_true hs.1
    refine ⟨past, p, hp, hblanks, ?_, ?_⟩
    · exact (clock_of_ran hran).2.2.1.mpr (since_cons.mpr (.inl ⟨hticked, hblanks⟩))
    · rw [← Bool.not_eq_true]
      intro hflag
      have hsince := (clock_of_ran (hran.operate (.read 0x2002))).2.2.1.mp hflag
      rcases since_cons.mp hsince with hstarts | ⟨hends, -⟩
      · exact hnever hstarts
      · exact hends hread
  · obtain ⟨past, p, hp, hplugged, hplace⟩ := exists_ran (n := 89341) (by decide)
    have hnext := position_tick_of_plugged hplugged
    rw [hplace] at hnext
    have hran := hp.operate .tick
    -- the dots of the record are those of the place, which is the first of the second frame
    have hticks : ticks (⟨p, .tick⟩ :: past) = 89342 := by
      rw [← (recorded_of_ran hran).elapsed_eq]
      change (tick p).state.position.elapsed = 89342
      rw [hnext]
      rfl
    obtain ⟨⟨hcount, -, hdot⟩, -⟩ := clock_of_ran hran
    rw [hticks] at hcount hdot
    have hready : (tick p).state.GivesFrame :=
      (givesFrame_iff _).mpr (congrArg Position.frameReady hnext)
    refine ⟨_, _, hran, hticks, hcount, hdot, hready, ?_⟩
    rw [givesFrame_iff]
    exact Bool.false_ne_true

end Famicom.Picture
