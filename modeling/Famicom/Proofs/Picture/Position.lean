import Famicom.Proofs.Picture.Dot

/-! The places of a frame, in the order in which the dots go through them. -/

namespace Famicom.Picture

open Famicom.Action

/-- Where the picture unit stands in the course of its frames. -/
structure Position where
  scanline : Nat
  dot : Nat
  oddFrame : Bool
  frameCount : Nat
  frameReady : Bool

def position (p : Picture) : Position :=
  ⟨p.scanline, p.dot, p.oddFrame, p.frameCount, p.frameReady⟩

/-- The place of the next dot; an odd frame leaves out the first dot of the next one. -/
def Position.next (x : Position) : Position :=
  if x.dot + 1 < dotsPerScanline then { x with dot := x.dot + 1 }
  else if x.scanline + 1 < scanlinesPerFrame then
    { x with dot := 0, scanline := x.scanline + 1 }
  else
    { dot := if x.oddFrame then 0 else 1
      scanline := 0
      oddFrame := !x.oddFrame
      frameCount := x.frameCount + 1
      frameReady := true }

namespace Position

variable {x : Position}

structure Bounded (x : Position) : Prop where
  scanline_lt : x.scanline < scanlinesPerFrame
  dot_lt : x.dot < dotsPerScanline

/-- The dots until the current frame is complete. -/
def left (x : Position) : Nat :=
  dotsPerScanline * scanlinesPerFrame - (dotsPerScanline * x.scanline + x.dot)

theorem left_le (x : Position) : x.left ≤ 89342 := by
  unfold left dotsPerScanline scanlinesPerFrame
  omega

theorem bounded_next (h : x.Bounded) : x.next.Bounded := by
  unfold next
  split
  · exact ⟨h.scanline_lt, ‹_›⟩
  split
  · exact ⟨‹_›, Nat.succ_pos _⟩
  · refine ⟨Nat.succ_pos _, ?_⟩
    dsimp only [dotsPerScanline]
    split <;> omega

/-- The dots of a frame, counted from its first place. -/
theorem next_of_count {n : Nat} (h : n + 1 < 89342) (oddFrame : Bool) (frameCount : Nat)
    (frameReady : Bool) :
    next ⟨n / 341, n % 341, oddFrame, frameCount, frameReady⟩ =
      ⟨(n + 1) / 341, (n + 1) % 341, oddFrame, frameCount, frameReady⟩ := by
  unfold next dotsPerScanline scanlinesPerFrame
  dsimp only
  by_cases hdot : n % 341 + 1 < 341
  · rw [if_pos hdot, show (n + 1) / 341 = n / 341 by omega,
      show (n + 1) % 341 = n % 341 + 1 by omega]
  · rw [if_neg hdot, if_pos (by omega), show (n + 1) / 341 = n / 341 + 1 by omega,
      show (n + 1) % 341 = 0 by omega]

/-- Before its last dot a frame goes on. -/
theorem next_of_left (hx : x.Bounded) (h : 1 < x.left) :
    x.next.left + 1 = x.left ∧ x.next.frameReady = x.frameReady ∧
      x.next.frameCount = x.frameCount := by
  obtain ⟨hscanline, hdot⟩ := hx
  unfold left next dotsPerScanline scanlinesPerFrame at *
  split
  · refine ⟨?_, rfl, rfl⟩
    dsimp only
    omega
  split
  · refine ⟨?_, rfl, rfl⟩
    dsimp only
    omega
  · omega

/-- Its last dot completes a frame. -/
theorem next_of_last (hx : x.Bounded) (h : x.left ≤ 1) :
    x.next.frameReady = true ∧ x.next.frameCount = x.frameCount + 1 ∧ 89341 ≤ x.next.left := by
  obtain ⟨hscanline, hdot⟩ := hx
  unfold left next dotsPerScanline scanlinesPerFrame at *
  split
  · omega
  split
  · omega
  · refine ⟨rfl, rfl, ?_⟩
    dsimp only
    split <;> omega

theorem left_of_wrap (hdot : ¬x.dot + 1 < dotsPerScanline)
    (hscanline : ¬x.scanline + 1 < scanlinesPerFrame) : x.left ≤ 1 := by
  unfold left dotsPerScanline scanlinesPerFrame at *
  omega

/-- A new frame starts on the first scanline, at its first dot or its second. -/
theorem start_of_last (hx : x.Bounded) (h : x.left ≤ 1) :
    x.scanline = preRenderScanline ∧ x.next.scanline = 0 ∧ x.next.dot ≤ 1 := by
  obtain ⟨hscanline, hdot⟩ := hx
  unfold left next dotsPerScanline scanlinesPerFrame preRenderScanline at *
  split
  · omega
  split
  · omega
  · refine ⟨by omega, rfl, ?_⟩
    dsimp only
    split <;> decide

/-- The dots of `n` frames from power on; every second frame is one dot shorter. -/
def dotsOf (n : Nat) : Nat := 89342 * ((n + 1) / 2) + 89341 * (n / 2)

/-- The dots since power on. -/
def elapsed (x : Position) : Nat :=
  178683 * (x.frameCount / 2) + 89341 * (x.frameCount % 2) + dotsPerScanline * x.scanline + x.dot

/-- The frames take turns in their length, and a short one lacks its first dot. -/
structure Regular (x : Position) : Prop where
  oddFrame_eq : x.oddFrame = decide (x.frameCount % 2 = 1)
  dot_pos : x.frameCount % 2 = 1 → x.scanline = 0 → 0 < x.dot

theorem regular_next (h : x.Regular) : x.next.Regular := by
  obtain ⟨hodd, hdot⟩ := h
  unfold next
  split
  · exact ⟨hodd, fun _ _ => Nat.succ_pos _⟩
  split
  · exact ⟨hodd, fun _ hs => absurd hs (Nat.succ_ne_zero _)⟩
  -- at the end of a frame: an even one is followed by one without its first dot
  · rw [hodd]
    by_cases hone : x.frameCount % 2 = 1
    · refine ⟨?_, ?_⟩
      · dsimp only
        rw [decide_eq_true hone, decide_eq_false (by omega)]
        rfl
      · dsimp only
        omega
    · refine ⟨?_, ?_⟩
      · dsimp only
        rw [decide_eq_false hone, decide_eq_true (by omega)]
        rfl
      · dsimp only
        rw [decide_eq_false hone]
        exact fun _ _ => Nat.one_pos

/-- One dot passes in every step, across the ends of lines and frames. -/
theorem elapsed_next (hx : x.Bounded) (h : x.Regular) : x.next.elapsed = x.elapsed + 1 := by
  obtain ⟨hscanline, hdot⟩ := hx
  have hodd := h.oddFrame_eq
  unfold next elapsed dotsPerScanline scanlinesPerFrame at *
  split
  · dsimp only
    omega
  split
  · dsimp only
    omega
  -- the frame that ends is counted whole, and the one that follows from its first dot on
  · rw [hodd]
    dsimp only
    by_cases hone : x.frameCount % 2 = 1
    · rw [if_pos (decide_eq_true hone)]
      omega
    · rw [if_neg (by rw [decide_eq_true_eq]; exact hone)]
      omega

/-- Within a frame the dots since power on lie between the ends of two frames. -/
theorem dotsOf_le (h : x.Regular) : dotsOf x.frameCount ≤ x.elapsed := by
  have hdot := h.dot_pos
  unfold dotsOf elapsed dotsPerScanline
  omega

theorem elapsed_lt (hx : x.Bounded) : x.elapsed < dotsOf (x.frameCount + 1) := by
  obtain ⟨hscanline, hdot⟩ := hx
  unfold dotsOf elapsed dotsPerScanline scanlinesPerFrame at *
  omega

end Position

/-- The step to the next dot changes nothing but the place, and at the end of a frame the hit. -/
theorem advance_eq (p : Picture) : ∃ hit es, advance p = ⟨.ok (), { p with
    scanline := p.position.next.scanline
    dot := p.position.next.dot
    oddFrame := p.position.next.oddFrame
    frameCount := p.position.next.frameCount
    frameReady := p.position.next.frameReady
    hit }, es⟩ := by
  unfold Position.next
  by_cases hdot : p.dot + 1 < dotsPerScanline
  -- within a line, then within a frame, then at its end
  · refine ⟨p.hit, [], ?_⟩
    rw [if_pos (show p.position.dot + 1 < dotsPerScanline from hdot)]
    exact if_pos hdot
  rw [if_neg (show ¬p.position.dot + 1 < dotsPerScanline from hdot)]
  by_cases hscanline : p.scanline + 1 < scanlinesPerFrame
  · refine ⟨p.hit, [], ?_⟩
    rw [if_pos (show p.position.scanline + 1 < scanlinesPerFrame from hscanline)]
    exact (if_neg hdot).trans (if_pos hscanline)
  · refine ⟨false, [.frameComplete (p.frameCount + 1)], ?_⟩
    rw [if_neg (show ¬p.position.scanline + 1 < scanlinesPerFrame from hscanline)]
    exact (if_neg hdot).trans (if_neg hscanline)

/-- What is set in one state is set in another. -/
structure Static (o p : Picture) : Prop where
  ctrl : p.ctrl = o.ctrl
  mask : p.mask = o.mask
  oam : p.oam = o.oam
  t : p.t = o.t
  fineX : p.fineX = o.fineX
  memory : p.memory = o.memory

/-- A dot leaves what is set and where the unit stands as they are. -/
theorem dotKeeps_static (o : Picture) (x : Position) :
    DotKeeps (fun p => Static o p ∧ p.position = x) (fun _ => True) where
  nextTile _ h := ⟨{ h.1 with }, h.2⟩
  nextLine _ h := ⟨{ h.1 with }, h.2⟩
  copyHorizontal _ h := ⟨{ h.1 with }, h.2⟩
  copyVertical _ h := ⟨{ h.1 with }, h.2⟩
  pipeline _ _ _ h := ⟨{ h.1 with }, h.2⟩
  found _ h := ⟨{ h.1 with }, h.2⟩
  noSprites _ h := ⟨{ h.1 with }, h.2⟩
  blank _ h := ⟨{ h.1 with }, h.2⟩
  line _ _ h _ := ⟨{ h.1 with }, h.2⟩
  pixel _ _ _ h := ⟨{ h.1 with }, h.2⟩
  noteHit p h := by
    unfold noteHit
    split
    · exact h
    · exact ⟨{ h.1 with }, h.2⟩
  overflow _ h := ⟨{ h.1 with }, h.2⟩
  vblank p h := by
    unfold vblankDot
    split
    · exact ⟨{ h.1 with }, h.2⟩
    split
    · exact ⟨{ h.1 with }, h.2⟩
    · exact h
  clear _ h := ⟨{ h.1 with }, h.2⟩
  lowFault _ _ _ _ := trivial
  highFault _ _ _ _ := trivial
  lineFault _ _ _ _ := trivial

theorem static_drawDot (p : Picture) :
    Static p (drawDot p).state ∧ (drawDot p).state.position = p.position :=
  ((dotKeeps_static p p.position).drawDot p ⟨⟨rfl, rfl, rfl, rfl, rfl, rfl⟩, rfl⟩).1

theorem Static.trans {o p q : Picture} (h : Static o p) (hq : Static p q) : Static o q :=
  ⟨hq.ctrl.trans h.ctrl, hq.mask.trans h.mask, hq.oam.trans h.oam, hq.t.trans h.t,
    hq.fineX.trans h.fineX, hq.memory.trans h.memory⟩

theorem static_of_drawDot {o p q : Picture} {es : List Event} (h : Static o p)
    (hq : drawDot p = ⟨.ok (), q, es⟩) : Static o q ∧ q.position = p.position := by
  have hkept := static_drawDot p
  rw [hq] at hkept
  exact ⟨h.trans hkept.1, hkept.2⟩

/-- A tick is the work of its dot and the step to the next place. -/
theorem tick_of_drawDot {p q : Picture} {es : List Event} (hq : drawDot p = ⟨.ok (), q, es⟩) :
    ∃ hit es', tick p = ⟨.ok (), { q with
      scanline := p.position.next.scanline
      dot := p.position.next.dot
      oddFrame := p.position.next.oddFrame
      frameCount := p.position.next.frameCount
      frameReady := p.position.next.frameReady
      hit }, es'⟩ := by
  have hplace := (static_drawDot p).2
  obtain ⟨hit, es', hadvance⟩ := advance_eq q
  rw [hq] at hplace
  rw [hplace] at hadvance
  unfold tick
  rw [bind_of_ok hq, hadvance]
  exact ⟨hit, es ++ es', rfl⟩

/-- Whether or not its dot fails, a tick adds nothing to its work but the step. -/
theorem state_tick (p : Picture) : (tick p).state = (drawDot p).state ∨
    ∃ hit, (tick p).state = { (drawDot p).state with
      scanline := p.position.next.scanline
      dot := p.position.next.dot
      oddFrame := p.position.next.oddFrame
      frameCount := p.position.next.frameCount
      frameReady := p.position.next.frameReady
      hit } := by
  rcases hq : drawDot p with ⟨e | _, q, es⟩
  · left
    unfold tick
    rw [bind_of_error hq]
  · obtain ⟨hit, es', htick⟩ := tick_of_drawDot hq
    right
    exact ⟨hit, by rw [htick]⟩

/-- What does not tell of the place is after a tick as its dot has left it. -/
theorem tick_eq_drawDot {α : Type} {f : Picture → α}
    (hf : ∀ (p : Picture) (x : Position) (hit : Bool), f { p with
      scanline := x.scanline
      dot := x.dot
      oddFrame := x.oddFrame
      frameCount := x.frameCount
      frameReady := x.frameReady
      hit } = f p) (p : Picture) : f (tick p).state = f (drawDot p).state := by
  rcases state_tick p with hstate | ⟨hit, hstate⟩
  · rw [hstate]
  · rw [hstate]
    exact hf _ p.position.next hit

/-- A tick leaves what is set as it is, even if it fails. -/
theorem static_tick (p : Picture) : Static p (tick p).state := by
  have hdraw := (static_drawDot p).1
  rcases state_tick p with hstate | ⟨hit, hstate⟩
  · rw [hstate]
    exact hdraw
  · rw [hstate]
    exact { hdraw with }

/-- A tick goes on to the next place, or it fails and stays where it is. -/
theorem position_tick (p : Picture) :
    (tick p).state.position = p.position.next ∨ (tick p).state.position = p.position := by
  rcases state_tick p with hstate | ⟨hit, hstate⟩
  · right
    rw [hstate]
    exact (static_drawDot p).2
  · left
    rw [hstate]
    rfl

/-- What every tick keeps while it goes on still holds at each later place of the frame. -/
theorem exists_ahead {J : Picture → Prop}
    (hJ : ∀ p, J p → J (tick p).state ∧ (tick p).state.position = p.position.next)
    {p : Picture} (hp : J p) {m n frameCount : Nat} {oddFrame frameReady : Bool}
    (hplace : p.position = ⟨m / 341, m % 341, oddFrame, frameCount, frameReady⟩)
    (hle : m ≤ n) (hn : n < 89342) :
    ∃ q, J q ∧ q.position = ⟨n / 341, n % 341, oddFrame, frameCount, frameReady⟩ := by
  induction n, hle using Nat.le_induction with
  | base => exact ⟨p, hp, hplace⟩
  | succ n _ ih =>
    obtain ⟨q, hq, hplace⟩ := ih (by omega)
    obtain ⟨hnext, hposition⟩ := hJ q hq
    rw [hplace, Position.next_of_count (by omega)] at hposition
    exact ⟨_, hnext, hposition⟩

end Famicom.Picture
