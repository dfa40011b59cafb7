import Famicom.Proofs.Cartridge
import Famicom.Proofs.Picture.Drawing
import Famicom.Proofs.Picture.Registers

/-! The picture of a unit that is only ticked: from the last scanline on, each frame that
is completed is the one that the compositor draws, whatever is done with the frames before. -/

namespace Famicom.Picture

open Famicom.Action

variable {o p q r : Picture}

/-- What is ready at the end of a scanline is ready at the beginning of the one below. -/
theorem drawing_wrap {s d s' d' : Nat} (h : Drawing o s d p) (hd : dotsPerScanline ≤ d)
    (hd' : d' ≤ 1) (hbelow : s' < height → Runs s ∧ lineBelow s = s') : Drawing o s' d' p := by
  have hend : 341 ≤ d := hd
  refine ⟨h.toStatic, ?_, ?_⟩
  · intro hshown
    refine ⟨fun _ hlater => by omega, fun hlt _ => ?_, fun _ hlater => by omega⟩
    obtain ⟨hruns, rfl⟩ := hbelow hlt
    exact (h.ready hshown).fetched hruns (by omega)
  · intro hshown
    refine ⟨fun hlt _ => ?_, fun _ hlater => by omega, fun _ hlater => by omega,
      fun _ hlater => by omega, fun _ hlater => by omega⟩
    obtain ⟨hruns, rfl⟩ := hbelow hlt
    -- the sixteen dots of the two tiles ahead are over at dot 337
    have hahead := (h.tiles hshown).ahead hruns (by omega)
    rw [show min d 337 - 321 = max d' 1 + 15 by omega] at hahead
    exact hahead

/-- The next dot is one of the same scanline, or the first or second of another one, which if it is
visible is the one that this scanline prepares. -/
theorem next_cases {x : Position} (hx : x.Bounded) :
    x.next.scanline = x.scanline ∧ x.next.dot = x.dot + 1 ∨
    dotsPerScanline ≤ x.dot + 1 ∧ x.next.dot ≤ 1 ∧
      (x.next.scanline < height → Runs x.scanline ∧ lineBelow x.scanline = x.next.scanline) := by
  by_cases hdot : x.dot + 1 < dotsPerScanline
  · unfold Position.next
    rw [if_pos hdot]
    exact Or.inl ⟨rfl, rfl⟩
  refine Or.inr ⟨Nat.le_of_not_lt hdot, ?_⟩
  by_cases hscanline : x.scanline + 1 < scanlinesPerFrame
  · unfold Position.next
    rw [if_neg hdot, if_pos hscanline]
    refine ⟨Nat.zero_le 1, ?_⟩
    intro hvisible
    have hruns : x.scanline < height := Nat.lt_of_succ_lt hvisible
    exact ⟨Or.inl hruns, lineBelow_of_lt hruns⟩
  · have hleft := Position.left_of_wrap hdot hscanline
    obtain ⟨hlast, hfirst, hle⟩ := Position.start_of_last hx hleft
    rw [hfirst]
    exact ⟨hle, fun _ => ⟨Or.inr hlast, if_pos hlast⟩⟩

theorem drawing_next {x : Position} (hx : x.Bounded) (h : Drawing o x.scanline (x.dot + 1) p) :
    Drawing o x.next.scanline x.next.dot p := by
  rcases next_cases hx with ⟨hscanline, hdot⟩ | ⟨hend, hstart, hbelow⟩
  · rw [hscanline, hdot]
    exact h
  · exact drawing_wrap h hend hstart hbelow

theorem drawn_next {x : Position} (hx : x.Bounded) (h : Drawn o x.scanline (x.dot + 1) p) :
    Drawn o x.next.scanline x.next.dot p := by
  by_cases hdot : x.dot + 1 < dotsPerScanline
  · unfold Position.next
    rw [if_pos hdot]
    exact h
  by_cases hscanline : x.scanline + 1 < scanlinesPerFrame
  · unfold Position.next
    rw [if_neg hdot, if_pos hscanline]
    intro a b ha hb hbefore
    apply h a b ha hb
    dsimp only [width, dotsPerScanline] at *
    omega
  · obtain ⟨-, hfirst, hle⟩ := Position.start_of_last hx (Position.left_of_wrap hdot hscanline)
    rw [hfirst]
    exact drawn_start hle

/-- The place of a unit is no part of what it draws with. -/
theorem drawing_congr {s d : Nat} (hs : Static o q) (hpipelines : q.pipelines = p.pipelines)
    (hsprites : q.sprites = p.sprites) (hline : q.line = p.line) (h : Drawing o s d p) :
    Drawing o s d q :=
  ⟨hs, fun hshown => spritesReady_congr hsprites hline (h.ready hshown),
    fun hshown => tilesReady_congr hpipelines (h.tiles hshown)⟩

/-- A tick draws one dot, and the unit then stands at the next place. -/
theorem tick_of_drawing (hm : o.memory.cartridge.isSome) (hf : o.fineX.toNat ≤ 7)
    (ht : (Scroll.parts o.t).row ≤ 29) (hx : p.position.Bounded)
    (h : Drawing o p.scanline p.dot p) : ∃ q es, tick p = ⟨.ok (), q, es⟩ ∧
      q.position = p.position.next ∧ Drawing o q.scanline q.dot q ∧
      (Drawn o p.scanline p.dot p → Drawn o p.scanline (p.dot + 1) q) := by
  obtain ⟨q, es, hq, hdrawing, hdrawn⟩ := drawing_dot hm hf ht h
  obtain ⟨hit, es', htick⟩ := tick_of_drawDot hq
  have hnext := drawing_next hx hdrawing
  exact ⟨_, _, htick, rfl, drawing_congr (p := q) { hdrawing.toStatic with } rfl rfl rfl hnext,
    hdrawn⟩

/-- What becomes of a unit that is only ticked, while its frames are taken at any time. -/
inductive Watched (p : Picture) : Picture → Prop
  | refl : Watched p p
  | tick {q r : Picture} {es : List Event} : Watched p q → tick q = ⟨.ok (), r, es⟩ → Watched p r
  | take {q : Picture} : Watched p q → Watched p (takeFrame (ε := Bus.Fault) q).state

theorem Watched.trans (hq : Watched p q) (hr : Watched q r) : Watched p r := by
  induction hr with
  | refl => exact hq
  | tick _ htick ih => exact ih.tick htick
  | take _ ih => exact ih.take

/-- The frame after `n` frames is drawn as far as its dot, if it is one that was begun since. -/
structure Shown (o : Picture) (n : Nat) (p : Picture) : Prop where
  bounded : p.position.Bounded
  drawing : Drawing o p.scanline p.dot p
  drawn : n < p.frameCount → Drawn o p.scanline p.dot p
  frameCount_le : n ≤ p.frameCount

section Run

variable {n : Nat} (hm : o.memory.cartridge.isSome) (hf : o.fineX.toNat ≤ 7)
  (ht : (Scroll.parts o.t).row ≤ 29)
include hm hf ht

theorem shown_tick (h : Shown o n p) : ∃ q es, tick p = ⟨.ok (), q, es⟩ ∧
    q.position = p.position.next ∧ Shown o n q ∧
    (n < p.frameCount → Drawn o p.scanline (p.dot + 1) q) := by
  obtain ⟨hx, hdrawing, hbefore, hle⟩ := h
  obtain ⟨q, es, htick, hposition, hafter, hdrawn⟩ := tick_of_drawing hm hf ht hx hdrawing
  have hscanline : q.scanline = p.position.next.scanline := congrArg Position.scanline hposition
  have hdot : q.dot = p.position.next.dot := congrArg Position.dot hposition
  have hcount : q.frameCount = p.position.next.frameCount :=
    congrArg Position.frameCount hposition
  refine ⟨q, es, htick, hposition, ⟨?_, hafter, ?_, ?_⟩, fun hlt => hdrawn (hbefore hlt)⟩
  · rw [hposition]
    exact Position.bounded_next hx
  · intro hlt
    rw [hscanline, hdot]
    -- the last dot of a frame begins the next one, of which no pixel is drawn yet
    by_cases hleft : p.position.left ≤ 1
    · obtain ⟨-, hfirst, hstart⟩ := Position.start_of_last hx hleft
      rw [hfirst]
      exact drawn_start hstart
    · obtain ⟨-, -, hsame⟩ := Position.next_of_left hx (by omega)
      have hsame : p.position.next.frameCount = p.frameCount := hsame
      exact drawn_next hx (hdrawn (hbefore (by omega)))
  · rw [hcount]
    by_cases hleft : p.position.left ≤ 1
    · obtain ⟨-, hmore, -⟩ := Position.next_of_last hx hleft
      rw [hmore]
      exact Nat.le_succ_of_le hle
    · obtain ⟨-, -, hsame⟩ := Position.next_of_left hx (by omega)
      rw [hsame]
      exact hle

theorem shown_of_watched (hs : o.scanline = preRenderScanline) (hd : o.dot = 0)
    (h : Watched o p) : Shown o o.frameCount p := by
  induction h with
  | refl =>
    refine ⟨⟨?_, ?_⟩, ?_, fun hlt => absurd hlt (Nat.lt_irrefl _), Nat.le_refl _⟩
    · exact lt_of_eq_of_lt hs (by decide)
    · exact lt_of_eq_of_lt hd (by decide)
    -- before the first dot of the last scanline no pipeline has to be ready
    rw [hs, hd]
    exact drawing_start ⟨rfl, rfl, rfl, rfl, rfl, rfl⟩
  | tick _ htick ih =>
    obtain ⟨q, es, heq, -, hshown, -⟩ := shown_tick hm hf ht ih
    rw [htick] at heq
    cases heq
    exact hshown
  | @take q _ ih =>
    obtain ⟨⟨hscanline, hdot⟩, hdrawing, hdrawn, hle⟩ := ih
    exact ⟨⟨hscanline, hdot⟩,
      drawing_congr (p := q) { hdrawing.toStatic with } rfl rfl rfl hdrawing, hdrawn, hle⟩

/-- The picture that the last tick of a frame leaves. -/
theorem pixels_of_completed (h : Shown o n p) (hlt : n < p.frameCount) {es : List Event}
    (htick : tick p = ⟨.ok (), q, es⟩) (hne : q.frameCount ≠ p.frameCount) :
    (takeFrame (ε := Bus.Fault) q).answer = .ok (some q.pixels) ∧
      ∀ x y, x < width → y < height →
        q.pixels[y * width + x]? = some (Compositor.colour o x y) := by
  have hx := h.bounded
  obtain ⟨q', es', heq, hposition, -, hdrawn⟩ := shown_tick hm hf ht h
  rw [htick] at heq
  cases heq
  -- the frames are counted by the last dot of a frame only
  have hleft : p.position.left ≤ 1 := by
    by_contra hmore
    obtain ⟨-, -, hsame⟩ := Position.next_of_left hx (by omega)
    exact hne ((congrArg Position.frameCount hposition).trans hsame)
  obtain ⟨hready, -, -⟩ := Position.next_of_last hx hleft
  obtain ⟨hlast, -, -⟩ := Position.start_of_last hx hleft
  have hlast : p.scanline = preRenderScanline := hlast
  refine ⟨?_, fun x y hx hy => hdrawn hlt x y hx hy (Or.inl ?_)⟩
  · unfold takeFrame
    rw [show q.frameReady = true from (congrArg Position.frameReady hposition).trans hready]
    rfl
  · rw [hlast]
    exact lt_trans hy (by decide)

/-- Every frame that is begun is completed. -/
theorem completed (h : Shown o n p) : ∃ q r es, Watched p q ∧ q.frameCount = p.frameCount ∧
    tick q = ⟨.ok (), r, es⟩ ∧ r.frameCount = p.frameCount + 1 := by
  -- the induction is on the dots that are left in the frame
  induction hk : p.position.left using Nat.strong_induction_on generalizing p with
  | _ k ih =>
    have hx := h.bounded
    obtain ⟨q, es, htick, hposition, hq, -⟩ := shown_tick hm hf ht h
    have hcount : q.frameCount = p.position.next.frameCount :=
      congrArg Position.frameCount hposition
    by_cases hleft : p.position.left ≤ 1
    · obtain ⟨-, hmore, -⟩ := Position.next_of_last hx hleft
      exact ⟨p, q, es, .refl, rfl, htick, hcount.trans hmore⟩
    · obtain ⟨hless, -, hsame⟩ := Position.next_of_left hx (by omega)
      have hsame : q.frameCount = p.frameCount := hcount.trans hsame
      rw [← hposition] at hless
      obtain ⟨q', r, es', hwatched, hcount', htick', hr⟩ := ih _ (by omega) hq rfl
      rw [hsame] at hcount' hr
      exact ⟨q', r, es', (Watched.refl.tick htick).trans hwatched, hcount', htick', hr⟩

end Run

/-- A unit that is only ticked from the last scanline on never fails. The frames behind the one that
is completed first show at each place the colour that the compositor finds there, whatever is set
and wherever the picture starts in the world, and there are such frames. Every unit has a fine X
of at most seven. -/
theorem still_frames :
    (∀ p, Reached p → p.fineX.toNat ≤ 7) ∧
    ∀ p : Picture, p.fineX.toNat ≤ 7 → p.scanline = preRenderScanline → p.dot = 0 →
      p.memory.cartridge.isSome → (Scroll.parts p.t).row ≤ 29 →
      (∀ q, Watched p q → (tick q).answer = .ok ()) ∧
      (∃ q r es, Watched p q ∧ q.frameCount = p.frameCount + 1 ∧ tick q = ⟨.ok (), r, es⟩ ∧
        r.frameCount = p.frameCount + 2) ∧
      ∀ q r es, Watched p q → p.frameCount < q.frameCount → tick q = ⟨.ok (), r, es⟩ →
        r.frameCount ≠ q.frameCount →
        ∃ pixels, (takeFrame (ε := Bus.Fault) r).answer = .ok (some pixels) ∧
          ∀ x y, x < 256 → y < 240 → pixels[y * 256 + x]? = some (Compositor.colour p x y) := by
  refine ⟨fun p hp => fineSound_of_reached hp, ?_⟩
  intro p hf hs hd hm ht
  have hshown := fun q (hq : Watched p q) => shown_of_watched hm hf ht hs hd hq
  refine ⟨?_, ?_, ?_⟩
  · intro q hq
    obtain ⟨r, es, htick, -⟩ := shown_tick hm hf ht (hshown q hq)
    rw [htick]
  -- the first frame that is completed was begun before, and the second one is begun behind it
  · obtain ⟨q, r, es, hq, hcount, htick, hmore⟩ := completed hm hf ht (hshown p .refl)
    obtain ⟨q', r', es', hq', hcount', htick', hmore'⟩ :=
      completed hm hf ht (hshown r (hq.tick htick))
    exact ⟨q', r', es', (hq.tick htick).trans hq', hcount'.trans hmore, htick',
      hmore'.trans (by rw [hmore])⟩
  · intro q r es hq hlt htick hne
    obtain ⟨htake, hpixels⟩ := pixels_of_completed hm hf ht (hshown q hq) hlt htick hne
    exact ⟨r.pixels, htake, hpixels⟩

/-- Both layers are shown, from the last point of the world on. -/
def farCorner : Picture :=
  { powerOn.insert (Cartridge.plain (.replicate 0x4000 0) (.replicate 0x2000 0xFF)) with
    scanline := 261, mask := 0x1E, t := 0x7FBF, fineX := 7 }

theorem still_frames_of_farCorner : ∃ q r es pixels, Watched farCorner q ∧
    tick q = ⟨.ok (), r, es⟩ ∧ (takeFrame (ε := Bus.Fault) r).answer = .ok (some pixels) ∧
      ∀ x y, x < 256 → y < 240 →
        pixels[y * 256 + x]? = some (Compositor.colour farCorner x y) := by
  have hrow : (Scroll.parts farCorner.t).row ≤ 29 := by decide
  obtain ⟨-, ⟨q, r, es, hq, hcount, htick, hmore⟩, hframes⟩ :=
    still_frames.2 farCorner (by decide) rfl rfl rfl hrow
  obtain ⟨pixels, htake, hpixels⟩ := hframes q r es hq (by omega) htick (by omega)
  exact ⟨q, r, es, pixels, hq, htick, htake, hpixels⟩

end Famicom.Picture
