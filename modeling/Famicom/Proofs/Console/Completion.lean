import Famicom.Proofs.Console.Timing
import Famicom.Proofs.Picture.Interrupt

/-! What the frames show that are handed out. A frame is complete with the second dot of a clock or
with the third, and only behind the second there is another dot before the frame is taken. -/

namespace Famicom

open Famicom.Action

namespace Picture

namespace Position

variable {x : Position}

/-- Whole clocks have passed since power on. -/
def Clocked (x : Position) : Prop := ∃ l, x.Timed l

theorem elapsed_add_left (hx : x.Bounded) : x.elapsed + x.left = dotsOf (x.frameCount + 1) := by
  obtain ⟨hscanline, hdot⟩ := hx
  unfold elapsed left dotsOf dotsPerScanline scanlinesPerFrame at *
  omega

/-- The clock that completes a frame starts two dots before its end, or three. -/
theorem left_of_last_clock (hx : x.Bounded) (ht : x.Clocked) (h : x.left ≤ 3) :
    x.left = 2 + x.frameCount % 2 := by
  obtain ⟨l, -, hdots⟩ := ht
  have hsum := elapsed_add_left hx
  have hpos : 0 < x.left := by
    obtain ⟨hscanline, hdot⟩ := hx
    unfold left dotsPerScanline scanlinesPerFrame at *
    omega
  -- at the end of an even frame the dots are two more than whole clocks, at that of an odd one none
  unfold dotsOf at hsum
  obtain ⟨j, hj | hj⟩ := Nat.even_or_odd' x.frameCount
  · rw [hj] at hsum ⊢
    omega
  · rw [hj] at hsum ⊢
    omega

/-- Behind an even frame the first dot is left out. -/
theorem start_of_even (hx : x.Bounded) (hr : x.Regular) (h : x.left ≤ 1)
    (heven : x.frameCount % 2 = 0) : x.next.scanline = 0 ∧ x.next.dot = 1 := by
  obtain ⟨-, hscanline, hdot⟩ := start_of_last hx h
  obtain ⟨-, hcount, -⟩ := next_of_last hx h
  have hpos := (regular_next hr).dot_pos (by omega) hscanline
  exact ⟨hscanline, by omega⟩

end Position

variable {x : Position} {p : Picture}

/-- Each dot that draws sets one pixel. -/
theorem pixels_tick (h : Steady x p) (hscanline : p.scanline < 240) (hfirst : 1 ≤ p.dot)
    (hlast : p.dot ≤ 256) : (tick p).state.pixels =
      p.pixels.setIfInBounds (p.scanline * width + (p.dot - 1)) p.pixelColour := by
  have hruns : Runs p.scanline := Or.inl hscanline
  obtain ⟨p₁, q, es, hq, he, hd⟩ := effect_of_steady hruns h
  obtain ⟨hit, es', htick⟩ := tick_of_drawDot hq
  obtain ⟨⟨status, sprites, rfl⟩, -, -⟩ := he
  rw [htick, ← pixelColour_congr status sprites p.nmiPending p]
  exact hd.drawn (decide_eq_true hscanline) hfirst hlast

/-- The first dot of a frame, where there is one that draws, draws the first pixel. -/
theorem pixels_start (h : Steady x p) (hscanline : x.scanline = 0) (hdot : x.dot = 1) :
    (tick p.polled).state.pixels = p.pixels.setIfInBounds 0 p.pixelColour := by
  have hplace := h.position_eq
  have hfirst : p.polled.scanline = 0 := by
    rw [← hscanline, ← hplace]
    rfl
  have hsecond : p.polled.dot = 1 := by
    rw [← hdot, ← hplace]
    rfl
  have hdraw := pixels_tick (p := p.polled) { h with } (by omega) (by omega) (by omega)
  rw [hfirst, hsecond, show p.polled.pixelColour = p.pixelColour from
    pixelColour_congr p.status p.sprites false p] at hdraw
  exact hdraw

end Picture

namespace Console

variable {x : Picture.Position} {n m k : Nat} {b c d : Console} {f : Frame} {es : List Event}
  {frames : List Frame}

/-! The clocks of a console keep their phase. -/

theorem position_powerUp (h : c.Sound k) :
    (powerUp c).state.picture.position = c.picture.position := by
  by_cases hc : c.cartridge.isSome
  · obtain ⟨d, es, hpower, hd⟩ := powerUp_of_inserted h hc
    rw [hpower]
    exact hd.steady.position_eq
  · rw [powerUp_of_empty (Option.not_isSome_iff_eq_none.mp hc)]

theorem clocked_runFrame (h : c.Sound k) (ht : c.picture.position.Clocked) :
    (Console.runFrame c).state.picture.position.Clocked := by
  by_cases hp : c.powered = true
  · obtain ⟨m, -, hrun⟩ := runsTo_runFrame (h.stands hp) h.frameReady_eq
    -- a round that fails in the processor has run no dot, and every other one has run three
    refine RunsTo.rounds
      (motive := fun x _ o => x.Clocked → o.state.picture.position.Clocked) ?_ ?_ ?_ hrun
      (h.stands hp) h.frameReady_eq ht
    · intro x n e d es _ hd ht
      rw [hd.steady.position_eq]
      exact ht
    · rintro x n f d es hx _ _ hd ⟨l, ht⟩
      rw [hd.steady.position_eq]
      exact ⟨l + 1, Picture.Position.timed_clock hx ht⟩
    · rintro x n r d es es' hx _ ih ⟨l, ht⟩
      exact ih ⟨l + 1, Picture.Position.timed_clock hx ht⟩
  · unfold Console.runFrame
    rw [if_neg hp]
    exact ht

theorem requestKeeps_clocked : RequestKeeps fun c => c.picture.position.Clocked where
  passive r hr ht := by
    rw [(serve_of_isPassive _ hr).2]
    exact ht
  powerUp h ht := by
    rw [position_powerUp h]
    exact ht
  runFrame h ht := clocked_runFrame h ht

theorem clocked_of_reached (h : Reached c frames) : c.picture.position.Clocked :=
  requestKeeps_clocked.reached ⟨0, ⟨rfl, fun h => by cases h⟩, rfl⟩ h

/-! The last clock of a run. -/

theorem stands_of_clockPicture (h : c.Stands x n) (hdot : clockPicture c = ⟨.ok (), d, es⟩) :
    d.Stands x.next n ∧ d.picture = (Picture.tick c.picture).state.polled := by
  obtain ⟨d', es', hdot', hd⟩ := clockPicture_of_stands h
  rw [hdot'] at hdot
  cases hdot
  exact hd

/-- `n` dots of the picture unit and the interrupts that they raise. -/
def clockPictures : Nat → Action Fault Console Unit
  | 0 => pure ()
  | n + 1 => do
    clockPicture
    clockPictures n

theorem clockPictures_of_ok {es' : List Event} (h : clockPicture c = ⟨.ok (), b, es⟩)
    (hb : clockPictures n b = ⟨.ok (), d, es'⟩) :
    clockPictures (n + 1) c = ⟨.ok (), d, es ++ es'⟩ := by
  unfold clockPictures
  rw [bind_of_ok h, hb]

/-- Rounds that complete no frame. -/
inductive GoesOn : Console → Console → Prop
  | refl {c : Console} : GoesOn c c
  | round {b c d : Console} {es : List Event} :
      clockAndTake c = ⟨.ok none, d, es⟩ → GoesOn d b → GoesOn c b

/-- The picture unit as the dot leaves it that completes a frame: rounds that complete none, a cycle
of the processor and `n` dots have come before. -/
inductive Completes (n : Nat) (c : Console) : Picture → Prop
  | intro {b d s : Console} {t : Picture} {es es' es'' : List Event} :
      GoesOn c b → onProcessor clockProcessor b = ⟨.ok (), d, es⟩ →
      clockPictures n d = ⟨.ok (), s, es'⟩ → Picture.tick s.picture = ⟨.ok (), t, es''⟩ →
      s.frameCount = c.frameCount → t.frameCount = c.frameCount + 1 → Completes n c t

/-- A run that answers a frame goes on until its last round. -/
theorem RunsTo.last {o : Outcome Fault Console Frame} (h : RunsTo m c o) (hc : c.Stands x n)
    (hready : x.frameReady = false) (ht : x.Clocked) (hf : o.answer = .ok f) :
    ∃ b y k d es, GoesOn c b ∧ b.Stands y k ∧ y.Clocked ∧ y.frameCount = x.frameCount ∧
      y.left ≤ 3 ∧ clockAndTake b = ⟨.ok (some f), d, es⟩ := by
  -- where the console stands decides how a round ends, as in the induction over all rounds
  induction h generalizing x n with
  | fault hround => cases hf
  | @frame c d f' es hround =>
    cases hf
    rcases clockAndTake_of_stands hc hready with
      ⟨e, d, es, hround', -⟩ | ⟨hlast, -⟩ | ⟨-, -, -, d, es, hround', -⟩
    · rw [hround'] at hround
      cases hround
    · exact ⟨c, x, n, d, es, .refl, hc, ht, rfl, hlast, hround⟩
    · rw [hround'] at hround
      cases hround
  | @again c d u m r es es' hround _ ih =>
    rcases clockAndTake_of_stands hc hready with
      ⟨e, d', es, hround', -⟩ | ⟨-, -, f, d', es, hround', -⟩ |
        ⟨-, -, hcount, d', es, hround', hd⟩
    · rw [hround'] at hround
      cases hround
    · rw [hround'] at hround
      cases hround
    · obtain ⟨l, hl⟩ := ht
      rw [hround'] at hround
      cases hround
      obtain ⟨b, y, k, d, es, hgoes, hb, hy, hycount, hleft, hlast⟩ :=
        ih hd rfl ⟨l + 1, Picture.Position.timed_clock hc.steady.bounded hl⟩ hf
      exact ⟨b, y, k, d, es, .round hround' hgoes, hb, hy, hycount.trans hcount, hleft, hlast⟩

theorem frameCount_of_stands (h : c.Stands x n) : c.frameCount = x.frameCount := by
  rw [← h.steady.position_eq]
  rfl

/-- What is handed out is what the third dot leaves. -/
theorem dots_of_round (h : c.Stands x n) (hround : clockAndTake c = ⟨.ok (some f), d, es⟩) :
    ∃ b₀ b₁ b₂ b₃ es₀ es₁ es₂ es₃, onProcessor clockProcessor c = ⟨.ok (), b₀, es₀⟩ ∧
      b₀.Stands x (n + 1) ∧ clockPicture b₀ = ⟨.ok (), b₁, es₁⟩ ∧
      clockPicture b₁ = ⟨.ok (), b₂, es₂⟩ ∧ clockPicture b₂ = ⟨.ok (), b₃, es₃⟩ ∧
      f = frameOf b₃.picture.pixels := by
  unfold clockAndTake clock at hround
  obtain ⟨_, b₃, _, _, hclock, htake, -⟩ := ok_of_bind hround
  obtain ⟨_, b₀, es₀, _, hprocessor, hclock, -⟩ := ok_of_bind hclock
  obtain ⟨_, b₁, es₁, _, hdot₁, hclock, -⟩ := ok_of_bind hclock
  obtain ⟨_, b₂, es₂, es₃, hdot₂, hdot₃, -⟩ := ok_of_bind hclock
  have hstands : b₀.Stands x (n + 1) := by
    have hstands := (Processor.clockProcessor_of_stands h.processor).1
    rcases hp : clockProcessor c.processor with ⟨e | _, p, es⟩
    · rw [onProcessor_of_error hp] at hprocessor
      cases hprocessor
    · rw [hp] at hstands
      rw [onProcessor_of_ok hp] at hprocessor
      cases hprocessor
      exact ⟨h.powered, hstands⟩
  have hframe : f = frameOf b₃.picture.pixels := by
    have hstands₁ := (stands_of_clockPicture hstands hdot₁).1
    have hstands₂ := (stands_of_clockPicture hstands₁ hdot₂).1
    obtain ⟨d', htake', -⟩ := takeFrame_of_stands (stands_of_clockPicture hstands₂ hdot₃).1
    rw [htake'] at htake
    split at htake
    · cases htake
      rfl
    · cases htake
  exact ⟨b₀, b₁, b₂, b₃, es₀, es₁, es₂, es₃, hprocessor, hstands, hdot₁, hdot₂, hdot₃, hframe⟩

/-- Drawing one pixel anew goes unnoticed only in the colour that it had. -/
theorem frameOf_draw_eq_iff {pixels : Vector UInt8 (Picture.width * Picture.height)} {v : UInt8} :
    frameOf (pixels.setIfInBounds 0 v) = frameOf pixels ↔ pixels[0]? = some v := by
  constructor
  · intro h
    have hpixels : pixels.setIfInBounds 0 v = pixels :=
      Vector.toArray_inj.mp (congrArg Frame.pixels h)
    rw [← hpixels, Vector.getElem?_setIfInBounds_self, if_pos (by decide)]
  · intro h
    obtain ⟨hlt, rfl⟩ := Vector.getElem?_eq_some_iff.mp h
    congr 1
    apply Vector.ext
    intro i hi
    rw [Vector.getElem_setIfInBounds]
    split
    · next hzero =>
      subst hzero
      rfl
    · rfl

/-- The last round of a run for a frame, seen from the dot that completes it. -/
theorem completes_of_round (hgoes : GoesOn b c) (hcount : b.frameCount = x.frameCount)
    (h : c.Stands x n) (ht : x.Clocked) (hlast : x.left ≤ 3)
    (hround : clockAndTake c = ⟨.ok (some f), d, es⟩) :
    ∃ t, Completes (1 + x.frameCount % 2) b t ∧
      f = frameOf (if x.frameCount % 2 = 0 then t.pixels.setIfInBounds 0 t.pixelColour
        else t.pixels) := by
  obtain ⟨b₀, b₁, b₂, b₃, es₀, es₁, es₂, es₃, hprocessor, h₀, hdot₁, hdot₂, hdot₃, rfl⟩ :=
    dots_of_round h hround
  obtain ⟨h₁, -⟩ := stands_of_clockPicture h₀ hdot₁
  obtain ⟨h₂, hleaves₂⟩ := stands_of_clockPicture h₁ hdot₂
  obtain ⟨h₃, hleaves₃⟩ := stands_of_clockPicture h₂ hdot₃
  have hx := h.steady.bounded
  have hx₁ := Picture.Position.bounded_next hx
  have hregular : x.next.Regular := by
    obtain ⟨l, hl⟩ := ht
    exact Picture.Position.regular_next hl.regular
  have hleft := Picture.Position.left_of_last_clock hx ht hlast
  obtain ⟨hleft₁, -, hcount₁⟩ := Picture.Position.next_of_left hx (by omega)
  have hone : clockPictures 1 b₀ = ⟨.ok (), b₁, es₁ ++ []⟩ := clockPictures_of_ok hdot₁ rfl
  rcases Nat.mod_two_eq_zero_or_one x.frameCount with heven | hodd
  -- the second dot is the last of the frame, and the third the first of the next
  · obtain ⟨t, es₄, htick, hsteady⟩ := Picture.tick_of_steady h₁.steady
    obtain ⟨-, hcount₂, -⟩ := Picture.Position.next_of_last hx₁ (by omega)
    obtain ⟨hscanline, hdot⟩ :=
      Picture.Position.start_of_even hx₁ hregular (by omega) (by omega)
    have hcomplete : t.frameCount = b.frameCount + 1 := by
      rw [hcount, ← hcount₁, ← hcount₂, ← hsteady.position_eq]
      rfl
    refine ⟨t, ?_, ?_⟩
    · rw [heven]
      exact .intro hgoes hprocessor hone htick ((frameCount_of_stands h₁).trans
        (hcount₁.trans hcount.symm)) hcomplete
    · rw [htick] at hleaves₂
      rw [if_pos heven, ← Picture.pixels_start hsteady hscanline hdot, hleaves₃, hleaves₂]
      rfl
  -- the third dot is the last of the frame
  · obtain ⟨hleft₂, -, hcount₂⟩ := Picture.Position.next_of_left hx₁ (by omega)
    obtain ⟨t, es₄, htick, hsteady⟩ := Picture.tick_of_steady h₂.steady
    obtain ⟨-, hcount₃, -⟩ := Picture.Position.next_of_last (Picture.Position.bounded_next hx₁)
      (by omega)
    have hcomplete : t.frameCount = b.frameCount + 1 := by
      rw [hcount, ← hcount₁, ← hcount₂, ← hcount₃, ← hsteady.position_eq]
      rfl
    refine ⟨t, ?_, ?_⟩
    · rw [hodd]
      exact .intro hgoes hprocessor (clockPictures_of_ok hdot₁ (clockPictures_of_ok hdot₂ rfl))
        htick ((frameCount_of_stands h₂).trans (hcount₂.trans (hcount₁.trans hcount.symm)))
        hcomplete
    · rw [htick] at hleaves₃
      rw [if_neg (by omega), hleaves₃]
      rfl

/-- A frame that follows an odd number of frames is the picture as the dot leaves it that completes
the frame. One that follows an even number shows the first pixel as the first dot of the next frame
draws it, and shows the completed picture only if that dot finds the colour there already. -/
theorem frame_of_completion (h : Reached c frames) (hp : c.powered = true)
    (hrun : Console.runFrame c = ⟨.ok f, d, es⟩) :
    ∃ t, Completes (1 + c.frameCount % 2) c t ∧
      f = frameOf (if c.frameCount % 2 = 0 then t.pixels.setIfInBounds 0 t.pixelColour
        else t.pixels) ∧
      (f = frameOf t.pixels ↔ c.frameCount % 2 = 1 ∨ t.pixels[0]? = some t.pixelColour) := by
  have hsound := (sound_of_reached h).1
  have hc := hsound.stands hp
  obtain ⟨m, -, hruns⟩ := runsTo_runFrame hc hsound.frameReady_eq
  rw [hrun] at hruns
  obtain ⟨b, y, k, d', es', hgoes, hb, hclocked, hcount, hleft, hround⟩ :=
    hruns.last hc hsound.frameReady_eq (clocked_of_reached h) rfl
  obtain ⟨t, hcompletes, hf⟩ := completes_of_round hgoes hcount.symm hb hclocked hleft hround
  rw [show y.frameCount = c.frameCount from hcount] at hcompletes hf
  refine ⟨t, hcompletes, hf, ?_⟩
  rcases Nat.mod_two_eq_zero_or_one c.frameCount with heven | hodd
  · rw [hf, if_pos heven, frameOf_draw_eq_iff, heven]
    simp
  · rw [hf, if_neg (by omega), hodd]
    simp

/-- The first two frames of a program that waits. -/
theorem frame_of_completion_of_waiting : ∃ c d b f g es es', Reached c [] ∧ Reached d [f] ∧
    Console.runFrame c = ⟨.ok f, d, es⟩ ∧ Console.runFrame d = ⟨.ok g, b, es'⟩ ∧
    (∃ t, Completes 1 c t ∧ f = frameOf (t.pixels.setIfInBounds 0 t.pixelColour)) ∧
    ∃ t, Completes 2 d t ∧ g = frameOf t.pixels := by
  obtain ⟨image, k, a, himage, hk⟩ := Cartridge.exists_waits
  have hfresh : Fresh (Console.insert image {}).state := .serve (.insert image) rfl .new
  have hcartridge := cartridge_insert (c := {}) himage
  -- no frame has been handed out after power up, and one after a run
  have hpowered : ∃ c, Reached c [] ∧ ∃ x n, c.Waits k a x n ∧ x.frameReady = false := by
    have hsound := (sound_of_fresh hfresh).1
    obtain ⟨c, es, hpower, hc⟩ := powerUp_of_waits hk hcartridge
      (hsound.steady (by rw [hcartridge]; rfl))
    exact ⟨c, (reached_of_fresh hfresh).powerUp hpower, _, 0, hc, hsound.frameReady_eq⟩
  obtain ⟨c, hreached, x, n, hwaits, hready⟩ := hpowered
  obtain ⟨f, d, es, y, l, hrun, hwaits', hready'⟩ := runFrame_of_waits hk hwaits hready
  have hreached' : Reached d [f] := hreached.runFrame hrun
  obtain ⟨g, b, es', z, l', hrun', -, -⟩ := runFrame_of_waits hk hwaits' hready'
  have hcount : c.frameCount = 0 := (sound_of_reached hreached).1.frameCount_eq
  have hcount' : d.frameCount = 1 := (sound_of_reached hreached').1.frameCount_eq
  obtain ⟨t, hcompletes, hf, -⟩ := frame_of_completion hreached hwaits.powered hrun
  obtain ⟨u, hcompletes', hg, -⟩ := frame_of_completion hreached' hwaits'.powered hrun'
  rw [hcount] at hcompletes hf
  rw [hcount'] at hcompletes' hg
  exact ⟨c, d, b, f, g, es, es', hreached, hreached', hrun, hrun', ⟨t, hcompletes, hf⟩,
    u, hcompletes', hg⟩

end Console

end Famicom
