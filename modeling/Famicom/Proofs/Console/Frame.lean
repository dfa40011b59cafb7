import Famicom.Proofs.Console.Clock

/-! The run for one frame. The bound on its clocks is never what ends it: it ends with
the first clock that completes a frame or fails. -/

namespace Famicom

namespace Picture.Position

variable {x : Position}

/-- The place once the frame has been taken. -/
def taken (x : Position) : Position := { x with frameReady := false }

/-- The three dots of a clock either all belong to a frame that goes on, or one of them completes
it. -/
theorem next_of_clock (hx : x.Bounded) :
    (3 < x.left ∧ x.next.next.next.left + 3 = x.left ∧
      x.next.next.next.frameReady = x.frameReady ∧
      x.next.next.next.frameCount = x.frameCount) ∨
    (x.left ≤ 3 ∧ x.next.next.next.frameReady = true ∧
      x.next.next.next.frameCount = x.frameCount + 1) := by
  have hx₁ := bounded_next hx
  have hx₂ := bounded_next hx₁
  -- dot by dot: a frame is longer than three dots, so at most one of them completes it
  by_cases h₁ : 1 < x.left
  · obtain ⟨hleft₁, hready₁, hcount₁⟩ := next_of_left hx h₁
    by_cases h₂ : 1 < x.next.left
    · obtain ⟨hleft₂, hready₂, hcount₂⟩ := next_of_left hx₁ h₂
      by_cases h₃ : 1 < x.next.next.left
      · obtain ⟨hleft₃, hready₃, hcount₃⟩ := next_of_left hx₂ h₃
        left
        exact ⟨by omega, by omega, by rw [hready₃, hready₂, hready₁], by omega⟩
      · obtain ⟨hready₃, hcount₃, -⟩ := next_of_last hx₂ (by omega)
        right
        exact ⟨by omega, hready₃, by omega⟩
    · obtain ⟨hready₂, hcount₂, hleft₂⟩ := next_of_last hx₁ (by omega)
      obtain ⟨-, hready₃, hcount₃⟩ := next_of_left hx₂ (by omega)
      right
      exact ⟨by omega, hready₃.trans hready₂, by omega⟩
  · obtain ⟨hready₁, hcount₁, hleft₁⟩ := next_of_last hx (by omega)
    obtain ⟨hleft₂, hready₂, hcount₂⟩ := next_of_left hx₁ (by omega)
    obtain ⟨-, hready₃, hcount₃⟩ := next_of_left hx₂ (by omega)
    right
    exact ⟨by omega, by rw [hready₃, hready₂, hready₁], by omega⟩

end Picture.Position

/-- A whole picture in colours of six bits. -/
structure Frame.Whole (f : Frame) : Prop where
  width_eq : f.width = 256
  height_eq : f.height = 240
  size_eq : f.pixels.size = 61440
  pixels_le : ∀ v ∈ f.pixels, v ≤ 0x3F

namespace Console

open Famicom.Action

variable {x : Picture.Position} {n m : Nat} {c d : Console}

theorem whole_frameOf {p : Picture} (h : p.Sound) : (frameOf p.pixels).Whole where
  width_eq := rfl
  height_eq := rfl
  size_eq := p.pixels.size_toArray
  pixels_le := fun v hv => h.pixels_le v ⟨hv⟩

/-- One round of the run for a frame. -/
def clockAndTake : Action Fault Console (Option Frame) := do
  clock
  takeFrame

/-- The run for a frame, without a bound: it ends after `m` rounds. -/
inductive RunsTo : Nat → Console → Outcome Fault Console Frame → Prop
  | fault {c d : Console} {e : Fault} {es : List Event} :
      clockAndTake c = ⟨.error e, d, es⟩ → RunsTo 1 c ⟨.error e, d, es⟩
  | frame {c d : Console} {f : Frame} {es : List Event} :
      clockAndTake c = ⟨.ok (some f), d, es⟩ → RunsTo 1 c ⟨.ok f, d, es⟩
  | again {c d u : Console} {m : Nat} {r : Except Fault Frame} {es es' : List Event} :
      clockAndTake c = ⟨.ok none, d, es⟩ → RunsTo m d ⟨r, u, es'⟩ →
      RunsTo (m + 1) c ⟨r, u, es ++ es'⟩

/-- A frame that has been completed is taken once. -/
theorem takeFrame_of_stands (h : c.Stands x n) :
    ∃ d, takeFrame c =
        ⟨.ok (if x.frameReady then some (frameOf c.picture.pixels) else none), d, []⟩ ∧
      d.Stands x.taken n := by
  have hsteady := h.steady
  have hready : c.picture.frameReady = x.frameReady := by rw [← hsteady.position_eq]; rfl
  refine ⟨c.withPicture { c.picture with frameReady := false }, ?_, ?_⟩
  · unfold takeFrame
    rw [bind_of_ok (onBus_onPicture_of_ok rfl), pure_apply, hready]
    cases x.frameReady <;> rfl
  · refine stands_withPicture h { hsteady with position_eq := ?_ } rfl
    rw [← hsteady.position_eq]
    rfl

/-- A round fails in the processor, or completes a frame with its last dots, or goes on. -/
theorem clockAndTake_of_stands (h : c.Stands x n) (hready : x.frameReady = false) :
    (∃ e d es, clockAndTake c = ⟨.error (.processor e), d, es⟩ ∧
      e.From Bus.Fault.Refused ∧ d.Stands x (n + 1)) ∨
    (x.left ≤ 3 ∧ x.next.next.next.frameCount = x.frameCount + 1 ∧
      ∃ f d es, clockAndTake c = ⟨.ok (some f), d, es⟩ ∧ f.Whole ∧
        d.Stands x.next.next.next.taken (n + 1)) ∨
    (3 < x.left ∧ x.next.next.next.left + 3 = x.left ∧
      x.next.next.next.frameCount = x.frameCount ∧ ∃ d es, clockAndTake c = ⟨.ok none, d, es⟩ ∧
        d.Stands x.next.next.next.taken (n + 1)) := by
  unfold clockAndTake
  rcases clock_of_stands h with ⟨d, es, hclock, hd⟩ | ⟨e, d, es, hclock, he, hd⟩
  · obtain ⟨u, htake, hu⟩ := takeFrame_of_stands hd
    -- no frame was ready before, so the one that is taken is one that these dots completed
    have hround := bind_of_ok (f := fun _ => takeFrame) hclock
    rw [htake] at hround
    right
    rcases Picture.Position.next_of_clock h.steady.bounded with
      ⟨hmore, hleft, hsame, hcount⟩ | ⟨hlast, hdone, hcount⟩
    · right
      rw [hsame, hready] at hround
      exact ⟨hmore, hleft, hcount, u, _, hround, hu⟩
    · left
      rw [hdone] at hround
      exact ⟨hlast, hcount, _, u, _, hround, whole_frameOf hd.steady.toSound, hu⟩
  · left
    exact ⟨e, d, es, bind_of_error hclock, he, hd⟩

theorem clockUntilFrame_of_error {e : Fault} {es : List Event} (k : Nat) (past : Array Event)
    (h : clockAndTake c = ⟨.error e, d, es⟩) :
    clockUntilFrame k past c = ⟨.error e, d, (past ++ es).toList⟩ := by
  unfold clockAndTake at h
  unfold clockUntilFrame
  rw [h]

theorem clockUntilFrame_of_frame {f : Frame} {es : List Event} (k : Nat) (past : Array Event)
    (h : clockAndTake c = ⟨.ok (some f), d, es⟩) :
    clockUntilFrame k past c = ⟨.ok f, d, (past ++ es).toList⟩ := by
  unfold clockAndTake at h
  unfold clockUntilFrame
  rw [h]

theorem clockUntilFrame_of_none {es : List Event} (k : Nat) (past : Array Event)
    (h : clockAndTake c = ⟨.ok none, d, es⟩) :
    clockUntilFrame (k + 1) past c = clockUntilFrame k (past ++ es) d := by
  unfold clockAndTake at h
  rw [clockUntilFrame, h]

/-- The bounded run is the run without a bound, if the bound covers the dots that are left. -/
theorem runsTo_clockUntilFrame (k : Nat) (past : Array Event) (h : c.Stands x n)
    (hready : x.frameReady = false) (hleft : x.left ≤ 3 * (k + 1)) :
    ∃ m r d es, m ≤ k + 1 ∧ RunsTo m c ⟨r, d, es⟩ ∧
      clockUntilFrame k past c = ⟨r, d, past.toList ++ es⟩ := by
  -- the induction is on the bound, which covers three dots fewer after every round
  induction k generalizing c x n past with
  | zero =>
    rcases clockAndTake_of_stands h hready with
      ⟨e, d, es, hround, -⟩ | ⟨-, -, f, d, es, hround, -⟩ | ⟨hmore, -⟩
    · refine ⟨1, _, d, es, le_refl 1, .fault hround, ?_⟩
      rw [clockUntilFrame_of_error 0 past hround, Array.toList_appendList]
    · refine ⟨1, _, d, es, le_refl 1, .frame hround, ?_⟩
      rw [clockUntilFrame_of_frame 0 past hround, Array.toList_appendList]
    -- at most three dots were left, too few for a round that goes on
    · omega
  | succ k ih =>
    rcases clockAndTake_of_stands h hready with
      ⟨e, d, es, hround, -⟩ | ⟨-, -, f, d, es, hround, -⟩ | ⟨-, hmore, -, d, es, hround, hd⟩
    · refine ⟨1, _, d, es, by omega, .fault hround, ?_⟩
      rw [clockUntilFrame_of_error _ past hround, Array.toList_appendList]
    · refine ⟨1, _, d, es, by omega, .frame hround, ?_⟩
      rw [clockUntilFrame_of_frame _ past hround, Array.toList_appendList]
    · obtain ⟨m, r, u, es', hm, hrun, hclock⟩ := ih (past ++ es) hd rfl (by
        change x.next.next.next.left ≤ _
        omega)
      refine ⟨m + 1, r, u, es ++ es', by omega, .again hround hrun, ?_⟩
      rw [clockUntilFrame_of_none k past hround, hclock, Array.toList_appendList,
        List.append_assoc]

/-- From between two frames, the run for a frame is a run without a bound of that many rounds. -/
theorem runsTo_runFrame (h : c.Stands x n) (hready : x.frameReady = false) :
    ∃ m, m ≤ 29781 ∧ RunsTo m c (runFrame c) := by
  have hdots : c.picture.dotsLeft = x.left := by
    rw [← h.steady.position_eq]
    rfl
  have hleft := x.left_le
  obtain ⟨m, r, d, es, hm, hrun, hclock⟩ :=
    runsTo_clockUntilFrame (c.picture.dotsLeft / 3) #[] h hready (by omega)
  refine ⟨m, by omega, ?_⟩
  unfold runFrame
  rw [h.powered]
  dsimp only
  rw [if_pos rfl, hclock]
  exact hrun

/-- Induction over the rounds of a run that starts between two frames. -/
theorem RunsTo.rounds {motive : Picture.Position → Nat → Outcome Fault Console Frame → Prop}
    (fault : ∀ x n e d es, e.From Bus.Fault.Refused → d.Stands x (n + 1) →
      motive x n ⟨.error (.processor e), d, es⟩)
    (frame : ∀ x n f d es, x.Bounded → x.next.next.next.frameCount = x.frameCount + 1 →
      f.Whole → d.Stands x.next.next.next.taken (n + 1) → motive x n ⟨.ok f, d, es⟩)
    (again : ∀ x n r d es es', x.Bounded → x.next.next.next.frameCount = x.frameCount →
      motive x.next.next.next.taken (n + 1) ⟨r, d, es'⟩ → motive x n ⟨r, d, es ++ es'⟩)
    {o : Outcome Fault Console Frame} (h : RunsTo m c o) (hc : c.Stands x n)
    (hready : x.frameReady = false) : motive x n o := by
  -- where the console stands decides which of the three ways a round ends, and the run
  -- agrees with one of them only
  induction h generalizing x n with
  | fault hround =>
    rcases clockAndTake_of_stands hc hready with
      ⟨e, d, es, hround', he, hd⟩ | ⟨-, -, f, d, es, hround', -⟩ | ⟨-, -, -, d, es, hround', -⟩
    · rw [hround'] at hround
      cases hround
      exact fault x n e _ _ he hd
    · rw [hround'] at hround
      cases hround
    · rw [hround'] at hround
      cases hround
  | frame hround =>
    rcases clockAndTake_of_stands hc hready with
      ⟨e, d, es, hround', -⟩ | ⟨-, hcount, f, d, es, hround', hf, hd⟩ | ⟨-, -, -, d, es, hround', -⟩
    · rw [hround'] at hround
      cases hround
    · rw [hround'] at hround
      cases hround
      exact frame x n _ _ _ hc.steady.bounded hcount hf hd
    · rw [hround'] at hround
      cases hround
  | again hround _ ih =>
    rcases clockAndTake_of_stands hc hready with
      ⟨e, d, es, hround', -⟩ | ⟨-, -, f, d, es, hround', -⟩ | ⟨-, -, hcount, d, es, hround', hd⟩
    · rw [hround'] at hround
      cases hround
    · rw [hround'] at hround
      cases hround
    · rw [hround'] at hround
      cases hround
      exact again x n _ _ _ _ hc.steady.bounded hcount (ih hd rfl)

/-- How a run for a frame ends. A frame is counted exactly if it is answered. -/
theorem RunsTo.ends {o : Outcome Fault Console Frame} (h : RunsTo m c o) (hc : c.Stands x n)
    (hready : x.frameReady = false) :
    ∃ y k, o.state.Stands y k ∧ y.frameReady = false ∧
      ((∃ e, o.answer = .error (.processor e) ∧ e.From Bus.Fault.Refused ∧
          y.frameCount = x.frameCount) ∨
        ∃ f, o.answer = .ok f ∧ f.Whole ∧ y.frameCount = x.frameCount + 1) := by
  refine RunsTo.rounds (motive := fun x _ o => x.frameReady = false → ∃ y k, o.state.Stands y k ∧
    y.frameReady = false ∧ ((∃ e, o.answer = .error (.processor e) ∧
      e.From Bus.Fault.Refused ∧ y.frameCount = x.frameCount) ∨
        ∃ f, o.answer = .ok f ∧ f.Whole ∧ y.frameCount = x.frameCount + 1))
    ?_ ?_ ?_ h hc hready hready
  · exact fun x n e d es he hd hx => ⟨x, n + 1, hd, hx, Or.inl ⟨e, rfl, he, rfl⟩⟩
  · exact fun x n f d es _ hcount hf hd _ =>
      ⟨_, n + 1, hd, rfl, Or.inr ⟨f, rfl, hf, hcount⟩⟩
  · intro x n r d es es' _ hcount ih _
    obtain ⟨y, k, hy, hyready, hends⟩ := ih rfl
    rw [show x.next.next.next.taken.frameCount = x.frameCount from hcount] at hends
    exact ⟨y, k, hy, hyready, hends⟩

end Console

end Famicom
