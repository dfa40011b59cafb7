import Famicom.Proofs.Console.Idle
import Famicom.Proofs.Console.Request

/-! How long frames take. Two frames have one dot less than twice the full number, and
three dots pass in every cycle, so that the cycles follow from the frames. -/

namespace Famicom

open Famicom.Action

namespace Picture.Position

variable {x : Position}

/-- Three dots have passed in each of `n` cycles. -/
structure Timed (x : Position) (n : Nat) : Prop where
  regular : x.Regular
  dots_eq : x.elapsed = 3 * n

theorem timed_clock {n : Nat} (hx : x.Bounded) (h : x.Timed n) :
    x.next.next.next.taken.Timed (n + 1) := by
  have hx₁ := bounded_next hx
  have hr₁ := regular_next h.regular
  have h₁ := elapsed_next hx h.regular
  have h₂ := elapsed_next hx₁ hr₁
  have h₃ := elapsed_next (bounded_next hx₁) (regular_next hr₁)
  have hdots := h.dots_eq
  have hregular := regular_next (regular_next hr₁)
  refine ⟨⟨hregular.oddFrame_eq, hregular.dot_pos⟩, ?_⟩
  change x.next.next.next.elapsed = _
  omega

end Picture.Position

namespace Console

variable {x : Picture.Position} {n m k : Nat} {c d : Console} {frames : List Frame}

/-- A frame is answered at the end of the first clock that has run all of its dots. -/
theorem RunsTo.timed {o : Outcome Fault Console Frame} (h : RunsTo m c o) (hc : c.Stands x n)
    (hready : x.frameReady = false) (ht : x.Timed n) {f : Frame} (hf : o.answer = .ok f) :
    ∃ y k, o.state.Stands y k ∧ y.frameReady = false ∧ y.frameCount = x.frameCount + 1 ∧
      y.Timed k ∧ y.elapsed < Picture.Position.dotsOf (x.frameCount + 1) + 3 := by
  refine RunsTo.rounds (motive := fun x n o => x.Timed n → o.answer = .ok f → ∃ y k,
    o.state.Stands y k ∧ y.frameReady = false ∧ y.frameCount = x.frameCount + 1 ∧ y.Timed k ∧
      y.elapsed < Picture.Position.dotsOf (x.frameCount + 1) + 3) ?_ ?_ ?_ h hc hready ht hf
  · intro x n e d es _ _ _ hanswer
    cases hanswer
  · intro x n f' d es hx hcount _ hd ht _
    have hnext := Picture.Position.timed_clock hx ht
    -- the last round began within the frame, and it adds three dots
    have hlt := Picture.Position.elapsed_lt hx
    have hbefore := ht.dots_eq
    have hafter := hnext.dots_eq
    exact ⟨_, n + 1, hd, rfl, hcount, hnext, by omega⟩
  · intro x n r d es es' hx hcount ih ht hanswer
    obtain ⟨y, k, hy, hyready, hycount, hytimed, hlt⟩ :=
      ih (Picture.Position.timed_clock hx ht) hanswer
    rw [show x.next.next.next.taken.frameCount = x.frameCount from hcount] at hycount hlt
    exact ⟨y, k, hy, hyready, hycount, hytimed, hlt⟩

/-- Requests that leave a new console off. -/
def Request.isPassive : Request → Bool
  | .insert _ | .insertFile _ | .eject | .mount _ _ | .unmount _ | .press _ _ | .release _ _ =>
    true
  | .powerUp | .runFrame | .stepFrame | .run _ => false

/-- New consoles that have not been powered up. -/
inductive Fresh : Console → Prop
  | new : Fresh {}
  | serve {c : Console} (r : Request) : r.isPassive → Fresh c → Fresh (r.serve c).2.state

/-- Consoles that have been powered up once and have then run for `n` frames. -/
inductive Played : Nat → Console → Prop
  | powerUp {c d : Console} {es : List Event} :
      Fresh c → powerUp c = ⟨.ok (), d, es⟩ → Played 0 d
  | press {n : Nat} {c : Console} (player : Player) (button : Button) :
      Played n c → Played n (c.press player button)
  | release {n : Nat} {c : Console} (player : Player) (button : Button) :
      Played n c → Played n (c.release player button)
  | frame {n : Nat} {c d : Console} {f : Frame} {es : List Event} :
      Played n c → runFrame c = ⟨.ok f, d, es⟩ → Played (n + 1) d

def withControllers (c : Console) (one two : Controller) : Console :=
  { c with processor := { c.processor with memory := { c.bus with one, two } } }

/-- What becomes of a console on a request that leaves a new one off. -/
theorem serve_passive {J : Console → Prop} (hkept : J c)
    (hinsert : ∀ image k, Cartridge.ofImage image = .ok k → J (c.inserted k))
    (heject : J c.ejected) (hcontrollers : ∀ one two, J (c.withControllers one two)) {r : Request}
    (h : r.isPassive) : J (r.serve c).2.state := by
  have himage : ∀ image, J (Console.insert image c).state := by
    intro image
    rcases hk : Cartridge.ofImage image with e | k
    · rw [insert_of_error hk]
      exact hkept
    · rw [insert_of_ok hk]
      exact hinsert image k hk
  -- inserting in whatever way comes to the same, and the rest of the requests are not passive
  cases r with
  | insert image => exact himage image
  | insertFile contents =>
    cases contents with
    | error reason => exact hkept
    | ok image => exact himage image
  | eject => exact heject
  | mount id image =>
    change J (Console.mount id image c).state
    rcases state_mount id image c with hstate | hstate
    · rw [hstate]
      exact himage image
    · rw [hstate]
      exact hkept
  | unmount id =>
    change J (Console.unmount id c).state
    rcases state_unmount id c with hstate | hstate
    · rw [hstate]
      exact heject
    · rw [hstate]
      exact hkept
  | press player button => cases player <;> exact hcontrollers _ _
  | release player button => cases player <;> exact hcontrollers _ _
  | powerUp => cases h
  | runFrame => cases h
  | stepFrame => cases h
  | run n => cases h

theorem serve_of_isPassive (c : Console) {r : Request} (h : r.isPassive) :
    (r.serve c).1 = [] ∧ (r.serve c).2.state.picture.position = c.picture.position := by
  refine ⟨?_, serve_passive (J := fun d => d.picture.position = c.picture.position) rfl
    (fun _ _ _ => rfl) rfl (fun _ _ => rfl) h⟩
  cases r with
  | powerUp => cases h
  | runFrame => cases h
  | stepFrame => cases h
  | run n => cases h
  | _ => rfl

/-- What every request keeps, if powering up and the run for one frame do. -/
structure RequestKeeps (J : Console → Prop) : Prop where
  passive {c : Console} (r : Request) : r.isPassive → J c → J (r.serve c).2.state
  powerUp {c : Console} {k : Nat} : c.Sound k → J c → J (powerUp c).state
  runFrame {c : Console} {k : Nat} : c.Sound k → J c → J (Console.runFrame c).state

theorem state_handOut (o : Outcome Fault Console Frame) : (handOut o).2.state = o.state := by
  rcases o with ⟨e | f, d, es⟩
  · rfl
  · rfl

namespace RequestKeeps

variable {J : Console → Prop} (hJ : RequestKeeps J)
include hJ

theorem runFrames (n : Nat) (h : c.Sound k) (hc : J c) :
    J (Console.runFrames n c).2.state := by
  induction n generalizing c k with
  | zero => exact hc
  | succ n ih =>
    have hframe := hJ.runFrame h hc
    have hsound := (serves_runFrame h).sound
    rw [state_handOut] at hsound
    unfold Console.runFrames
    rcases hrun : Console.runFrame c with ⟨e | f, d, es⟩
    · rw [hrun] at hframe
      exact hframe
    · rw [hrun] at hframe hsound
      exact ih hsound hframe

theorem run (n : Nat) (h : c.Sound k) (hc : J c) : J (Console.run n c).2.state := by
  have hsound := sound_powerUp h
  have hpower := hJ.powerUp h hc
  unfold Console.run
  rcases hu : Console.powerUp c with ⟨e | _, d, es⟩
  · rw [hu] at hpower
    exact hpower
  · rw [hu] at hsound hpower
    exact hJ.runFrames n hsound hpower

theorem stepFrame (h : c.Sound k) (hc : J c) : J (Console.stepFrame c).state := by
  by_cases hp : c.powered = true
  · rw [stepFrame_of_powered hp]
    exact hJ.runFrame h hc
  have hsound := sound_powerUp h
  have hpower := hJ.powerUp h hc
  rw [stepFrame_of_off (eq_false_of_ne_true hp)]
  rcases hu : Console.powerUp c with ⟨e | _, d, es⟩
  · rw [hu] at hpower
    rw [bind_of_error hu]
    exact hpower
  · rw [hu] at hsound hpower
    rw [bind_of_ok hu]
    exact hJ.runFrame hsound hpower

theorem serve (h : c.Sound k) (hc : J c) (r : Request) : J (r.serve c).2.state := by
  by_cases hr : r.isPassive = true
  · exact hJ.passive r hr hc
  cases r with
  | powerUp => exact hJ.powerUp h hc
  | runFrame => exact state_handOut (Console.runFrame c) ▸ hJ.runFrame h hc
  | stepFrame => exact state_handOut (Console.stepFrame c) ▸ hJ.stepFrame h hc
  | run n => exact hJ.run n h hc
  | _ => exact absurd rfl hr

theorem reached (hnew : J {}) (h : Reached c frames) : J c := by
  induction h with
  | new => exact hnew
  | serve r hc ih => exact hJ.serve (sound_of_reached hc).1 ih r

end RequestKeeps

theorem sound_of_fresh (h : Fresh c) :
    c.Sound 0 ∧ c.picture.position = Picture.powerOn.position := by
  induction h with
  | new => exact ⟨sound_new, rfl⟩
  | @serve c r hr _ ih =>
    obtain ⟨hnone, hposition⟩ := serve_of_isPassive c hr
    have hserves := (serves ih.1 r).sound
    rw [hnone] at hserves
    exact ⟨hserves, hposition.trans ih.2⟩

/-- What holds after `n` frames of a console that has been powered up once, which have taken `k`
cycles. -/
structure OnTime (n k : Nat) (c : Console) : Prop extends Sound n c where
  powered : c.powered = true
  cycles_eq : c.processor.cycles = .ofNat k
  timed : c.picture.position.Timed k
  elapsed_lt : c.picture.position.elapsed < Picture.Position.dotsOf n + 3

theorem OnTime.stands (h : c.OnTime n k) : c.Stands c.picture.position k :=
  ⟨h.powered, h.steady (h.cartridge_of_powered h.powered), h.cycles_eq⟩

theorem onTime_of_stands (h : c.Stands x k) (hready : x.frameReady = false)
    (hcount : x.frameCount = n) (ht : x.Timed k)
    (hlt : x.elapsed < Picture.Position.dotsOf n + 3) : c.OnTime n k := by
  have hsound := sound_of_stands h hready
  obtain rfl := h.steady.position_eq
  rw [hcount] at hsound
  exact ⟨hsound, h.powered, h.processor.cycles_eq, ht, hlt⟩

theorem onTime_of_played (h : Played n c) : ∃ k, c.OnTime n k := by
  induction h with
  | @powerUp c d es hfresh hpower =>
    obtain ⟨hsound, hposition⟩ := sound_of_fresh hfresh
    by_cases hc : c.cartridge.isSome
    -- no dot has passed, and the reset counts the cycles from zero
    · obtain ⟨u, es', hpower', hu⟩ := powerUp_of_inserted hsound hc
      rw [hpower'] at hpower
      cases hpower
      rw [hposition] at hu
      exact ⟨0, onTime_of_stands hu rfl rfl ⟨⟨rfl, fun h => by cases h⟩, rfl⟩ (by decide)⟩
    · rw [powerUp_of_empty (Option.not_isSome_iff_eq_none.mp hc)] at hpower
      cases hpower
  | press player button _ ih =>
    obtain ⟨k, hon⟩ := ih
    refine ⟨k, ?_⟩
    cases player <;> exact { sound_press hon.toSound _ button with
      powered := hon.powered, cycles_eq := hon.cycles_eq, timed := hon.timed,
      elapsed_lt := hon.elapsed_lt }
  | release player button _ ih =>
    obtain ⟨k, hon⟩ := ih
    refine ⟨k, ?_⟩
    cases player <;> exact { sound_release hon.toSound _ button with
      powered := hon.powered, cycles_eq := hon.cycles_eq, timed := hon.timed,
      elapsed_lt := hon.elapsed_lt }
  | @frame n c d f es _ hframe ih =>
    obtain ⟨k, hon⟩ := ih
    obtain ⟨m, -, hrun⟩ := runsTo_runFrame hon.stands hon.frameReady_eq
    rw [hframe] at hrun
    obtain ⟨y, k', hy, hready, hcount, htimed, hlt⟩ :=
      hrun.timed hon.stands hon.frameReady_eq hon.timed rfl
    have hn : c.picture.position.frameCount = n := hon.frameCount_eq
    rw [hn] at hcount hlt
    exact ⟨k', onTime_of_stands hy hready hcount htimed hlt⟩

theorem reached_of_fresh (h : Fresh c) : Reached c [] := by
  induction h with
  | new => exact .new
  | @serve c r hr _ ih =>
    have hserved := ih.serve r
    rw [(serve_of_isPassive c hr).1] at hserved
    exact hserved

/-- A console that has run for `n` frames has handed out as many. -/
theorem reached_of_played (h : Played n c) : ∃ frames, Reached c frames ∧ frames.length = n := by
  induction h with
  | powerUp hfresh hpower => exact ⟨[], (reached_of_fresh hfresh).powerUp hpower, rfl⟩
  | press player button _ ih =>
    obtain ⟨frames, hreached, hlength⟩ := ih
    have hserved := hreached.serve (.press player button)
    exact ⟨frames ++ [], hserved, by rw [List.append_nil, hlength]⟩
  | release player button _ ih =>
    obtain ⟨frames, hreached, hlength⟩ := ih
    have hserved := hreached.serve (.release player button)
    exact ⟨frames ++ [], hserved, by rw [List.append_nil, hlength]⟩
  | @frame n c d f es _ hrun ih =>
    obtain ⟨frames, hreached, hlength⟩ := ih
    exact ⟨frames ++ [f], hreached.runFrame hrun, by rw [List.length_append, hlength]; rfl⟩

/-- Under a program that waits, a console runs for any number of frames. -/
theorem played_of_waits {k : Cartridge} {a : UInt16} (hk : k.Waits a) (hfresh : Fresh c)
    (hc : c.cartridge = some k) (n : Nat) :
    ∃ d y l, Played n d ∧ d.Waits k a y l ∧ y.frameReady = false := by
  induction n with
  | zero =>
    have hsteady := (sound_of_fresh hfresh).1.steady (by rw [hc]; rfl)
    obtain ⟨d, es, hpower, hd⟩ := powerUp_of_waits hk hc hsteady
    exact ⟨d, _, 0, .powerUp hfresh hpower, hd, (sound_of_fresh hfresh).1.frameReady_eq⟩
  | succ n ih =>
    obtain ⟨d, y, l, hplayed, hd, hready⟩ := ih
    obtain ⟨f, u, es, z, l', hrun, hu, hready'⟩ := runFrame_of_waits hk hd hready
    exact ⟨u, z, l', hplayed.frame hrun, hu, hready'⟩

/-- After `n` frames of a console that has been powered up once, the cycles are a third of the dots
of these frames, rounded up, whatever the program does. However a console is reached, a run for a
frame ends within 29781 clocks, and the frames handed out are those that have been counted. -/
theorem frames_on_time :
    (∀ n c, Played n c → c.frameCount = n ∧
      c.processor.cycles = .ofNat ((89342 * ((n + 1) / 2) + 89341 * (n / 2) + 2) / 3)) ∧
    ∀ c frames, Reached c frames → c.frameCount = frames.length ∧
      (c.powered = false ∧ runFrame c = ⟨.error .notPoweredUp, c, []⟩ ∨
        c.powered = true ∧ ∃ m, m ≤ 29781 ∧ RunsTo m c (runFrame c)) := by
  refine ⟨?_, ?_⟩
  · intro n c h
    obtain ⟨k, hon⟩ := onTime_of_played h
    have hlow := Picture.Position.dotsOf_le hon.timed.regular
    have hdots := hon.timed.dots_eq
    have hlt := hon.elapsed_lt
    have hcount : c.picture.position.frameCount = n := hon.frameCount_eq
    rw [hcount] at hlow
    unfold Picture.Position.dotsOf at hlow hlt
    -- `dotsOf n ≤ 3 * k` and `3 * k < dotsOf n + 3`
    have hk : k = (89342 * ((n + 1) / 2) + 89341 * (n / 2) + 2) / 3 := by omega
    exact ⟨hon.frameCount_eq, hk ▸ hon.cycles_eq⟩
  · intro c frames h
    have hsound := (sound_of_reached h).1
    refine ⟨hsound.frameCount_eq, ?_⟩
    by_cases hp : c.powered = true
    · exact Or.inr ⟨hp, runsTo_runFrame (hsound.stands hp) hsound.frameReady_eq⟩
    · exact Or.inl ⟨eq_false_of_ne_true hp, if_neg hp⟩

/-- Two frames of a program that waits. -/
theorem frames_on_time_of_waiting : ∃ c frames, Played 2 c ∧ Reached c frames ∧
    c.frameCount = 2 ∧ c.processor.cycles = 59561 ∧ frames.length = 2 ∧
      ∃ m, m ≤ 29781 ∧ RunsTo m c (runFrame c) := by
  obtain ⟨image, k, a, himage, hk⟩ := Cartridge.exists_waits
  obtain ⟨c, y, l, hplayed, hwaits, -⟩ :=
    played_of_waits hk (.serve (.insert image) rfl .new) (cartridge_insert himage) 2
  obtain ⟨frames, hreached, hlength⟩ := reached_of_played hplayed
  obtain ⟨hcount, hcycles⟩ := frames_on_time.1 2 c hplayed
  obtain ⟨-, ⟨hoff, -⟩ | ⟨-, hrun⟩⟩ := frames_on_time.2 c frames hreached
  · rw [hwaits.powered] at hoff
    cases hoff
  · exact ⟨c, frames, hplayed, hreached, hcount, hcycles, hlength, hrun⟩

end Console

end Famicom
