import Famicom.Proofs.Console.Frame

/-! Everything that can be asked of the console from outside, and what holds of the
console between two requests, whatever has been asked of it before. -/

namespace Famicom

open Famicom.Action

/-- A reset is another power-up. -/
inductive Console.Request
  | insert (image : Array UInt8)
  | insertFile (contents : Except String (Array UInt8))
  | eject
  | mount (id : String) (image : Array UInt8)
  | unmount (id : String)
  | powerUp
  | runFrame
  | stepFrame
  | run (n : Nat)
  | press (player : Player) (button : Button)
  | release (player : Player) (button : Button)

namespace Console

/-- A frame is handed out if it is answered. -/
def handOut : Outcome Fault Console Frame → List Frame × Outcome Fault Console Unit
  | ⟨.ok frame, c, es⟩ => ([frame], ⟨.ok (), c, es⟩)
  | ⟨.error e, c, es⟩ => ([], ⟨.error e, c, es⟩)

/-- The frames that a request hands out, and how it ends. -/
def Request.serve (c : Console) : Request → List Frame × Outcome Fault Console Unit
  | .insert image => ([], Console.insert image c)
  | .insertFile contents => ([], Console.insertFile contents c)
  | .eject => ([], Console.eject c)
  | .mount id image => ([], Console.mount id image c)
  | .unmount id => ([], Console.unmount id c)
  | .powerUp => ([], Console.powerUp c)
  | .runFrame => handOut (Console.runFrame c)
  | .stepFrame => handOut (Console.stepFrame c)
  | .run n => Console.run n c
  | .press player button => ([], ⟨.ok (), c.press player button, []⟩)
  | .release player button => ([], ⟨.ok (), c.release player button, []⟩)

/-- The consoles that requests lead to from a new one, each with the frames handed out so far. -/
inductive Reached : Console → List Frame → Prop
  | new : Reached {} []
  | serve {c : Console} {frames : List Frame} (r : Request) :
      Reached c frames → Reached (r.serve c).2.state (frames ++ (r.serve c).1)

/-- What holds between two requests once `k` frames have been handed out. -/
structure Sound (k : Nat) (c : Console) : Prop where
  picture : c.picture.Sound
  wired : c.Wired
  cartridge_of_powered : c.powered = true → c.cartridge.isSome
  frameReady_eq : c.picture.frameReady = false
  frameCount_eq : c.frameCount = k

/-- A request keeps the console sound and hands out whole frames, all of which it counts. -/
structure Serves (k : Nat) (r : List Frame × Outcome Fault Console Unit) : Prop where
  sound : r.2.state.Sound (k + r.1.length)
  whole : ∀ f ∈ r.1, f.Whole

variable {x : Picture.Position} {n m k : Nat} {c d : Console}

theorem serves_of_sound {o : Outcome Fault Console Unit} (h : o.state.Sound k) :
    Serves k ([], o) :=
  ⟨h, fun f hf => by cases hf⟩

theorem sound_new : Sound 0 {} where
  picture := Picture.sound_powerOn
  wired := ⟨rfl, rfl⟩
  cartridge_of_powered := fun h => by cases h
  frameReady_eq := rfl
  frameCount_eq := rfl

theorem Sound.steady (h : c.Sound k) (hc : c.cartridge.isSome) :
    c.bus.Steady c.slot c.picture.position :=
  h.wired.steady h.picture hc

theorem Sound.stands (h : c.Sound k) (hp : c.powered = true) :
    c.Stands c.picture.position c.processor.cycles.toNat :=
  ⟨hp, h.steady (h.cartridge_of_powered hp), UInt64.ofNat_toNat.symm⟩

theorem sound_of_stands (h : c.Stands x n) (hready : x.frameReady = false) :
    c.Sound x.frameCount := by
  have hposition := h.steady.position_eq
  refine ⟨h.steady.toSound, h.wired, fun _ => h.cartridge, ?_, ?_⟩
  · rw [← hready, ← hposition]
    rfl
  · rw [← hposition]
    rfl

theorem state_mount (id : String) (image : Array UInt8) (c : Console) :
    (Console.mount id image c).state = (Console.insert image c).state ∨
      (Console.mount id image c).state = c := by
  unfold Console.mount
  rw [Action.ite_apply]
  split
  · left
    rcases hi : Console.insert image c with ⟨e | _, d, es⟩
    · rw [bind_of_error hi]
    · rw [bind_of_ok hi]
      rfl
  · right
    rfl

theorem state_unmount (id : String) (c : Console) :
    (Console.unmount id c).state = (Console.eject c).state ∨
      (Console.unmount id c).state = c := by
  unfold Console.unmount
  rw [Action.ite_apply]
  split
  · left
    rfl
  · right
    rfl

theorem sound_inserted (h : c.Sound n) (k : Cartridge) : (c.inserted k).Sound n :=
  ⟨{ h.picture with }, wired_inserted c k, fun hp => (by cases hp), h.frameReady_eq,
    h.frameCount_eq⟩

theorem sound_insert (h : c.Sound k) (image : Array UInt8) :
    (Console.insert image c).state.Sound k := by
  rcases hk : Cartridge.ofImage image with e | cartridge
  · rw [insert_of_error hk]
    exact h
  · rw [insert_of_ok hk]
    exact sound_inserted h cartridge

theorem sound_eject (h : c.Sound k) : (Console.eject c).state.Sound k :=
  ⟨{ h.picture with }, wired_ejected c, fun hp => (by cases hp), h.frameReady_eq,
    h.frameCount_eq⟩

theorem sound_mount (h : c.Sound k) (id : String) (image : Array UInt8) :
    (Console.mount id image c).state.Sound k := by
  rcases state_mount id image c with hstate | hstate
  · rw [hstate]
    exact sound_insert h image
  · rw [hstate]
    exact h

theorem sound_unmount (h : c.Sound k) (id : String) : (Console.unmount id c).state.Sound k := by
  rcases state_unmount id c with hstate | hstate
  · rw [hstate]
    exact sound_eject h
  · rw [hstate]
    exact h

theorem sound_press (h : c.Sound k) (player : Player) (button : Button) :
    (c.press player button).Sound k := by
  have hwired := h.wired
  cases player <;> exact { h with wired := ⟨hwired.slot_eq, hwired.bus⟩ }

theorem sound_release (h : c.Sound k) (player : Player) (button : Button) :
    (c.release player button).Sound k := by
  have hwired := h.wired
  cases player <;> exact { h with wired := ⟨hwired.slot_eq, hwired.bus⟩ }

theorem powerUp_of_empty (hc : c.cartridge = none) : powerUp c = ⟨.error .noCartridge, c, []⟩ := by
  unfold powerUp
  rw [view_bind, hc]
  rfl

/-- With a cartridge in the slot a power-up succeeds, and it switches on a processor that owes
nothing. -/
theorem powerUp_eq (h : c.Sound k) (hc : c.cartridge.isSome) : ∃ pc es, powerUp c = ⟨.ok (),
    ⟨{ Processor.powerOn c.bus with registers := { Registers.powerOn with pc } }, c.slot, true⟩,
      es⟩ := by
  obtain ⟨low, hlow⟩ := Bus.readCartridge_of_steady (h.steady hc)
    (show ¬Processor.resetVector < 0x6000 by decide)
  obtain ⟨high, hhigh⟩ := Bus.readCartridge_of_steady (h.steady hc)
    (show ¬Processor.resetVector + 1 < 0x6000 by decide)
  obtain ⟨es, hreset⟩ := Processor.reset_eq (p := c.processor) hlow hhigh
  exact ⟨_, _, powerUp_of_reset hc hreset⟩

/-- The picture unit goes on where it is. -/
theorem powerUp_of_inserted (h : c.Sound k) (hc : c.cartridge.isSome) :
    ∃ d es, powerUp c = ⟨.ok (), d, es⟩ ∧ d.Stands c.picture.position 0 := by
  obtain ⟨pc, es, hpower⟩ := powerUp_eq h hc
  exact ⟨_, es, hpower, rfl, h.steady hc, rfl⟩

theorem sound_powerUp (h : c.Sound k) : (powerUp c).state.Sound k := by
  by_cases hc : c.cartridge.isSome
  · obtain ⟨d, es, hpower, hd⟩ := powerUp_of_inserted h hc
    have hsound := sound_of_stands hd h.frameReady_eq
    rw [show c.picture.position.frameCount = k from h.frameCount_eq] at hsound
    rw [hpower]
    exact hsound
  · rw [powerUp_of_empty (Option.not_isSome_iff_eq_none.mp hc)]
    exact h

theorem serves_runFrame (h : c.Sound k) : Serves k (handOut (Console.runFrame c)) := by
  by_cases hp : c.powered = true
  · obtain ⟨m, -, hrun⟩ := runsTo_runFrame (h.stands hp) h.frameReady_eq
    obtain ⟨y, n, hy, hready, hends⟩ := hrun.ends (h.stands hp) h.frameReady_eq
    have hsound := sound_of_stands hy hready
    have hcount : c.picture.position.frameCount = k := h.frameCount_eq
    rw [hcount] at hends
    rcases hframe : Console.runFrame c with ⟨answer, d, es⟩
    rw [hframe] at hsound hends
    -- a run that fails leaves the count alone, and one that answers adds its own frame to it
    rcases hends with ⟨e, rfl, -, hsame⟩ | ⟨f, rfl, hf, hnext⟩
    · rw [hsame] at hsound
      exact serves_of_sound hsound
    · rw [hnext] at hsound
      refine ⟨hsound, ?_⟩
      intro f' hf'
      rw [List.mem_singleton.mp hf']
      exact hf
  · unfold Console.runFrame
    rw [if_neg hp]
    exact serves_of_sound h

/-- What is handed out over several requests is handed out by the first and by those after it. -/
theorem Serves.append {frames : List Frame} {o : Outcome Fault Console Unit}
    {r : List Frame × Outcome Fault Console Unit} (h : Serves k (frames, o))
    (hr : ∀ k', o.state.Sound k' → Serves k' r) : Serves k (frames ++ r.1, r.2) := by
  -- the rest starts with the count that the first part leaves
  have hrest := hr _ h.sound
  refine ⟨?_, ?_⟩
  · have hsound := hrest.sound
    rw [Nat.add_assoc, ← List.length_append] at hsound
    exact hsound
  · intro f hf
    rcases List.mem_append.mp hf with hf | hf
    · exact h.whole f hf
    · exact hrest.whole f hf

theorem serves_runFrames (n : Nat) (h : c.Sound k) : Serves k (runFrames n c) := by
  induction n generalizing c k with
  | zero => exact serves_of_sound h
  | succ n ih =>
    have hframe := serves_runFrame h
    unfold runFrames
    rcases hrun : Console.runFrame c with ⟨e | f, d, es⟩
    · rw [hrun] at hframe
      exact hframe
    · rw [hrun] at hframe
      -- the frames to come are counted on from this one
      have happend := hframe.append (r := runFrames n d) fun k' hk' => ih hk'
      exact ⟨happend.sound, happend.whole⟩

theorem serves_run (n : Nat) (h : c.Sound k) : Serves k (Console.run n c) := by
  have hpower := sound_powerUp h
  unfold Console.run
  rcases hp : powerUp c with ⟨e | _, d, es⟩
  · rw [hp] at hpower
    exact serves_of_sound hpower
  · rw [hp] at hpower
    have hframes := serves_runFrames n hpower
    exact ⟨hframes.sound, hframes.whole⟩

theorem stepFrame_of_powered (hp : c.powered = true) : Console.stepFrame c = runFrame c := by
  unfold Console.stepFrame
  rw [view_bind, hp]
  rfl

theorem stepFrame_of_off (hp : c.powered = false) :
    Console.stepFrame c = (do powerUp; Console.runFrame) c := by
  unfold Console.stepFrame
  rw [view_bind, hp]
  rfl

theorem serves_stepFrame (h : c.Sound k) : Serves k (handOut (Console.stepFrame c)) := by
  by_cases hp : c.powered = true
  · rw [stepFrame_of_powered hp]
    exact serves_runFrame h
  have hpower := sound_powerUp h
  rw [stepFrame_of_off (eq_false_of_ne_true hp)]
  rcases hu : powerUp c with ⟨e | _, d, es⟩
  · rw [hu] at hpower
    rw [bind_of_error hu]
    exact serves_of_sound hpower
  · rw [hu] at hpower
    have hframe := serves_runFrame hpower
    rw [bind_of_ok hu]
    rcases hf : Console.runFrame d with ⟨e | f, u, es'⟩
    · rw [hf] at hframe
      exact ⟨hframe.sound, hframe.whole⟩
    · rw [hf] at hframe
      exact ⟨hframe.sound, hframe.whole⟩

theorem serves (h : c.Sound k) (r : Request) : Serves k (r.serve c) := by
  cases r with
  | insert image => exact serves_of_sound (sound_insert h image)
  | insertFile contents =>
    cases contents with
    | error reason => exact serves_of_sound h
    | ok image => exact serves_of_sound (sound_insert h image)
  | eject => exact serves_of_sound (sound_eject h)
  | mount id image => exact serves_of_sound (sound_mount h id image)
  | unmount id => exact serves_of_sound (sound_unmount h id)
  | powerUp => exact serves_of_sound (sound_powerUp h)
  | runFrame => exact serves_runFrame h
  | stepFrame => exact serves_stepFrame h
  | run n => exact serves_run n h
  | press player button => exact serves_of_sound (sound_press h player button)
  | release player button => exact serves_of_sound (sound_release h player button)

theorem Reached.powerUp {frames : List Frame} {es : List Event} (h : Reached c frames)
    (hpower : Console.powerUp c = ⟨.ok (), d, es⟩) : Reached d frames := by
  have hserved := h.serve .powerUp
  unfold Request.serve at hserved
  rw [hpower, List.append_nil] at hserved
  exact hserved

theorem Reached.runFrame {frames : List Frame} {f : Frame} {es : List Event}
    (h : Reached c frames) (hrun : Console.runFrame c = ⟨.ok f, d, es⟩) :
    Reached d (frames ++ [f]) := by
  have hserved := h.serve .runFrame
  unfold Request.serve at hserved
  rw [hrun] at hserved
  exact hserved

/-- However a console is reached, it is sound and has counted the frames it has handed out. -/
theorem sound_of_reached {frames : List Frame} (h : Reached c frames) :
    c.Sound frames.length ∧ ∀ f ∈ frames, f.Whole := by
  induction h with
  | new => exact ⟨sound_new, fun f hf => by cases hf⟩
  | serve r _ ih =>
    -- the request counts on from the frames handed out before it
    have hserves := serves ih.1 r
    refine ⟨?_, ?_⟩
    · rw [List.length_append]
      exact hserves.sound
    · intro f hf
      rcases List.mem_append.mp hf with hf | hf
      · exact ih.2 f hf
      · exact hserves.whole f hf

end Console

end Famicom
