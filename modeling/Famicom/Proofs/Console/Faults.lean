import Famicom.Proofs.Console.Idle
import Famicom.Proofs.Console.Request

/-! What can go wrong while a console runs. Only the program can: it can jam the
processor, or make an access that no device takes. -/

namespace Famicom.Console

open Famicom.Action

variable {x : Picture.Position} {n : Nat} {c d : Console} {frames : List Frame}

/-- The faults that a program can cause. -/
inductive Fault.OfProgram : Fault → Prop
  | jammed (opcode : UInt8) (pc : UInt16) : OfProgram (.processor (.jammed opcode pc))
  | writeOnlyRegister (addr : UInt16) : OfProgram (.processor (.memory (.writeOnlyRegister addr)))
  | readOnlyRegister (addr : UInt16) : OfProgram (.processor (.memory (.readOnlyRegister addr)))
  | invalidAddress (addr : UInt16) : OfProgram (.processor (.memory (.invalidAddress addr)))

theorem ofProgram_of_from {e : Processor.Fault Bus.Fault} (h : e.From Bus.Fault.Refused) :
    Fault.OfProgram (.processor e) := by
  cases e with
  | jammed opcode pc => exact .jammed opcode pc
  | memory f =>
    cases f with
    | writeOnlyRegister addr => exact .writeOnlyRegister addr
    | readOnlyRegister addr => exact .readOnlyRegister addr
    | invalidAddress addr => exact .invalidAddress addr
    | noCartridge => exact h.elim
    | cartridge fault => exact h.elim

/-- The consoles within a run, at every point of a clock. -/
inductive Running : Console → Prop
  | start {c : Console} {frames : List Frame} :
      Reached c frames → c.powered = true → Running c
  | processor {c d : Console} {es : List Event} :
      Running c → onProcessor clockProcessor c = ⟨.ok (), d, es⟩ → Running d
  | dot {c d : Console} {es : List Event} :
      Running c → onBus (Bus.onPicture Picture.tick) c = ⟨.ok (), d, es⟩ → Running d
  | poll {c d : Console} {raised : Bool} {es : List Event} :
      Running c → onBus (Bus.onPicture Picture.takeNmi) c = ⟨.ok raised, d, es⟩ → Running d
  | nmi {c d : Console} {es : List Event} :
      Running c → onProcessor Processor.nmi c = ⟨.ok (), d, es⟩ → Running d
  | take {c d : Console} {f : Option Frame} {es : List Event} :
      Running c → takeFrame c = ⟨.ok f, d, es⟩ → Running d

theorem stands_of_running (h : Running c) : ∃ x n, c.Stands x n := by
  induction h with
  | start hreached hp => exact ⟨_, _, (sound_of_reached hreached).1.stands hp⟩
  -- each part of a clock is known to lead from one point of a run to another
  | @processor c d es _ hd ih =>
    obtain ⟨x, n, hc⟩ := ih
    have hclock := Processor.clockProcessor_of_stands hc.processor
    rcases hp : clockProcessor c.processor with ⟨e | _, p, es'⟩
    · rw [onProcessor_of_error hp] at hd
      cases hd
    · rw [hp] at hclock
      rw [onProcessor_of_ok hp] at hd
      cases hd
      exact ⟨x, n + 1, hc.powered, hclock.1⟩
  | @dot c d es _ hd ih =>
    obtain ⟨x, n, hc⟩ := ih
    obtain ⟨p, es', htick, hp⟩ := Picture.tick_of_steady hc.steady
    rw [onBus_onPicture_of_ok htick] at hd
    cases hd
    exact ⟨x.next, n, stands_withPicture hc hp (memory_of_tick htick)⟩
  | @poll c d raised es _ hd ih =>
    obtain ⟨x, n, hc⟩ := ih
    rw [onBus_onPicture_of_ok (Picture.takeNmi_eq _)] at hd
    cases hd
    exact ⟨x, n, stands_withPicture hc (Picture.steady_polled hc.steady) rfl⟩
  | nmi _ hd ih =>
    obtain ⟨x, n, hc⟩ := ih
    obtain ⟨d', es', hnmi, hstands, -⟩ := nmi_of_stands hc
    rw [hnmi] at hd
    cases hd
    exact ⟨x, n, hstands⟩
  | take _ hd ih =>
    obtain ⟨x, n, hc⟩ := ih
    obtain ⟨d', htake, hstands⟩ := takeFrame_of_stands hc
    rw [htake] at hd
    cases hd
    exact ⟨x.taken, n, hstands⟩

theorem ofProgram_of_runFrame {k : Nat} (h : c.Sound k) (hp : c.powered = true) {e : Fault}
    (he : (Console.runFrame c).answer = .error e) : e.OfProgram := by
  obtain ⟨m, -, hrun⟩ := runsTo_runFrame (h.stands hp) h.frameReady_eq
  obtain ⟨-, -, -, -, ⟨e', he', hfrom, -⟩ | ⟨f, hf, -⟩⟩ :=
    hrun.ends (h.stands hp) h.frameReady_eq
  · rw [he'] at he
    cases he
    exact ofProgram_of_from hfrom
  · rw [hf] at he
    cases he

theorem noCartridge_of_powerUp {k : Nat} (h : c.Sound k) {e : Fault}
    (he : (powerUp c).answer = .error e) : e = .noCartridge ∧ c.cartridge = none := by
  by_cases hc : c.cartridge.isSome
  · obtain ⟨d, es, hpower, -⟩ := powerUp_of_inserted h hc
    rw [hpower] at he
    cases he
  · have hempty := Option.not_isSome_iff_eq_none.mp hc
    rw [powerUp_of_empty hempty] at he
    cases he
    exact ⟨rfl, hempty⟩

/-- Whatever has been asked of a console, a run for a frame fails only through the program, the
entry into an interrupt succeeds at every point of a run, a power-up fails only with an empty slot,
and all frames are whole. -/
theorem faults_of_reached (h : Reached c frames) :
    (∀ e, c.powered = true → (Console.runFrame c).answer = .error e → e.OfProgram) ∧
    (∀ d, Running d → ∃ u es, onProcessor Processor.nmi d = ⟨.ok (), u, es⟩) ∧
    (∀ e, (powerUp c).answer = .error e → e = .noCartridge ∧ c.cartridge = none) ∧
    ∀ f ∈ frames, f.width = 256 ∧ f.height = 240 ∧ f.pixels.size = 61440 ∧
      ∀ v ∈ f.pixels, v ≤ 0x3F := by
  obtain ⟨hsound, hwhole⟩ := sound_of_reached h
  refine ⟨fun e hp he => ofProgram_of_runFrame hsound hp he, ?_,
    fun e he => noCartridge_of_powerUp hsound he, ?_⟩
  · intro d hd
    obtain ⟨x, n, hstands⟩ := stands_of_running hd
    obtain ⟨u, es, hnmi, -⟩ := nmi_of_stands hstands
    exact ⟨u, es, hnmi⟩
  · intro f hf
    have hframe := hwhole f hf
    exact ⟨hframe.width_eq, hframe.height_eq, hframe.size_eq, hframe.pixels_le⟩

/-- One frame of a program that waits. -/
theorem faults_of_waiting : ∃ c f, Reached c [f] ∧ c.powered = true ∧
    (∀ e, (Console.runFrame c).answer = .error e → e.OfProgram) ∧
    (∃ u es, onProcessor Processor.nmi c = ⟨.ok (), u, es⟩) ∧
    (∀ e, (powerUp c).answer = .error e → e = .noCartridge) ∧ f.pixels.size = 61440 := by
  -- insert a program that waits, power up and run for one frame
  obtain ⟨image, k, a, himage, hk⟩ := Cartridge.exists_waits
  have hinserted : Reached (Console.insert image {}).state [] := .serve (.insert image) .new
  have hcartridge := cartridge_insert (c := {}) himage
  have hsound := (sound_of_reached hinserted).1
  have hsteady := hsound.steady (by rw [hcartridge]; rfl)
  obtain ⟨c, es, hpower, hc⟩ := powerUp_of_waits hk hcartridge hsteady
  have hpowered : Reached c [] := hinserted.powerUp hpower
  obtain ⟨f, d, es', y, l, hrun, hd, -⟩ := runFrame_of_waits hk hc hsound.frameReady_eq
  have hframe : Reached d [f] := hpowered.runFrame hrun
  obtain ⟨hfaults, hnmi, hpowerUp, hwhole⟩ := faults_of_reached hframe
  exact ⟨d, f, hframe, hd.powered, fun e he => hfaults e hd.powered he,
    hnmi d (.start hframe hd.powered), fun e he => (hpowerUp e he).1,
    (hwhole f (List.mem_singleton_self f)).2.2.1⟩

end Famicom.Console
