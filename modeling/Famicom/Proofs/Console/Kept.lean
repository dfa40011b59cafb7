import Famicom.Proofs.Console.Timing

/-! What the processor's accesses keep of the picture unit's memory, a console that is on keeps: the
dots leave this memory alone. A run is never rejected half way. -/

namespace Famicom

open Famicom.Action

/-- Faults with which the console turns a request down. -/
def Console.Fault.isRejection : Console.Fault → Bool
  | .cartridge _ | .noCartridge | .notPoweredUp | .unknownMountPoint _ | .unreadable _ => true
  | .processor _ | .bus _ => false

/-- What every access of the processor keeps of the picture unit's memory, whichever slot the
processor has. -/
def Bus.MemoryKeeps (J : Picture.VideoMemory → Prop) : Prop :=
  ∀ slot, PictureKeeps slot (fun p => J p.memory) fun _ => True

variable {α : Type} {J : Picture.VideoMemory → Prop} (h : Bus.MemoryKeeps J)

namespace Bus.MemoryKeeps

include h

theorem read (addr : UInt16) :
    Keeps (fun b => J b.picture.memory) (fun _ => True) (Bus.read addr) := by
  intro b hb
  have hread := (h b.slot).read addr b ⟨rfl, hb⟩
  exact ⟨hread.1.2, hread.2⟩

theorem write (addr : UInt16) (v : UInt8) :
    Keeps (fun b => J b.picture.memory) (fun _ => True) (Bus.write addr v) := by
  intro b hb
  have hwrite := (h b.slot).write addr v b ⟨rfl, hb⟩
  exact ⟨hwrite.1.2, hwrite.2⟩

end Bus.MemoryKeeps

namespace Processor

/-- Operations of the processor that keep `J` of the picture unit's memory. -/
abbrev KeepsMemory (J : Picture.VideoMemory → Prop)
    (x : Action (Fault Bus.Fault) (Processor Bus) α) : Prop :=
  Keeps (fun p => J p.memory.picture.memory) (fun _ => True) x

include h

theorem keepsMemory_of_composed {x : Action (Fault Bus.Fault) (Processor Bus) α}
    (hx : Composed x) : KeepsMemory J x :=
  (hx.keeps (J := fun b => J b.picture.memory) h.read h.write).mono fun _ _ => trivial

theorem keepsMemory_cycle : KeepsMemory J cycle := by
  intro p hp
  refine ⟨?_, fun e he => trivial⟩
  by_cases hs : 0 < p.stall
  · rw [cycle_of_stall p hs]
    exact hp
  by_cases hn : 0 < p.pending
  · rw [cycle_of_pending p (eq_zero_of_not_pos hs) hn]
    exact hp
  have hexecute := (keepsMemory_of_composed h Composed.execute p hp).1
  rcases hx : execute p with ⟨e | cost, q, es⟩
  · rw [hx] at hexecute
    rw [cycle_of_error (eq_zero_of_not_pos hs) (eq_zero_of_not_pos hn) hx]
    exact hexecute
  · rw [hx] at hexecute
    rw [cycle_of_ok (eq_zero_of_not_pos hs) (eq_zero_of_not_pos hn) hx]
    exact hexecute

theorem keepsMemory_reset : KeepsMemory J reset := by
  unfold reset
  refine keeps_bind (keeps_update fun p hp => hp) fun _ => ?_
  refine keeps_bind (keepsMemory_of_composed h (Accesses.followVector _).composed) fun _ => ?_
  exact keeps_bind (keeps_view _) fun _ => keeps_report _

theorem keepsMemory_nmi : KeepsMemory J nmi := by
  have hinterrupt : KeepsMemory J (interrupt nmiVector) := by
    unfold interrupt
    refine keeps_bind (keeps_view _) fun _ => ?_
    refine keeps_bind (keepsMemory_of_composed h (Accesses.pushWord _).composed) fun _ => ?_
    refine keeps_bind (keeps_view _) fun _ => ?_
    refine keeps_bind (keepsMemory_of_composed h (Accesses.push _).composed) fun _ => ?_
    refine keeps_bind (keepsMemory_of_composed h (.update _)) fun _ => ?_
    refine keeps_bind (keepsMemory_of_composed h (Accesses.followVector _).composed) fun _ => ?_
    exact keeps_update fun p hp => hp
  unfold nmi
  refine keeps_bind (keeps_view _) fun _ => ?_
  refine keeps_bind hinterrupt fun _ => ?_
  exact keeps_bind (keeps_view _) fun _ => keeps_report _

theorem keepsMemory_clock : KeepsMemory J Console.clockProcessor := by
  have hserve : KeepsMemory J Console.serveDma := by
    unfold Console.serveDma
    refine keeps_bind ((keeps_onMemory (J := fun b : Bus => J b.picture.memory) (E := fun _ => True)
      fun b hb => ⟨hb, fun e he => trivial⟩).mono fun _ _ => trivial) fun pending => ?_
    exact keeps_ite (fun _ => keeps_update fun p hp => hp) fun _ => keeps_pure _
  intro p hp
  refine ⟨?_, fun e he => trivial⟩
  have hcycle := (keepsMemory_cycle h p hp).1
  unfold Console.clockProcessor
  rcases hq : cycle p with ⟨e | _, q, es⟩
  · rw [hq] at hcycle
    exact hcycle
  · rw [hq] at hcycle
    exact (hserve q hcycle).1

end Processor

namespace Console

variable {c : Console}

/-- The console is on, and `J` holds of the picture unit's memory. -/
def On (J : Picture.VideoMemory → Prop) (c : Console) : Prop :=
  c.powered = true ∧ J c.picture.memory

/-- Operations of a console that is on, which leave it on and do not turn anything down. -/
abbrev KeepsOn (J : Picture.VideoMemory → Prop) (x : Action Fault Console α) : Prop :=
  Keeps (On J) (fun e => ¬e.isRejection) x

theorem keepsOn_onProcessor {x : Action (Processor.Fault Bus.Fault) (Processor Bus) α}
    (hx : Processor.KeepsMemory J x) : KeepsOn J (onProcessor x) := by
  rintro c ⟨hp, hc⟩
  have hmemory := (hx c.processor hc).1
  rcases hq : x c.processor with ⟨e | a, q, es⟩
  · rw [hq] at hmemory
    rw [onProcessor_of_error hq]
    exact ⟨⟨hp, hmemory⟩, fun e he => by cases he; exact Bool.false_ne_true⟩
  · rw [hq] at hmemory
    rw [onProcessor_of_ok hq]
    exact ⟨⟨hp, hmemory⟩, fun e he => by cases he⟩

theorem keepsOn_onPicture {x : Action Bus.Fault Picture α}
    (hx : ∀ p, (x p).state.memory = p.memory) : KeepsOn J (onBus (Bus.onPicture x)) := by
  rintro c ⟨hp, hc⟩
  have hmemory := hx c.picture
  obtain ⟨⟨registers, cycles, pending, stall, ⟨ram, screen, one, two, dmaPending, own⟩⟩, slot,
    powered⟩ := c
  unfold onBus Bus.onPicture
  dsimp only [Console.picture, Console.bus] at hmemory hc ⊢
  rcases hq : x screen with ⟨e | a, q, es⟩
  · rw [hq] at hmemory
    exact ⟨⟨hp, hmemory ▸ hc⟩, fun e he => by cases he; exact Bool.false_ne_true⟩
  · rw [hq] at hmemory
    exact ⟨⟨hp, hmemory ▸ hc⟩, fun e he => by cases he⟩

include h

theorem keepsOn_clockAndTake : KeepsOn J clockAndTake := by
  have hdot : KeepsOn J clockPicture := by
    unfold clockPicture
    refine keeps_bind (keepsOn_onPicture fun p => (Picture.static_tick p).memory) fun _ => ?_
    refine keeps_bind (keepsOn_onPicture fun p => rfl) fun raised => ?_
    exact keeps_ite (fun _ => keepsOn_onProcessor (Processor.keepsMemory_nmi h))
      fun _ => keeps_pure _
  unfold clockAndTake clock takeFrame
  refine keeps_bind ?_ fun _ =>
    keeps_bind (keepsOn_onPicture fun p => rfl) fun pixels => keeps_pure _
  refine keeps_bind (keepsOn_onProcessor (Processor.keepsMemory_clock h)) fun _ => ?_
  exact keeps_bind hdot fun _ => keeps_bind hdot fun _ => hdot

/-- A round that fails or completes a frame is the last one, so that only what follows the others is
left to show. -/
theorem keepsOn_of_none {n : Nat} {past : Array Event}
    (hnone : ∀ c d es, clockAndTake c = ⟨.ok none, d, es⟩ → On J d →
      On J (clockUntilFrame n past c).state ∧
        ∀ e, (clockUntilFrame n past c).answer = .error e → ¬e.isRejection) :
    KeepsOn J (clockUntilFrame n past) := by
  intro c hc
  have hround := keepsOn_clockAndTake h c hc
  rcases hd : clockAndTake c with ⟨e | _ | frame, d, es⟩
  · rw [hd] at hround
    rw [clockUntilFrame_of_error n past hd]
    exact ⟨hround.1, fun e' he' => by cases he'; exact hround.2 e rfl⟩
  · rw [hd] at hround
    exact hnone c d es hd hround.1
  · rw [hd] at hround
    rw [clockUntilFrame_of_frame n past hd]
    exact ⟨hround.1, fun e he => by cases he⟩

theorem keepsOn_clockUntilFrame (n : Nat) (past : Array Event) :
    KeepsOn J (clockUntilFrame n past) := by
  -- the induction is on the bound; the last round hands out the picture as it stands
  induction n generalizing past with
  | zero =>
    apply keepsOn_of_none h
    intro c d es hd hon
    unfold clockAndTake at hd
    unfold clockUntilFrame
    rw [hd]
    exact ⟨hon, fun e he => by cases he⟩
  | succ n ih =>
    apply keepsOn_of_none h
    intro c d es hd hon
    rw [clockUntilFrame_of_none n past hd]
    exact ih (past ++ es) d hon

theorem keepsOn_runFrame : KeepsOn J runFrame := by
  intro c hc
  unfold runFrame
  rw [if_pos hc.1]
  exact keepsOn_clockUntilFrame h _ _ c hc

theorem keepsOn_runFrames (n : Nat) (hc : On J c) : On J (runFrames n c).2.state ∧
    ∀ e, (runFrames n c).2.answer = .error e → ¬e.isRejection := by
  induction n generalizing c with
  | zero => exact ⟨hc, fun e he => by cases he⟩
  | succ n ih =>
    have hframe := keepsOn_runFrame h c hc
    unfold runFrames
    rcases hd : runFrame c with ⟨e | frame, d, es⟩
    · rw [hd] at hframe
      exact ⟨hframe.1, fun e' he' => by cases he'; exact hframe.2 e rfl⟩
    · rw [hd] at hframe
      exact ih hframe.1

/-- With a cartridge in the slot a power-up is not turned down. -/
theorem powerUp_cases (hfull : c.cartridge.isSome) (hc : J c.picture.memory) :
    (∃ e d es, powerUp c = ⟨.error e, d, es⟩ ∧ J d.picture.memory ∧ ¬e.isRejection) ∨
    ∃ d es, powerUp c = ⟨.ok (), d, es⟩ ∧ On J d := by
  have hreset := (Processor.keepsMemory_reset h c.processor hc).1
  rcases hp : Processor.reset c.processor with ⟨e | _, p, es⟩
  · left
    rw [hp] at hreset
    refine ⟨.processor e, { c with processor := p }, es, ?_, hreset, Bool.false_ne_true⟩
    unfold powerUp
    rw [view_bind, Option.isNone_eq_false_iff.mpr hfull]
    exact bind_of_error (onProcessor_of_error hp)
  · right
    rw [hp] at hreset
    exact ⟨_, _, powerUp_of_reset hfull hp, rfl, hreset⟩

omit h

/-- What comes of a request: it is turned down with its fault and has changed nothing, or it is
served, whether or not it fails later, and `J` still holds. -/
inductive Handles (J : Picture.VideoMemory → Prop) (c : Console) :
    Option Fault → List Frame × Outcome Fault Console Unit → Prop
  | refused {e : Fault} (es : List Event) :
      J c.picture.memory → e.isRejection → Handles J c (some e) ([], ⟨.error e, c, es⟩)
  | served {r : List Frame × Outcome Fault Console Unit} : J r.2.state.picture.memory →
      (∀ e, r.2.answer = .error e → ¬e.isRejection) → Handles J c none r

section

variable {fault? : Option Fault} {r : List Frame × Outcome Fault Console Unit}

theorem Handles.memory (hr : Handles J c fault? r) : J r.2.state.picture.memory := by
  cases hr with
  | refused es hc _ => exact hc
  | served hm _ => exact hm

theorem Handles.rejected_iff (hr : Handles J c fault? r) (e : Fault) :
    r.2.answer = .error e ∧ e.isRejection ↔ fault? = some e := by
  cases hr with
  | @refused e' es _ he =>
    constructor
    · rintro ⟨hanswer, -⟩
      cases hanswer
      rfl
    · rintro ⟨⟩
      exact ⟨rfl, he⟩
  | served _ hnone =>
    constructor
    · rintro ⟨hanswer, hrejection⟩
      exact absurd hrejection (hnone e hanswer)
    · intro hsome
      cases hsome

theorem Handles.unchanged (hr : Handles J c fault? r) {e : Fault} (he : fault? = some e) :
    r.1 = [] ∧ r.2.state = c := by
  cases hr with
  | refused es _ _ => exact ⟨rfl, rfl⟩
  | served _ _ => cases he

end

theorem handles_handOut {o : Outcome Fault Console Frame} (ho : J o.state.picture.memory)
    (hnone : ∀ e, o.answer = .error e → ¬e.isRejection) : Handles J c none (handOut o) := by
  rcases o with ⟨e | frame, d, es⟩
  · exact .served ho fun e' he' => by cases he'; exact hnone e rfl
  · exact .served ho fun e he => by cases he

include h

theorem handles_powerUp (hc : J c.picture.memory) :
    Handles J c (if c.cartridge.isSome then none else some .noCartridge) ([], powerUp c) := by
  by_cases hfull : c.cartridge.isSome
  · rw [if_pos hfull]
    rcases powerUp_cases h hfull hc with ⟨e, d, es, hd, hm, hn⟩ | ⟨d, es, hd, hon⟩
    · rw [hd]
      exact .served hm fun e' he' => by cases he'; exact hn
    · rw [hd]
      exact .served hon.2 fun e he => by cases he
  · rw [if_neg hfull, powerUp_of_empty (Option.not_isSome_iff_eq_none.mp hfull)]
    exact .refused [] hc rfl

theorem handles_runFrame (hc : J c.picture.memory) :
    Handles J c (if c.powered then none else some .notPoweredUp) (handOut (runFrame c)) := by
  by_cases hp : c.powered = true
  · obtain ⟨⟨-, hm⟩, hnone⟩ := keepsOn_runFrame h c ⟨hp, hc⟩
    rw [if_pos hp]
    exact handles_handOut hm hnone
  · unfold runFrame
    rw [if_neg hp, if_neg hp]
    exact .refused [] hc rfl

theorem handles_stepFrame (hc : J c.picture.memory) :
    Handles J c (if c.powered || c.cartridge.isSome then none else some .noCartridge)
      (handOut (stepFrame c)) := by
  by_cases hp : c.powered = true
  · have hframe := handles_runFrame h hc
    rw [if_pos hp] at hframe
    rw [hp, stepFrame_of_powered hp]
    exact hframe
  rw [eq_false_of_ne_true hp, Bool.false_or, stepFrame_of_off (eq_false_of_ne_true hp)]
  by_cases hfull : c.cartridge.isSome
  · rw [if_pos hfull]
    rcases powerUp_cases h hfull hc with ⟨e, d, es, hd, hm, hn⟩ | ⟨d, es, hd, hon⟩
    · rw [bind_of_error hd]
      exact handles_handOut hm fun e' he' => by cases he'; exact hn
    · obtain ⟨⟨-, hm⟩, hnone⟩ := keepsOn_runFrame h d hon
      rw [bind_of_ok hd]
      exact handles_handOut hm hnone
  · rw [if_neg hfull, bind_of_error (powerUp_of_empty (Option.not_isSome_iff_eq_none.mp hfull))]
    exact .refused [] hc rfl

theorem handles_run (n : Nat) (hc : J c.picture.memory) :
    Handles J c (if c.cartridge.isSome then none else some .noCartridge) (run n c) := by
  unfold run
  by_cases hfull : c.cartridge.isSome
  · rw [if_pos hfull]
    rcases powerUp_cases h hfull hc with ⟨e, d, es, hd, hm, hn⟩ | ⟨d, es, hd, hon⟩
    · rw [hd]
      exact .served hm fun e' he' => by cases he'; exact hn
    · obtain ⟨⟨-, hm⟩, hnone⟩ := keepsOn_runFrames h n hon
      rw [hd]
      exact .served hm hnone
  · rw [if_neg hfull, powerUp_of_empty (Option.not_isSome_iff_eq_none.mp hfull)]
    exact .refused [] hc rfl

end Console

end Famicom
