import Famicom.Proofs.Console.Slots
import Famicom.Proofs.Processor.Stepping

/-! One clock of the console. The processor counts one cycle and the picture unit goes
three places on, unless the processor's cycle fails; nothing else in a clock can fail. -/

namespace Famicom

open Famicom.Action

namespace Processor

variable {slot : Option Nat} {x : Picture.Position} {n : Nat}

/-- The processor has had some cycles, and the picture unit stands at some place. Both have
`slot`. -/
structure Stands (slot : Option Nat) (x : Picture.Position) (n : Nat) (p : Processor Bus) :
    Prop where
  steady : p.memory.Steady slot x
  cycles_eq : p.cycles = .ofNat n

theorem keeps_access {α : Type} {E : Bus.Fault → Prop} {y : Action Bus.Fault Bus α}
    (h : Keeps (Bus.Steady slot x) E y) :
    Keeps (Stands slot x n) (fun e => ∃ f, e = .memory f ∧ E f) (onMemory y) := by
  intro p hp
  have hy := h p.memory hp.steady
  rcases hm : y p.memory with ⟨e | a, m, es⟩
  · rw [hm] at hy
    rw [onMemory_of_error hm]
    refine ⟨⟨hy.1, hp.cycles_eq⟩, ?_⟩
    intro e' he'
    cases he'
    exact ⟨e, rfl, hy.2 e rfl⟩
  · rw [hm] at hy
    rw [onMemory_of_ok hm]
    exact ⟨⟨hy.1, hp.cycles_eq⟩, fun e' he' => by cases he'⟩

/-- An access that its memory never refuses does not fail. -/
theorem keeps_access_of_ok {α : Type} {y : Action Bus.Fault Bus α}
    (h : Keeps (Bus.Steady slot x) (fun _ => False) y) :
    Keeps (Stands slot x n) (fun _ => False) (onMemory y) := by
  apply (keeps_access h).mono
  rintro e ⟨f, -, hf⟩
  exact hf

theorem keeps_execute :
    Keeps (Stands slot x n) (Fault.From Bus.Fault.Refused)
      (execute : Action (Fault Bus.Fault) (Processor Bus) Nat) := by
  intro p hp
  -- the memory is kept access by access, and the clock is not an instruction's to move
  have hkeeps := Composed.execute.keeps (J := Bus.Steady slot x) Bus.keeps_read
    Bus.keeps_write p hp.steady
  have hclock := congrArg Processor.cycles (Composed.execute.clock_eq p)
  exact ⟨⟨hkeeps.1, hclock.symm.trans hp.cycles_eq⟩, hkeeps.2⟩

/-- A cycle is counted even if it fails. -/
theorem cycle_of_stands {p : Processor Bus} (h : p.Stands slot x n) :
    (cycle p).state.Stands slot x (n + 1) ∧
      ∀ e, (cycle p).answer = .error e → e.From Bus.Fault.Refused := by
  have hcount : p.cycles + 1 = .ofNat (n + 1) := by
    rw [h.cycles_eq, UInt64.ofNat_add]
    rfl
  by_cases hs : 0 < p.stall
  · rw [cycle_of_stall p hs]
    exact ⟨⟨h.steady, hcount⟩, fun e he => by cases he⟩
  have hstall := eq_zero_of_not_pos hs
  by_cases hn : 0 < p.pending
  · rw [cycle_of_pending p hstall hn]
    exact ⟨⟨h.steady, hcount⟩, fun e he => by cases he⟩
  have hpending := eq_zero_of_not_pos hn
  -- at a boundary an instruction is executed, the only part of a cycle that can fail
  have hexecute := keeps_execute p h
  rcases hx : execute p with ⟨e | cost, q, es⟩
  · rw [hx] at hexecute
    rw [cycle_of_error hstall hpending hx]
    refine ⟨⟨hexecute.1.steady, hcount⟩, ?_⟩
    intro e' he'
    cases he'
    exact hexecute.2 e rfl
  · rw [hx] at hexecute
    rw [cycle_of_ok hstall hpending hx]
    exact ⟨⟨hexecute.1.steady, hcount⟩, fun e he => by cases he⟩

/-- The stack lies in the work RAM. -/
theorem stackAddress_lt (sp : UInt8) : stackAddress sp < 0x2000 :=
  UInt16.lt_iff_toNat_lt.mpr (lt_trans (toNat_stackAddress_lt sp) (by decide))

/-- A push reaches the work RAM only. -/
theorem push_eq (v : UInt8) (p : Processor Bus) : ∃ registers ram,
    (push v : Action (Fault Bus.Fault) (Processor Bus) Unit) p =
      ⟨.ok (), { p with registers, memory := { p.memory with ram } }, []⟩ := by
  have hwrite : (write (stackAddress p.registers.sp) v :
      Action (Fault Bus.Fault) (Processor Bus) Unit) p = ⟨.ok (), { p with memory :=
        { p.memory with ram := p.memory.ram.set (Bus.ramIndex (stackAddress p.registers.sp)) v } },
          []⟩ := by
    apply onMemory_of_ok
    change Bus.write _ _ _ = _
    unfold Bus.write
    rw [if_pos (stackAddress_lt _)]
    rfl
  unfold push
  rw [view_registers, bind_of_ok hwrite]
  exact ⟨_, _, rfl⟩

theorem read_of_readCartridge {addr : UInt16} {v : UInt8} {p : Processor Bus}
    (h : p.memory.readCartridge addr = .ok v) (haddr : ¬addr < 0x6000) :
    (read addr : Action (Fault Bus.Fault) (Processor Bus) UInt8) p = ⟨.ok v, p, []⟩ := by
  apply onMemory_of_ok
  change Bus.read addr p.memory = _
  rw [Bus.read_eq_inspect haddr, inspect_apply, h]

/-- A vector that the cartridge holds is followed. -/
theorem followVector_eq {vector : UInt16} {low high : UInt8} {p : Processor Bus}
    (hlow : p.memory.readCartridge vector = .ok low)
    (hhigh : p.memory.readCartridge (vector + 1) = .ok high) (h : ¬vector < 0x6000)
    (h' : ¬vector + 1 < 0x6000) :
    (followVector vector : Action (Fault Bus.Fault) (Processor Bus) Unit) p =
      ⟨.ok (), { p with registers := { p.registers with pc := word low high } }, []⟩ := by
  have hword : (readWord vector (vector + 1) :
      Action (Fault Bus.Fault) (Processor Bus) UInt16) p = ⟨.ok (word low high), p, []⟩ := by
    unfold readWord
    rw [bind_of_ok (read_of_readCartridge hlow h), bind_of_ok (read_of_readCartridge hhigh h')]
    rfl
  unfold followVector
  rw [bind_of_ok hword]
  rfl

/-- The entry into an interrupt changes the registers, the stack and what is owed, and leads where
the cartridge says. -/
theorem nmi_eq {low high : UInt8} {p : Processor Bus}
    (hlow : p.memory.readCartridge nmiVector = .ok low)
    (hhigh : p.memory.readCartridge (nmiVector + 1) = .ok high) : ∃ registers pending ram es,
    (nmi : Action (Fault Bus.Fault) (Processor Bus) Unit) p =
      ⟨.ok (), { p with registers, pending, memory := { p.memory with ram } }, es⟩ ∧
    registers.pc = word low high := by
  -- three bytes are pushed before the vector is read
  obtain ⟨registers₁, ram₁, hpush₁⟩ := push_eq (p.registers.pc >>> 8).toUInt8 p
  obtain ⟨registers₂, ram₂, hpush₂⟩ := push_eq p.registers.pc.toUInt8
    { p with registers := registers₁, memory := { p.memory with ram := ram₁ } }
  obtain ⟨registers₃, ram₃, hpush₃⟩ := push_eq registers₂.statusWithoutBreak
    { p with registers := registers₂, memory := { p.memory with ram := ram₂ } }
  have hword : (pushWord p.registers.pc : Action (Fault Bus.Fault) (Processor Bus) Unit) p =
      ⟨.ok (), { p with registers := registers₂, memory := { p.memory with ram := ram₂ } }, []⟩ := by
    unfold pushWord
    rw [bind_of_ok hpush₁, hpush₂]
    rfl
  have hfollow := followVector_eq (p := { p with
      registers := registers₃.setFlag Flag.interruptDisable true
      memory := { p.memory with ram := ram₃ } }) hlow hhigh (by decide) (by decide)
  have hinterrupt : (interrupt nmiVector : Action (Fault Bus.Fault) (Processor Bus) Unit) p =
      ⟨.ok (), { p with
        registers := { registers₃.setFlag Flag.interruptDisable true with pc := word low high }
        pending := p.pending + interruptCycles
        memory := { p.memory with ram := ram₃ } }, []⟩ := by
    unfold interrupt
    rw [view_registers, bind_of_ok hword, view_registers, bind_of_ok hpush₃, update_registers,
      bind_of_ok hfollow]
    rfl
  unfold nmi
  rw [view_registers, bind_of_ok hinterrupt]
  exact ⟨_, _, _, _, rfl, rfl⟩

/-- With a cartridge in the slot it never fails, and it leaves the picture unit alone. -/
theorem nmi_of_stands {p : Processor Bus} (h : p.Stands slot x n) : ∃ q es,
    (nmi : Action (Fault Bus.Fault) (Processor Bus) Unit) p = ⟨.ok (), q, es⟩ ∧ q.Stands slot x n ∧
      q.memory.picture = p.memory.picture := by
  obtain ⟨low, hlow⟩ := Bus.readCartridge_of_steady h.steady (show ¬nmiVector < 0x6000 by decide)
  obtain ⟨high, hhigh⟩ :=
    Bus.readCartridge_of_steady h.steady (show ¬nmiVector + 1 < 0x6000 by decide)
  obtain ⟨registers, pending, ram, es, hnmi, -⟩ := nmi_eq hlow hhigh
  have hsteady := h.steady
  exact ⟨_, es, hnmi, ⟨⟨hsteady.picture, hsteady.slot_eq, hsteady.memory_slot⟩, h.cycles_eq⟩, rfl⟩

/-- A reset starts where the cartridge says, with everything else as it is at power-on. -/
theorem reset_eq {low high : UInt8} {p : Processor Bus}
    (hlow : p.memory.readCartridge resetVector = .ok low)
    (hhigh : p.memory.readCartridge (resetVector + 1) = .ok high) : ∃ es,
    (reset : Action (Fault Bus.Fault) (Processor Bus) Unit) p = ⟨.ok (),
      { Processor.powerOn p.memory with registers := { Registers.powerOn with pc := word low high } },
        es⟩ := by
  have hfollow := followVector_eq (p := { Processor.powerOn p.memory with
    registers := { Registers.powerOn with pc := p.registers.pc } }) hlow hhigh (by decide)
      (by decide)
  unfold reset
  rw [update_bind, bind_of_ok hfollow]
  exact ⟨_, rfl⟩

/-- With a cartridge in the slot a reset succeeds, and the cycles are counted from zero. -/
theorem reset_of_stands {p : Processor Bus} (h : p.Stands slot x n) :
    ∃ q es, (reset : Action (Fault Bus.Fault) (Processor Bus) Unit) p = ⟨.ok (), q, es⟩ ∧
      q.Stands slot x 0 := by
  obtain ⟨low, hlow⟩ := Bus.readCartridge_of_steady h.steady (show ¬resetVector < 0x6000 by decide)
  obtain ⟨high, hhigh⟩ :=
    Bus.readCartridge_of_steady h.steady (show ¬resetVector + 1 < 0x6000 by decide)
  obtain ⟨es, hreset⟩ := reset_eq hlow hhigh
  exact ⟨_, es, hreset, h.steady, rfl⟩

/-- A transfer that was asked for only stalls the processor. -/
theorem keeps_serveDma : Keeps (Stands slot x n) (fun _ => False) Console.serveDma := by
  unfold Console.serveDma
  apply keeps_bind (keeps_access_of_ok fun b hb =>
    ⟨⟨hb.picture, hb.slot_eq, hb.memory_slot⟩, fun e he => by cases he⟩)
  intro pending
  apply keeps_ite _ fun _ => keeps_pure _
  exact fun _ => keeps_update fun p hp => ⟨hp.steady, hp.cycles_eq⟩

theorem clockProcessor_of_stands {p : Processor Bus} (h : p.Stands slot x n) :
    (Console.clockProcessor p).state.Stands slot x (n + 1) ∧
      ∀ e, (Console.clockProcessor p).answer = .error e → e.From Bus.Fault.Refused := by
  have hcycle := cycle_of_stands h
  unfold Console.clockProcessor
  rcases hp : cycle p with ⟨e | _, q, es⟩
  · rw [hp] at hcycle
    exact hcycle
  · rw [hp] at hcycle
    obtain ⟨_, r, es', hserve, hr⟩ := keeps_serveDma.ok hcycle.1
    dsimp only
    rw [hserve]
    exact ⟨hr, fun e he => by cases he⟩

end Processor

namespace Console

variable {x : Picture.Position} {n : Nat} {c : Console} {α : Type}

theorem onProcessor_of_ok {y : Action (Processor.Fault Bus.Fault) (Processor Bus) α} {a : α}
    {p : Processor Bus} {es : List Event} (h : y c.processor = ⟨.ok a, p, es⟩) :
    onProcessor y c = ⟨.ok a, { c with processor := p }, es⟩ := by
  cases c
  dsimp only [onProcessor] at h ⊢
  rw [h]

theorem onProcessor_of_error {y : Action (Processor.Fault Bus.Fault) (Processor Bus) α}
    {e : Processor.Fault Bus.Fault} {p : Processor Bus} {es : List Event}
    (h : y c.processor = ⟨.error e, p, es⟩) :
    onProcessor y c = ⟨.error (.processor e), { c with processor := p }, es⟩ := by
  cases c
  dsimp only [onProcessor] at h ⊢
  rw [h]

/-- The console with its picture unit in another state. -/
def withPicture (c : Console) (p : Picture) : Console :=
  { c with processor := { c.processor with memory := { c.bus with picture := p } } }

theorem onBus_onPicture_of_ok {y : Action Bus.Fault Picture α} {a : α} {p : Picture}
    {es : List Event} (h : y c.picture = ⟨.ok a, p, es⟩) :
    onBus (Bus.onPicture y) c = ⟨.ok a, c.withPicture p, es⟩ := by
  obtain ⟨⟨registers, cycles, pending, stall, ⟨ram, screen, one, two, dmaPending, own⟩⟩, slot,
    powered⟩ := c
  have hbus : Bus.onPicture y ⟨ram, screen, one, two, dmaPending, own⟩ =
      ⟨.ok a, ⟨ram, p, one, two, dmaPending, own⟩, es⟩ := by
    unfold Bus.onPicture
    dsimp only
    rw [show y screen = _ from h]
  unfold onBus
  dsimp only
  rw [hbus]
  rfl

/-- The console is on, and its parts stand at some point of a run. -/
structure Stands (x : Picture.Position) (n : Nat) (c : Console) : Prop where
  powered : c.powered = true
  processor : c.processor.Stands c.slot x n

theorem Stands.steady (h : c.Stands x n) : c.picture.Steady x :=
  h.processor.steady.picture

theorem Stands.wired (h : c.Stands x n) : c.Wired :=
  ⟨h.processor.steady.slot_eq.symm, h.processor.steady.wired⟩

theorem Stands.cartridge (h : c.Stands x n) : c.cartridge.isSome := by
  rw [← h.wired.bus_cartridge]
  exact h.processor.steady.cartridge

theorem stands_withPicture (h : c.Stands x n) {y : Picture.Position} {p : Picture}
    (hp : p.Steady y) (hmemory : p.memory = c.picture.memory) : (c.withPicture p).Stands y n :=
  have hslot : p.memory.slot = c.slot :=
    (congrArg Picture.VideoMemory.slot hmemory).trans h.processor.steady.memory_slot
  ⟨h.powered, ⟨hp, h.processor.steady.slot_eq, hslot⟩, h.processor.cycles_eq⟩

theorem memory_of_tick {p : Picture} {es : List Event}
    (htick : Picture.tick c.picture = ⟨.ok (), p, es⟩) : p.memory = c.picture.memory := by
  have hstatic := Picture.static_tick c.picture
  rw [htick] at hstatic
  exact hstatic.memory

theorem nmi_of_stands (h : c.Stands x n) :
    ∃ d es, onProcessor Processor.nmi c = ⟨.ok (), d, es⟩ ∧ d.Stands x n ∧
      d.picture = c.picture := by
  obtain ⟨p, es, hnmi, hp, hpicture⟩ := Processor.nmi_of_stands h.processor
  exact ⟨_, es, onProcessor_of_ok hnmi, ⟨h.powered, hp⟩, hpicture⟩

/-- A console with a cartridge is powered up by a reset of its processor. -/
theorem powerUp_of_reset {p : Processor Bus} {es : List Event} (hc : c.cartridge.isSome)
    (hreset : Processor.reset c.processor = ⟨.ok (), p, es⟩) :
    powerUp c = ⟨.ok (), ⟨p, c.slot, true⟩, es ++ []⟩ := by
  have hrest : (do onProcessor Processor.reset; .update fun c => { c with powered := true }) c =
      ⟨.ok (), ⟨p, c.slot, true⟩, es ++ []⟩ := bind_of_ok (onProcessor_of_ok hreset)
  unfold powerUp
  rw [view_bind, Option.isNone_eq_false_iff.mpr hc]
  exact hrest

/-- A dot and its poll, and the interrupt if one was raised. -/
theorem clockPicture_eq (h : c.Stands x n) : ∃ p d es es',
    Picture.tick c.picture = ⟨.ok (), p, es⟩ ∧ (c.withPicture p.polled).Stands x.next n ∧
      clockPicture c = ⟨.ok (), d, es'⟩ ∧
      (p.nmiPending = false ∧ d = c.withPicture p.polled ∨ p.nmiPending = true ∧
        ∃ es'', onProcessor Processor.nmi (c.withPicture p.polled) = ⟨.ok (), d, es''⟩) := by
  obtain ⟨p, es, htick, hp⟩ := Picture.tick_of_steady h.steady
  have hmemory := memory_of_tick htick
  have hpolled := stands_withPicture h (Picture.steady_polled hp) hmemory
  have hpoll : onBus (Bus.onPicture Picture.takeNmi) (c.withPicture p) =
      ⟨.ok p.nmiPending, c.withPicture p.polled, []⟩ :=
    onBus_onPicture_of_ok (Picture.takeNmi_eq p)
  unfold clockPicture
  rw [bind_of_ok (onBus_onPicture_of_ok htick), bind_of_ok hpoll, Action.ite_apply]
  cases hraised : p.nmiPending with
  | false => exact ⟨p, _, es, _, htick, hpolled, rfl, Or.inl ⟨hraised, rfl⟩⟩
  | true =>
    obtain ⟨d, es', hnmi, -⟩ := nmi_of_stands hpolled
    rw [if_pos rfl, hnmi]
    exact ⟨p, d, es, _, htick, hpolled, rfl, Or.inr ⟨hraised, es', hnmi⟩⟩

/-- It never fails, and the picture unit is left as its dot and the poll leave it. -/
theorem clockPicture_of_stands (h : c.Stands x n) :
    ∃ d es, clockPicture c = ⟨.ok (), d, es⟩ ∧ d.Stands x.next n ∧
      d.picture = (Picture.tick c.picture).state.polled := by
  obtain ⟨p, d, es, es', htick, hpolled, hclock, hd⟩ := clockPicture_eq h
  refine ⟨d, es', hclock, ?_⟩
  rw [htick]
  rcases hd with ⟨-, rfl⟩ | ⟨-, es'', hnmi⟩
  · exact ⟨hpolled, rfl⟩
  · obtain ⟨d', es, hnmi', hd, hpicture⟩ := nmi_of_stands hpolled
    rw [hnmi'] at hnmi
    cases hnmi
    exact ⟨hd, hpicture⟩

/-- A clock counts one cycle. It goes three places on, or it fails before the first of them. -/
theorem clock_of_stands (h : c.Stands x n) :
    (∃ d es, clock c = ⟨.ok (), d, es⟩ ∧ d.Stands x.next.next.next (n + 1)) ∨
      ∃ e d es, clock c = ⟨.error (.processor e), d, es⟩ ∧ e.From Bus.Fault.Refused ∧
        d.Stands x (n + 1) := by
  have hprocessor := Processor.clockProcessor_of_stands h.processor
  unfold clock
  rcases hp : clockProcessor c.processor with ⟨e | _, p, es⟩
  -- a cycle that fails ends the clock before its first dot
  · right
    rw [hp] at hprocessor
    exact ⟨e, _, es, bind_of_error (onProcessor_of_error hp), hprocessor.2 e rfl,
      h.powered, hprocessor.1⟩
  · left
    rw [hp] at hprocessor
    have hstart : Stands x (n + 1) { c with processor := p } := ⟨h.powered, hprocessor.1⟩
    obtain ⟨d₁, es₁, hd₁, hstands₁, -⟩ := clockPicture_of_stands hstart
    obtain ⟨d₂, es₂, hd₂, hstands₂, -⟩ := clockPicture_of_stands hstands₁
    obtain ⟨d₃, es₃, hd₃, hstands₃, -⟩ := clockPicture_of_stands hstands₂
    rw [bind_of_ok (onProcessor_of_ok hp), bind_of_ok hd₁, bind_of_ok hd₂, hd₃]
    exact ⟨d₃, _, rfl, hstands₃⟩

end Console

end Famicom
