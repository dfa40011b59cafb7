import Famicom.Proofs.Console.Asking
import Famicom.Proofs.Console.Timing

/-! Transfers of sprites and interrupts are served in the clock in which they are asked for, and
while the stall for a transfer lasts no instruction is executed. -/

namespace Famicom

open Famicom.Action

namespace Processor

variable {p q : Processor Bus}

/-- What can become of the registers and the work RAM by entries into the interrupt alone. -/
def Interrupted : Processor Bus → Processor Bus → Prop :=
  Relation.ReflTransGen fun p q => q.registers = p.registers ∧ q.memory.ram = p.memory.ram ∨
    ∃ es, (nmi : Action (Fault Bus.Fault) (Processor Bus) Unit) p = ⟨.ok (), q, es⟩

/-- The processor has had no cycle, and nothing that it has asked for has been served. -/
structure Paused (p q : Processor Bus) : Prop where
  cycles_eq : q.cycles = p.cycles
  stall_eq : q.stall = p.stall
  dmaPending_eq : q.memory.dmaPending = p.memory.dmaPending
  interrupted : p.Interrupted q

theorem Paused.trans {r : Processor Bus} (h : p.Paused q) (h' : q.Paused r) : p.Paused r where
  cycles_eq := h'.cycles_eq.trans h.cycles_eq
  stall_eq := h'.stall_eq.trans h.stall_eq
  dmaPending_eq := h'.dmaPending_eq.trans h.dmaPending_eq
  interrupted := h.interrupted.trans h'.interrupted

theorem interrupted_of_eq (hregisters : q.registers = p.registers)
    (hram : q.memory.ram = p.memory.ram) : p.Interrupted q :=
  .single (Or.inl ⟨hregisters, hram⟩)

end Processor

namespace Console

variable {x : Picture.Position} {n k : Nat} {c d : Console} {frames : List Frame}

theorem paused_withPicture (c : Console) (p : Picture) :
    c.processor.Paused (c.withPicture p).processor :=
  ⟨rfl, rfl, rfl, Processor.interrupted_of_eq rfl rfl⟩

theorem paused_nmi (h : c.Stands x n) {es : List Event}
    (hnmi : onProcessor Processor.nmi c = ⟨.ok (), d, es⟩) : c.processor.Paused d.processor := by
  obtain ⟨low, hlow⟩ := Bus.readCartridge_of_steady h.processor.steady
    (show ¬Processor.nmiVector < 0x6000 by decide)
  obtain ⟨high, hhigh⟩ := Bus.readCartridge_of_steady h.processor.steady
    (show ¬Processor.nmiVector + 1 < 0x6000 by decide)
  obtain ⟨registers, pending, ram, es', heq, -⟩ := Processor.nmi_eq hlow hhigh
  rw [onProcessor_of_ok heq] at hnmi
  cases hnmi
  exact ⟨rfl, rfl, rfl, .single (Or.inr ⟨_, heq⟩)⟩

/-- A dot is polled at once, whether the processor or the dot has raised the interrupt. -/
theorem clockPicture_serves (h : c.Stands x n) : ∃ d es, clockPicture c = ⟨.ok (), d, es⟩ ∧
    d.Stands x.next n ∧ d.picture.nmiPending = false ∧ c.processor.Paused d.processor := by
  obtain ⟨d, es, hclock, hd, hpicture⟩ := clockPicture_of_stands h
  obtain ⟨p, d', es₁, es₂, -, hpolled, hclock', hd'⟩ := clockPicture_eq h
  rw [hclock] at hclock'
  cases hclock'
  refine ⟨d, es, hclock, hd, by rw [hpicture]; rfl, ?_⟩
  have hdot := paused_withPicture c p.polled
  rcases hd' with ⟨-, rfl⟩ | ⟨-, es₃, hnmi⟩
  · exact hdot
  · exact hdot.trans (paused_nmi hpolled hnmi)

/-- After its first part a clock does not fail, and no interrupt is left over. -/
theorem clock_serves (h : c.Stands x n) {p : Processor Bus} {es : List Event}
    (hp : clockProcessor c.processor = ⟨.ok (), p, es⟩) : ∃ d es', clock c = ⟨.ok (), d, es'⟩ ∧
      d.Stands x.next.next.next (n + 1) ∧ d.picture.nmiPending = false ∧
        p.Paused d.processor := by
  have hprocessor := (Processor.clockProcessor_of_stands h.processor).1
  rw [hp] at hprocessor
  have hstart : Stands x (n + 1) { c with processor := p } := ⟨h.powered, hprocessor⟩
  obtain ⟨d₁, es₁, hd₁, hstands₁, -, hpaused₁⟩ := clockPicture_serves hstart
  obtain ⟨d₂, es₂, hd₂, hstands₂, -, hpaused₂⟩ := clockPicture_serves hstands₁
  obtain ⟨d₃, es₃, hd₃, hstands₃, hpolled, hpaused₃⟩ := clockPicture_serves hstands₂
  unfold clock
  rw [bind_of_ok (onProcessor_of_ok hp), bind_of_ok hd₁, bind_of_ok hd₂, hd₃]
  exact ⟨d₃, _, rfl, hstands₃, hpolled, (hpaused₁.trans hpaused₂).trans hpaused₃⟩

theorem clock_of_processor_error {e : Processor.Fault Bus.Fault} {p : Processor Bus}
    {es : List Event} (hp : clockProcessor c.processor = ⟨.error e, p, es⟩) :
    clock c = ⟨.error (.processor e), { c with processor := p }, es⟩ :=
  bind_of_error (onProcessor_of_error hp)

/-- What holds of the console between two clocks, whether it is on or not. -/
structure Settled (c : Console) : Prop where
  picture : c.picture.Sound
  wired : c.Wired
  cartridge_of_powered : c.powered = true → c.cartridge.isSome
  dmaPending_eq : c.bus.dmaPending = false

theorem Settled.stands (h : c.Settled) (hp : c.powered = true) :
    c.Stands c.picture.position c.processor.cycles.toNat :=
  ⟨hp, h.wired.steady h.picture (h.cartridge_of_powered hp), UInt64.ofNat_toNat.symm⟩

theorem settled_of_stands (h : c.Stands x n) (hd : c.bus.dmaPending = false) :
    c.Settled ∧ c.powered = true :=
  ⟨⟨h.steady.toSound, h.wired, fun _ => h.cartridge, hd⟩, h.powered⟩

theorem keeps_clock : Keeps (fun c => Settled c ∧ c.powered = true) (fun _ => True) clock := by
  rintro c ⟨h, hp⟩
  refine ⟨?_, fun e he => trivial⟩
  have hstands := h.stands hp
  have hprocessor := (Processor.clockProcessor_of_stands hstands.processor).1
  rcases hcycle : clockProcessor c.processor with ⟨e | _, p, es⟩
  · rw [hcycle] at hprocessor
    rw [clock_of_processor_error hcycle]
    exact settled_of_stands (c := ⟨p, c.slot, c.powered⟩) ⟨hp, hprocessor⟩
      (Processor.clockProcessor_of_error h.dmaPending_eq hcycle).1
  · obtain ⟨d, es', hclock, hd, -, hpaused⟩ := clock_serves hstands hcycle
    rw [hclock]
    exact settled_of_stands hd
      (hpaused.dmaPending_eq.trans (Processor.clockProcessor_of_ok h.dmaPending_eq hcycle).1)

theorem paused_takeFrame (c : Console) : c.processor.Paused (takeFrame c).state.processor := by
  unfold takeFrame
  rw [bind_of_ok (onBus_onPicture_of_ok rfl)]
  exact paused_withPicture c _

theorem keeps_takeFrame :
    Keeps (fun c => Settled c ∧ c.powered = true) (fun _ => True) takeFrame := by
  rintro c ⟨h, hp⟩
  obtain ⟨d, htake, hd⟩ := takeFrame_of_stands (h.stands hp)
  have hpaused := paused_takeFrame c
  rw [htake] at hpaused ⊢
  exact ⟨settled_of_stands hd (hpaused.dmaPending_eq.trans h.dmaPending_eq), fun e he => trivial⟩

theorem keeps_round :
    Keeps (fun c => Settled c ∧ c.powered = true) (fun _ => True) clockAndTake :=
  keeps_bind keeps_clock fun _ => keeps_takeFrame

theorem paused_of_isPassive (c : Console) {r : Request} (h : r.isPassive) :
    c.processor.Paused (r.serve c).2.state.processor := by
  have hkept : ∀ b : Bus, b.ram = c.bus.ram → b.dmaPending = c.bus.dmaPending →
      c.processor.Paused { c.processor with memory := b } := fun b hram hpending =>
    ⟨rfl, rfl, hpending, Processor.interrupted_of_eq rfl hram⟩
  exact serve_passive (J := fun d => c.processor.Paused d.processor) (hkept _ rfl rfl)
    (fun _ _ _ => hkept _ rfl rfl) (hkept _ rfl rfl) (fun _ _ => hkept _ rfl rfl) h

theorem settled_of_isPassive (hc : c.Settled) {r : Request} (h : r.isPassive) :
    (r.serve c).2.state.Settled := by
  obtain ⟨hpicture, hwired, hcartridge, hpending⟩ := hc
  refine serve_passive (J := Settled) ⟨hpicture, hwired, hcartridge, hpending⟩ ?_ ?_ ?_ h
  · exact fun _ k _ =>
      ⟨{ hpicture with }, wired_inserted c k, fun hp => (by cases hp), hpending⟩
  · exact ⟨{ hpicture with }, wired_ejected c, fun hp => (by cases hp), hpending⟩
  · exact fun _ _ => ⟨hpicture, ⟨hwired.slot_eq, hwired.bus⟩, hcartridge, hpending⟩

/-- The consoles that `k` clocks lead to, with frames taken and requests served between them, but
without a power-up. -/
inductive After (c : Console) : Nat → Console → Prop
  | here : After c 0 c
  | clock {k : Nat} {d : Console} :
      After c k d → d.powered = true → After c (k + 1) (clock d).state
  | take {k : Nat} {d : Console} :
      After c k d → d.powered = true → After c k (takeFrame d).state
  | serve {k : Nat} {d : Console} (r : Request) :
      After c k d → r.isPassive → After c k (r.serve d).2.state

/-- The consoles between two clocks of a run, whether or not the last clock has failed. -/
def Between (c : Console) : Prop := ∃ d frames k, Reached d frames ∧ After d k c

theorem After.settled (h : After c k d) (hc : c.Settled) : d.Settled := by
  induction h with
  | here => exact hc
  | @clock k d _ hp ih => exact (keeps_clock d ⟨ih, hp⟩).1.1
  | @take k d _ hp ih => exact (keeps_takeFrame d ⟨ih, hp⟩).1.1
  | serve r _ hr ih => exact settled_of_isPassive ih hr

theorem After.round (h : After c k d) (hc : c.Settled) (hp : d.powered = true) :
    After c (k + 1) (clockAndTake d).state := by
  have hafter := h.clock hp
  have hpowered := (keeps_clock d ⟨h.settled hc, hp⟩).1.2
  unfold clockAndTake
  rcases hclock : Console.clock d with ⟨e | _, u, es⟩
  · rw [hclock] at hafter
    rw [bind_of_error hclock]
    exact hafter
  · rw [hclock] at hafter hpowered
    rw [bind_of_ok hclock]
    exact hafter.take hpowered

/-- A run for a frame is a number of clocks, whether it answers the frame or fails. -/
theorem After.runFrame {c₀ : Console} (h : After c₀ k c) (hc : c₀.Settled) (hp : c.powered = true)
    (hready : c.picture.frameReady = false) : ∃ m, After c₀ (k + m) (runFrame c).state := by
  have hsettled := h.settled hc
  obtain ⟨m, -, hrun⟩ := runsTo_runFrame (hsettled.stands hp) hready
  refine ⟨m, ?_⟩
  generalize Console.runFrame c = o at hrun
  clear hready hsettled
  -- the induction is on the rounds of the run, with the clocks before it as they come
  induction hrun generalizing k with
  | @fault c d e es hfault =>
    have hround := h.round hc hp
    rwa [hfault] at hround
  | @frame c d f es hframe =>
    have hround := h.round hc hp
    rwa [hframe] at hround
  | @again c d u m r es es' hnone _ ih =>
    have hround := h.round hc hp
    have hpowered := (keeps_round c ⟨h.settled hc, hp⟩).1.2
    rw [hnone] at hround hpowered
    rw [Nat.add_comm m 1, ← Nat.add_assoc]
    exact ih hround hpowered

theorem requestKeeps_dmaPending : RequestKeeps fun c => c.bus.dmaPending = false where
  passive r hr h := (paused_of_isPassive _ hr).dmaPending_eq.trans h
  powerUp {c k} hsound h := by
    by_cases hc : c.cartridge.isSome
    -- a reset leaves the memory as it is
    · obtain ⟨pc, es, hpower⟩ := powerUp_eq hsound hc
      rw [hpower]
      exact h
    · rw [powerUp_of_empty (Option.not_isSome_iff_eq_none.mp hc)]
      exact h
  runFrame {c k} hsound h := by
    by_cases hp : c.powered = true
    · have hc := settled_of_stands (hsound.stands hp) h
      obtain ⟨m, hafter⟩ := After.here.runFrame hc.1 hp hsound.frameReady_eq
      exact (hafter.settled hc.1).dmaPending_eq
    · unfold Console.runFrame
      rw [if_neg hp]
      exact h

theorem settled_of_reached (h : Reached c frames) : c.Settled := by
  have hsound := (sound_of_reached h).1
  exact ⟨hsound.picture, hsound.wired, hsound.cartridge_of_powered,
    requestKeeps_dmaPending.reached rfl h⟩

/-- A clock that succeeds polls all interrupts, and it stalls the processor for the transfer that
its cycle has asked for, if it has. -/
structure Served (c d : Console) : Prop where
  nmiPending_eq : d.picture.nmiPending = false
  cycles_eq : d.processor.cycles = c.processor.cycles + 1
  transfers_le : transfers c.processor.accesses ≤ 1
  stall_eq : d.processor.stall.toNat = c.processor.stall.toNat - 1 +
    transfers c.processor.accesses * if d.processor.cycles.toNat % 2 = 0 then 513 else 514

/-- While the processor is stalled, a clock succeeds and executes no instruction. -/
theorem clock_of_stall (h : c.Settled) (hp : c.powered = true) (hs : 0 < c.processor.stall) :
    ∃ d es, clock c = ⟨.ok (), d, es⟩ ∧
      d.processor.stall.toNat = c.processor.stall.toNat - 1 ∧
      c.processor.Interrupted d.processor := by
  obtain ⟨es, hcycle⟩ := Processor.clockProcessor_of_stall h.dmaPending_eq hs
  obtain ⟨d, es', hclock, -, -, hpaused⟩ := clock_serves (h.stands hp) hcycle
  have hcounted : c.processor.Interrupted (c.processor.withClock (c.processor.cycles + 1)
      c.processor.pending (c.processor.stall - 1)) := Processor.interrupted_of_eq rfl rfl
  have hless : d.processor.stall.toNat = c.processor.stall.toNat - 1 := by
    rw [hpaused.stall_eq]
    exact Processor.toNat_pred hs
  exact ⟨d, es', hclock, hless, hcounted.trans hpaused.interrupted⟩

theorem served_of_clock (h : c.Settled) (hp : c.powered = true) {es : List Event}
    (hclock : clock c = ⟨.ok (), d, es⟩) : c.Served d := by
  rcases hcycle : clockProcessor c.processor with ⟨e | _, p, es'⟩
  · rw [clock_of_processor_error hcycle] at hclock
    cases hclock
  · obtain ⟨d', es'', hclock', -, hpolled, hpaused⟩ := clock_serves (h.stands hp) hcycle
    rw [hclock'] at hclock
    cases hclock
    obtain ⟨-, hcycles, hle, hstall⟩ := Processor.clockProcessor_of_ok h.dmaPending_eq hcycle
    refine ⟨hpolled, hpaused.cycles_eq.trans hcycles, hle, ?_⟩
    rw [hpaused.stall_eq, hpaused.cycles_eq, hstall]

theorem stalled_of_after (h : After c k d) (hc : c.Settled)
    (hk : k ≤ c.processor.stall.toNat) : d.processor.stall.toNat = c.processor.stall.toNat - k ∧
      c.processor.Interrupted d.processor := by
  -- the induction is on the clocks, between which neither frames nor requests end the stall
  induction h with
  | here => exact ⟨rfl, .refl⟩
  | @clock k d hd hp ih =>
    obtain ⟨hstall, hinterrupted⟩ := ih (Nat.le_of_succ_le hk)
    -- the stall is not yet used up, so that this clock executes nothing either
    have hpos : 0 < d.processor.stall := UInt32.lt_iff_toNat_lt.mpr (by
      rw [hstall]
      exact Nat.sub_pos_of_lt hk)
    obtain ⟨u, es, hclock, hless, hmore⟩ := clock_of_stall (hd.settled hc) hp hpos
    rw [hclock]
    refine ⟨?_, hinterrupted.trans hmore⟩
    dsimp only
    omega
  | @take k d _ _ ih =>
    have hpaused := paused_takeFrame d
    exact ⟨(congrArg UInt32.toNat hpaused.stall_eq).trans (ih hk).1,
      (ih hk).2.trans hpaused.interrupted⟩
  | @serve k d r _ hr ih =>
    have hpaused := paused_of_isPassive d hr
    exact ⟨(congrArg UInt32.toNat hpaused.stall_eq).trans (ih hk).1,
      (ih hk).2.trans hpaused.interrupted⟩

/-- Between two clocks no transfer waits. A clock that fails has not made the write that asks for
one; a clock that succeeds leaves no interrupt over and stalls the processor once for each such
write, of which there is at most one. Until the stall is used up, clocks succeed without an access,
and only entries into the interrupt change the registers and the work RAM. -/
theorem requests_are_served_at_once (h : Between c) :
    c.bus.dmaPending = false ∧
    (c.powered = true →
      (∀ e d es, clock c = ⟨.error e, d, es⟩ → transfers c.processor.accesses = 0) ∧
      ∀ d es, clock c = ⟨.ok (), d, es⟩ → c.Served d) ∧
    ∀ k d, After c k d → k ≤ c.processor.stall.toNat →
      d.processor.stall.toNat = c.processor.stall.toNat - k ∧
      c.processor.Interrupted d.processor ∧
      (d.powered = true → k < c.processor.stall.toNat →
        d.processor.accesses = [] ∧ ∃ u es, clock d = ⟨.ok (), u, es⟩) := by
  obtain ⟨c₀, frames, k₀, hreached, hafter⟩ := h
  have hc : c.Settled := hafter.settled (settled_of_reached hreached)
  refine ⟨hc.dmaPending_eq, ?_, ?_⟩
  · refine fun hp => ⟨?_, fun d es hclock => served_of_clock hc hp hclock⟩
    intro e d es hclock
    -- the dots behind it do not fail, so that it is the processor whose part has failed
    rcases hcycle : clockProcessor c.processor with ⟨e' | _, p, es'⟩
    · exact (Processor.clockProcessor_of_error hc.dmaPending_eq hcycle).2
    · obtain ⟨d', es'', hclock', -⟩ := clock_serves (hc.stands hp) hcycle
      rw [hclock'] at hclock
      cases hclock
  · intro k d hd hk
    obtain ⟨hstall, hinterrupted⟩ := stalled_of_after hd hc hk
    refine ⟨hstall, hinterrupted, ?_⟩
    intro hp hlt
    have hpos : 0 < d.processor.stall := UInt32.lt_iff_toNat_lt.mpr (by
      rw [hstall]
      exact Nat.sub_pos_of_lt hlt)
    obtain ⟨u, es, hclock, -⟩ := clock_of_stall (hd.settled hc) hp hpos
    exact ⟨Processor.accesses_of_owed (Or.inl hpos), u, es, hclock⟩

theorem exists_after (h : c.Settled) (hp : c.powered = true) (k : Nat) :
    ∃ d, After c k d ∧ d.powered = true := by
  induction k with
  | zero => exact ⟨c, .here, hp⟩
  | succ k ih =>
    obtain ⟨d, hd, hpowered⟩ := ih
    exact ⟨_, hd.clock hpowered, (keeps_clock d ⟨hd.settled h, hpowered⟩).1.2⟩

end Console

/-- At `0x8000` the cartridge has a page transferred, and its reset vector leads there. -/
structure Cartridge.Transfers (k : Cartridge) : Prop where
  opcode : k.read 0x8000 = .ok 0x8D
  low : k.read 0x8001 = .ok 0x14
  high : k.read 0x8002 = .ok 0x40
  resetLow : k.read 0xFFFC = .ok 0x00
  resetHigh : k.read 0xFFFD = .ok 0x80

def Cartridge.transferringProgram : Vector UInt8 0x4000 := .ofFn fun i =>
  if i.val = 0 then 0x8D
  else if i.val = 1 then 0x14
  else if i.val = 2 then 0x40
  else if i.val = 0x3FFD then 0x80
  else 0

theorem Cartridge.exists_transfers : ∃ image k, ofImage image = .ok k ∧ k.Transfers := by
  have hread : ∀ addr : UInt16, 0x8000 ≤ addr.toNat →
      (plain transferringProgram (.replicate 0x2000 0)).read addr =
        .ok (if addr.toNat % 0x4000 = 0 then 0x8D
          else if addr.toNat % 0x4000 = 1 then 0x14
          else if addr.toNat % 0x4000 = 2 then 0x40
          else if addr.toNat % 0x4000 = 0x3FFD then 0x80
          else 0) := by
    intro addr h
    rw [read_plain _ _ h, transferringProgram, Vector.getElem_ofFn]
  exact ⟨_, _, ofImage_plainImage transferringProgram (.replicate 0x2000 0), {
    opcode := hread _ (by decide)
    low := hread _ (by decide)
    high := hread _ (by decide)
    resetLow := hread _ (by decide)
    resetHigh := hread _ (by decide) }⟩

namespace Processor

variable {p : Processor Bus} {k : Cartridge}

theorem perform_storing {b : Bus} {es : List Event} {f : Registers → UInt8} {o : Operand}
    (h : Bus.write o.addr (f p.registers) p.memory = ⟨.ok (), b, es⟩) (start : UInt16)
    (opcode : UInt8) (mode : Mode) : (perform start opcode mode o (.storing f) :
      Action (Fault Bus.Fault) (Processor Bus) Nat) p =
        ⟨.ok 0, { p with memory := b }, es ++ []⟩ := by
  have hwrite : (write o.addr (f p.registers) :
      Action (Fault Bus.Fault) (Processor Bus) Unit) p = ⟨.ok (), { p with memory := b }, es⟩ :=
    onMemory_of_ok h
  unfold Behaviour.storing perform
  dsimp only
  rw [view_registers]
  dsimp only
  rw [update_registers, bind_of_ok hwrite]
  rfl

/-- The transfer of a page of the work RAM succeeds. -/
theorem execute_of_transfers (hk : k.Transfers) (hp : p.memory.cartridge = some k)
    (hpc : p.registers.pc = 0x8000) (ha : p.registers.a < 0x20) :
    ∃ q es, execute p = ⟨.ok 4, q, es⟩ ∧ q.memory.dmaPending = true := by
  have ha' : p.registers.a.toNat < 0x20 := UInt8.lt_iff_toNat_lt.mp ha
  have htaken : ¬p.memory.WriteRefused Bus.oamDmaAddress p.registers.a := by
    have haddr : Bus.oamDmaAddress.toNat = 0x4014 := rfl
    rintro (_ | _ | ⟨-, ⟨hpage, -⟩ | ⟨hpage, -⟩⟩ | _ | _) <;> omega
  obtain ⟨⟨⟩, b, es, hwrite⟩ := (Bus.refuses_write _ _ p.memory).2 htaken
  have hfetch := fetch_of_cartridge hp (show k.read p.registers.pc = _ from hpc ▸ hk.opcode)
  have hlow : k.read (p.registers.pc + 1) = .ok 0x14 := hpc.symm ▸ hk.low
  have hhigh : k.read (p.registers.pc + 1 + 1) = .ok 0x40 := hpc.symm ▸ hk.high
  have hoperand := operand_absolute_of_cartridge (k := k) (p :=
    { p with registers := { p.registers with pc := p.registers.pc + 1 } }) hp hlow hhigh
  have hmode : (Instruction.decode 0x8D).mode = .absolute := rfl
  have hstore : (Instruction.decode 0x8D).operation.behaviour = .storing (·.a) := rfl
  have hperform := perform_storing (b := b) (f := (·.a)) (o := .plain (word 0x14 0x40)) (p :=
    { p with registers := { p.registers with pc := p.registers.pc + 1 + 1 + 1 } }) hwrite
  unfold execute
  rw [view_registers, bind_of_ok hfetch]
  dsimp only
  rw [hmode, bind_of_ok hoperand, hstore, bind_of_ok (hperform _ _ _)]
  exact ⟨_, _, rfl, Bus.dmaPending_oamDma (b := p.memory) hwrite⟩

end Processor

namespace Console

theorem clock_of_transfers {k : Cartridge} (hk : k.Transfers) (h : c.Settled)
    (hp : c.powered = true) (hcartridge : c.cartridge = some k)
    (hpc : c.processor.registers.pc = 0x8000) (ha : c.processor.registers.a < 0x20)
    (hs : c.processor.stall = 0) (hn : c.processor.pending = 0) :
    ∃ d es, clock c = ⟨.ok (), d, es⟩ ∧ transfers c.processor.accesses = 1 := by
  obtain ⟨q, es, hexecute, hpending⟩ := Processor.execute_of_transfers hk
    (h.wired.bus_cartridge.trans hcartridge) hpc ha
  have hcycle := Processor.cycle_of_ok hs hn hexecute
  have hclock : ∃ p es', clockProcessor c.processor = ⟨.ok (), p, es'⟩ := by
    unfold clockProcessor
    rw [hcycle]
    dsimp only
    rw [Processor.serveDma_eq]
    exact ⟨_, _, rfl⟩
  obtain ⟨p, es', hclock⟩ := hclock
  obtain ⟨d, es'', hd, -⟩ := clock_serves (h.stands hp) hclock
  refine ⟨d, es'', hd, ?_⟩
  rcases Processor.dmaPending_cycle h.dmaPending_eq with ⟨hnone, -⟩ | ⟨-, -, hone⟩
  · rw [hcycle] at hnone
    exact absurd (hpending.symm.trans hnone) (by decide)
  · exact hone

theorem exists_clock_of_transfers : ∃ c d es, Reached c [] ∧ c.powered = true ∧
    c.processor.cycles = 0 ∧ c.processor.stall = 0 ∧ clock c = ⟨.ok (), d, es⟩ ∧
      transfers c.processor.accesses = 1 := by
  obtain ⟨image, k, himage, hk⟩ := Cartridge.exists_transfers
  have hcartridge : (Console.insert image {}).state.cartridge = some k := cartridge_insert himage
  have hreached : Reached (Console.insert image {}).state [] := Reached.new.serve (.insert image)
  generalize (Console.insert image {}).state = c₀ at hcartridge hreached
  have hbus := (sound_of_reached hreached).1.wired.bus_cartridge.trans hcartridge
  -- the processor starts at the program, and with no cycles counted
  obtain ⟨es, hreset⟩ := Processor.reset_eq (p := c₀.processor)
    (Bus.readCartridge_eq hbus hk.resetLow) (Bus.readCartridge_eq hbus hk.resetHigh)
  have hc := hreached.powerUp (powerUp_of_reset (by rw [hcartridge]; rfl) hreset)
  obtain ⟨d, es', hclock, hone⟩ := clock_of_transfers hk (settled_of_reached hc) rfl hcartridge rfl
    (show (0 : UInt8) < 0x20 by decide) rfl rfl
  exact ⟨_, d, es', hc, rfl, rfl, rfl, hclock, hone⟩

/-- A program whose first instruction has page zero transferred: its clock stalls the processor for
514 cycles, and as many clocks later the stall is used up. -/
theorem requests_are_served_at_once_of_transferring : ∃ c d u : Console,
    Between c ∧ c.powered = true ∧ (∃ es, clock c = ⟨.ok (), d, es⟩) ∧
    transfers c.processor.accesses = 1 ∧ d.processor.stall = 514 ∧ d.bus.dmaPending = false ∧
    d.processor.accesses = [] ∧ After d 514 u ∧ u.processor.stall = 0 ∧
    d.processor.Interrupted u.processor := by
  obtain ⟨c, d, es, hc, hp, hcycles, hstall, hclock, hone⟩ := exists_clock_of_transfers
  have hbetween : Between c := ⟨c, [], 0, hc, .here⟩
  have hserved := ((requests_are_served_at_once hbetween).2.1 hp).2 d es hclock
  have hlong : d.processor.stall.toNat = 514 := by
    rw [hserved.stall_eq, hone, hserved.cycles_eq, hstall, hcycles]
    rfl
  have hafter := After.here.clock hp
  have hpowered := (keeps_clock c ⟨settled_of_reached hc, hp⟩).1.2
  rw [hclock] at hafter hpowered
  obtain ⟨hpending, -, hstalled⟩ := requests_are_served_at_once ⟨c, [], 1, hc, hafter⟩
  obtain ⟨u, hu, -⟩ := exists_after (hafter.settled (settled_of_reached hc)) hpowered 514
  obtain ⟨-, -, hquiet⟩ := hstalled 0 d .here (Nat.zero_le _)
  obtain ⟨hused, hinterrupted, -⟩ := hstalled 514 u hu (le_of_eq hlong.symm)
  rw [hlong] at hquiet hused
  exact ⟨c, d, u, hbetween, hp, ⟨es, hclock⟩, hone, UInt32.toNat_inj.mp hlong, hpending,
    (hquiet hpowered (by decide)).1, hu, UInt32.toNat_inj.mp hused, hinterrupted⟩

end Console

end Famicom
