import Famicom.Proofs.Cartridge
import Famicom.Proofs.Console.Frame

/-! A program that waits in a jump to itself, where its interrupts lead as well. It
makes no access that could be refused, so that every run for a frame succeeds. -/

namespace Famicom

open Famicom.Action

/-- At `a` the cartridge jumps to `a`, and both of its vectors lead there. -/
structure Cartridge.Waits (k : Cartridge) (a : UInt16) : Prop where
  jump : k.read a = .ok 0x4C
  target : ∃ low high, k.read (a + 1) = .ok low ∧ k.read (a + 1 + 1) = .ok high ∧
    Processor.word low high = a
  nmi : ∃ low high, k.read 0xFFFA = .ok low ∧ k.read 0xFFFB = .ok high ∧
    Processor.word low high = a
  reset : ∃ low high, k.read 0xFFFC = .ok low ∧ k.read 0xFFFD = .ok high ∧
    Processor.word low high = a

/-- A bank with such a program at its start. -/
def Cartridge.waitingProgram : Vector UInt8 0x4000 := .ofFn fun i =>
  if i.val = 0 then 0x4C
  else if i.val = 2 ∨ i.val = 0x3FFB ∨ i.val = 0x3FFD then 0x80
  else 0

theorem Cartridge.waits_waitingProgram (chr : Vector UInt8 0x2000) :
    (plain waitingProgram chr).Waits 0x8000 := by
  have hread : ∀ addr : UInt16, 0x8000 ≤ addr.toNat → (plain waitingProgram chr).read addr =
      .ok (if addr.toNat % 0x4000 = 0 then 0x4C
        else if addr.toNat % 0x4000 = 2 ∨ addr.toNat % 0x4000 = 0x3FFB ∨
          addr.toNat % 0x4000 = 0x3FFD then 0x80
        else 0) := by
    intro addr h
    rw [read_plain _ _ h, waitingProgram, Vector.getElem_ofFn]
  exact {
    jump := hread _ (by decide)
    target := ⟨_, _, hread _ (by decide), hread _ (by decide), rfl⟩
    nmi := ⟨_, _, hread _ (by decide), hread _ (by decide), rfl⟩
    reset := ⟨_, _, hread _ (by decide), hread _ (by decide), rfl⟩ }

/-- There are images of such programs. -/
theorem Cartridge.exists_waits : ∃ image k a, ofImage image = .ok k ∧ k.Waits a :=
  ⟨_, _, _, ofImage_plainImage waitingProgram (.replicate 0x2000 0), waits_waitingProgram _⟩

variable {x : Picture.Position} {n m : Nat} {k : Cartridge} {a : UInt16} {c d : Console}

theorem Bus.readCartridge_eq {b : Bus} {addr : UInt16} {v : UInt8} (hb : b.cartridge = some k)
    (h : k.read addr = .ok v) : b.readCartridge addr = .ok v := by
  unfold Bus.readCartridge
  rw [hb]
  dsimp only
  rw [h]
  rfl

theorem Bus.read_of_cartridge {b : Bus} {addr : UInt16} {v : UInt8} (hb : b.cartridge = some k)
    (h : k.read addr = .ok v) : Bus.read addr b = ⟨.ok v, b, []⟩ := by
  -- the cartridge has answered, so the address is one of its own
  have hwired : ¬addr < 0x6000 := by
    intro hlow
    unfold Cartridge.read at h
    rw [if_pos hlow] at h
    cases h
  rw [Bus.read_eq_inspect hwired, inspect_apply, Bus.readCartridge_eq hb h]

namespace Processor

variable {p q : Processor Bus}

/-- The processor stands at the jump. -/
structure Waits (k : Cartridge) (a : UInt16) (p : Processor Bus) : Prop where
  pc_eq : p.registers.pc = a
  cartridge_eq : p.memory.cartridge = some k

theorem read_of_cartridge {addr : UInt16} {v : UInt8} (hp : p.memory.cartridge = some k)
    (h : k.read addr = .ok v) :
    (read addr : Action (Fault Bus.Fault) (Processor Bus) UInt8) p = ⟨.ok v, p, []⟩ :=
  onMemory_of_ok (Bus.read_of_cartridge hp h)

theorem fetch_of_cartridge {v : UInt8} (hp : p.memory.cartridge = some k)
    (h : k.read p.registers.pc = .ok v) :
    (fetch : Action (Fault Bus.Fault) (Processor Bus) UInt8) p =
      ⟨.ok v, { p with registers := { p.registers with pc := p.registers.pc + 1 } }, []⟩ := by
  have hread := read_of_cartridge hp h
  unfold fetch
  rw [view_registers, bind_of_ok hread]
  rfl

/-- The operand of an instruction with an absolute address is the word behind its opcode. -/
theorem operand_absolute_of_cartridge {low high : UInt8} (hp : p.memory.cartridge = some k)
    (hlow : k.read p.registers.pc = .ok low) (hhigh : k.read (p.registers.pc + 1) = .ok high) :
    (operand .absolute : Action (Fault Bus.Fault) (Processor Bus) Operand) p =
      ⟨.ok (.plain (word low high)),
        { p with registers := { p.registers with pc := p.registers.pc + 1 + 1 } }, []⟩ := by
  have hfirst := fetch_of_cartridge hp hlow
  have hsecond := fetch_of_cartridge (k := k) (p :=
    { p with registers := { p.registers with pc := p.registers.pc + 1 } }) hp hhigh
  have hfetchWord : (fetchWord : Action (Fault Bus.Fault) (Processor Bus) UInt16) p =
      ⟨.ok (word low high),
        { p with registers := { p.registers with pc := p.registers.pc + 1 + 1 } }, []⟩ := by
    unfold fetchWord
    rw [bind_of_ok hfirst, bind_of_ok hsecond]
    rfl
  unfold operand
  dsimp only
  rw [bind_of_ok hfetchWord]
  rfl

/-- The jump takes three cycles and changes nothing. -/
theorem execute_of_waits (hk : k.Waits a) (h : p.Waits k a) : execute p = ⟨.ok 3, p, []⟩ := by
  obtain ⟨hpc, hp⟩ := h
  obtain ⟨low, high, hlow, hhigh, hword⟩ := hk.target
  subst hpc
  have hfetch := fetch_of_cartridge hp hk.jump
  -- the operand of the jump is its own address, which is behind the opcode
  have hoperand := operand_absolute_of_cartridge (k := k) (p :=
    { p with registers := { p.registers with pc := p.registers.pc + 1 } }) hp hlow hhigh
  rw [hword] at hoperand
  have hmode : (Instruction.decode 0x4C).mode = .absolute := rfl
  unfold execute
  rw [view_registers, bind_of_ok hfetch]
  dsimp only
  rw [hmode, bind_of_ok hoperand]
  rfl

theorem cycle_of_waits (hk : k.Waits a) (h : p.Waits k a) :
    ∃ q es, cycle p = ⟨.ok (), q, es⟩ ∧ q.Waits k a := by
  by_cases hs : 0 < p.stall
  · exact ⟨_, _, cycle_of_stall p hs, h.pc_eq, h.cartridge_eq⟩
  have hstall := eq_zero_of_not_pos hs
  by_cases hn : 0 < p.pending
  · exact ⟨_, _, cycle_of_pending p hstall hn, h.pc_eq, h.cartridge_eq⟩
  · exact ⟨_, _, cycle_of_ok hstall (eq_zero_of_not_pos hn) (execute_of_waits hk h), h.pc_eq,
      h.cartridge_eq⟩

theorem clockProcessor_of_waits (hk : k.Waits a) (h : p.Waits k a) :
    ∃ q es, Console.clockProcessor p = ⟨.ok (), q, es⟩ ∧ q.Waits k a := by
  obtain ⟨q, es, hq, hwaits⟩ := cycle_of_waits hk h
  have hserve : ∃ r, Console.serveDma q = ⟨.ok (), r, []⟩ ∧ r.Waits k a := by
    have htake : (onMemory Bus.takeDma : Action (Fault Bus.Fault) (Processor Bus) Bool) q =
        ⟨.ok q.memory.dmaPending, { q with memory := { q.memory with dmaPending := false } }, []⟩ :=
      onMemory_of_ok rfl
    unfold Console.serveDma
    rw [bind_of_ok htake, Action.ite_apply]
    split
    · exact ⟨_, rfl, hwaits.pc_eq, hwaits.cartridge_eq⟩
    · exact ⟨_, rfl, hwaits.pc_eq, hwaits.cartridge_eq⟩
  obtain ⟨r, hr, hwaits'⟩ := hserve
  unfold Console.clockProcessor
  rw [hq]
  dsimp only
  rw [hr]
  exact ⟨r, _, rfl, hwaits'⟩

/-- Interrupts push to the work RAM and lead back to the jump. -/
theorem nmi_of_waits (hk : k.Waits a) (h : p.memory.cartridge = some k) :
    ∃ q es, (nmi : Action (Fault Bus.Fault) (Processor Bus) Unit) p = ⟨.ok (), q, es⟩ ∧
      q.Waits k a := by
  obtain ⟨low, high, hlow, hhigh, hword⟩ := hk.nmi
  obtain ⟨registers, pending, ram, es, hnmi, hpc⟩ :=
    nmi_eq (Bus.readCartridge_eq h hlow) (Bus.readCartridge_eq h hhigh)
  exact ⟨_, es, hnmi, hpc.trans hword, h⟩

theorem reset_of_waits (hk : k.Waits a) (h : p.memory.cartridge = some k) :
    ∃ q es, (reset : Action (Fault Bus.Fault) (Processor Bus) Unit) p = ⟨.ok (), q, es⟩ ∧
      q.Waits k a := by
  obtain ⟨low, high, hlow, hhigh, hword⟩ := hk.reset
  obtain ⟨es, hreset⟩ := reset_eq (Bus.readCartridge_eq h hlow) (Bus.readCartridge_eq h hhigh)
  exact ⟨_, es, hreset, hword, h⟩

end Processor

namespace Console

/-- The console is on and waits in its program. -/
structure Waits (k : Cartridge) (a : UInt16) (x : Picture.Position) (n : Nat) (c : Console) :
    Prop extends c.Stands x n where
  waits : c.processor.Waits k a

theorem waits_withPicture (h : c.Waits k a x n) {y : Picture.Position} {p : Picture}
    (hp : (c.withPicture p).Stands y n) (hmemory : p.memory = c.picture.memory) :
    (c.withPicture p).Waits k a y n :=
  ⟨hp, h.waits.pc_eq, (congrArg (·.cartridgeIn c.bus.slot) hmemory).trans h.waits.cartridge_eq⟩

theorem clockPicture_of_waits (hk : k.Waits a) (h : c.Waits k a x n) :
    ∃ d es, clockPicture c = ⟨.ok (), d, es⟩ ∧ d.Waits k a x.next n := by
  obtain ⟨d, es, hclock, hd, -⟩ := clockPicture_of_stands h.toStands
  obtain ⟨p, d', es₁, es₂, htick, hp, hclock', hd'⟩ := clockPicture_eq h.toStands
  rw [hclock] at hclock'
  cases hclock'
  -- a dot and its poll do not touch the slots; only the interrupt moves the processor
  have hmemory := memory_of_tick htick
  have hpolled := waits_withPicture h hp hmemory
  refine ⟨d, es, hclock, hd, ?_⟩
  rcases hd' with ⟨-, rfl⟩ | ⟨-, es₃, hnmi⟩
  · exact hpolled.waits
  · obtain ⟨q, es₄, hnmi', hq⟩ := Processor.nmi_of_waits hk hpolled.waits.cartridge_eq
    rw [onProcessor_of_ok hnmi'] at hnmi
    cases hnmi
    exact hq

/-- No clock fails. -/
theorem clock_of_waits (hk : k.Waits a) (h : c.Waits k a x n) :
    ∃ d es, clock c = ⟨.ok (), d, es⟩ ∧ d.Waits k a x.next.next.next (n + 1) := by
  obtain ⟨p, es, hp, hwaits⟩ := Processor.clockProcessor_of_waits hk h.waits
  have hprocessor := (Processor.clockProcessor_of_stands h.processor).1
  rw [hp] at hprocessor
  have hstart : Waits k a x (n + 1) { c with processor := p } :=
    ⟨⟨h.powered, hprocessor⟩, hwaits⟩
  obtain ⟨d₁, es₁, hd₁, hwaits₁⟩ := clockPicture_of_waits hk hstart
  obtain ⟨d₂, es₂, hd₂, hwaits₂⟩ := clockPicture_of_waits hk hwaits₁
  obtain ⟨d₃, es₃, hd₃, hwaits₃⟩ := clockPicture_of_waits hk hwaits₂
  unfold clock
  rw [bind_of_ok (onProcessor_of_ok hp), bind_of_ok hd₁, bind_of_ok hd₂, hd₃]
  exact ⟨d₃, _, rfl, hwaits₃⟩

theorem takeFrame_of_waits (h : c.Waits k a x n) :
    ∃ f d, takeFrame c = ⟨.ok f, d, []⟩ ∧ d.Waits k a x.taken n := by
  -- `d` is known only by where it stands, so it is compared with what taking a frame changes
  obtain ⟨d, htake, hd⟩ := takeFrame_of_stands h.toStands
  have hstate := congrArg Outcome.state htake
  unfold takeFrame at hstate
  rw [bind_of_ok (onBus_onPicture_of_ok rfl)] at hstate
  have hkept : c.withPicture { c.picture with frameReady := false } = d := hstate
  refine ⟨_, d, htake, hd, ?_⟩
  rw [← hkept]
  exact ⟨h.waits.pc_eq, h.waits.cartridge_eq⟩

theorem clockAndTake_of_waits (hk : k.Waits a) (h : c.Waits k a x n) :
    ∃ f d es, clockAndTake c = ⟨.ok f, d, es⟩ ∧ d.Waits k a x.next.next.next.taken (n + 1) := by
  obtain ⟨d, es, hclock, hd⟩ := clock_of_waits hk h
  obtain ⟨f, u, htake, hu⟩ := takeFrame_of_waits hd
  unfold clockAndTake
  rw [bind_of_ok hclock, htake]
  exact ⟨f, u, _, rfl, hu⟩

/-- A run of rounds that waits ends with a frame, and the console still waits. -/
theorem RunsTo.waits {o : Outcome Fault Console Frame} (hrun : RunsTo m c o) (hk : k.Waits a)
    (h : c.Waits k a x n) : ∃ f y l, o.answer = .ok f ∧ o.state.Waits k a y l := by
  induction hrun generalizing x n with
  | fault hround =>
    obtain ⟨f, d, es, hround', -⟩ := clockAndTake_of_waits hk h
    rw [hround'] at hround
    cases hround
  | @frame c d f es hround =>
    obtain ⟨f', d', es', hround', hd⟩ := clockAndTake_of_waits hk h
    rw [hround'] at hround
    cases hround
    exact ⟨f, _, _, rfl, hd⟩
  | again hround _ ih =>
    obtain ⟨f, d', es', hround', hd⟩ := clockAndTake_of_waits hk h
    rw [hround'] at hround
    cases hround
    exact ih hd

/-- Every run for a frame succeeds while the program waits. -/
theorem runFrame_of_waits (hk : k.Waits a) (h : c.Waits k a x n) (hready : x.frameReady = false) :
    ∃ f d es y l, runFrame c = ⟨.ok f, d, es⟩ ∧ d.Waits k a y l ∧ y.frameReady = false := by
  obtain ⟨m, -, hrun⟩ := runsTo_runFrame h.toStands hready
  obtain ⟨y, l, hy, hyready, -⟩ := hrun.ends h.toStands hready
  obtain ⟨f, z, l', hanswer, hz⟩ := hrun.waits hk h
  rcases hframe : runFrame c with ⟨answer, d, es⟩
  rw [hframe] at hy hanswer hz
  dsimp only at hy hanswer hz
  subst hanswer
  exact ⟨f, d, es, y, l, rfl, ⟨hy, hz.waits⟩, hyready⟩

theorem powerUp_of_waits (hk : k.Waits a) (hc : c.cartridge = some k)
    (hs : c.bus.Steady c.slot x) : ∃ d es, powerUp c = ⟨.ok (), d, es⟩ ∧ d.Waits k a x 0 := by
  have hcartridge : c.cartridge.isSome := by
    rw [hc]
    rfl
  have hbus : c.bus.cartridge = some k :=
    (congrArg c.picture.memory.cartridgeIn hs.slot_eq).trans hc
  obtain ⟨p, es, hreset, hp⟩ := Processor.reset_of_stands
    (n := c.processor.cycles.toNat) ⟨hs, UInt64.ofNat_toNat.symm⟩
  obtain ⟨q, es', hreset', hq⟩ := Processor.reset_of_waits hk hbus
  rw [hreset] at hreset'
  cases hreset'
  exact ⟨⟨p, c.slot, true⟩, es ++ [], powerUp_of_reset hcartridge hreset, ⟨rfl, hp⟩, hq⟩

end Console

end Famicom
