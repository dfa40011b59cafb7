import Famicom.Proofs.Bus.Refusal
import Famicom.Proofs.Console.Completion
import Famicom.Proofs.Console.Transfer
import Famicom.Proofs.Processor.Pushes

/-! An opcode that locks the processor up. It leaves everything but the clock as it was, and the
processor stands before it again, so that every later run ends there in its first cycle. -/

namespace Famicom

open Famicom.Action

/-- An opcode that locks the processor up. -/
def Instruction.Jams (opcode : UInt8) : Prop := (decode opcode).operation = .jam

instance (opcode : UInt8) : Decidable (Instruction.Jams opcode) :=
  inferInstanceAs (Decidable (_ = _))

theorem Operation.eq_jam_of_isJam {o : Operation} (h : o.behaviour.isJam = true) : o = .jam := by
  cases o <;> first | rfl | exact absurd h Bool.false_ne_true

theorem Instruction.implied_of_jams {opcode : UInt8} (h : Jams opcode) :
    (decode opcode).mode = .implied :=
  forall_decode (P := fun i => i.operation = .jam → i.mode = .implied) (by decide) opcode h

namespace Processor

section

variable {M ε : Type} [Memory M ε] {p q : Processor M} {opcode : UInt8} {pc : UInt16} {m : M}
  {es : List Event}

theorem perform_jam (start : UInt16) (opcode : UInt8) (mode : Mode) (operand : Operand)
    (p : Processor M) : (perform start opcode mode operand .jam :
      Action (Fault ε) (Processor M) Nat) p = ⟨.error (.jammed opcode start),
        { p with registers := { p.registers with pc := start } }, [.jam opcode start]⟩ :=
  rfl

theorem fetch_of_error {e : ε} (h : Memory.read p.registers.pc p.memory = ⟨.error e, m, es⟩) :
    fetch p = ⟨.error (.memory e), { p with memory := m }, es⟩ := by
  unfold fetch
  rw [view_registers, read, bind_of_error (onMemory_of_error h)]

/-- Only the opcode at the program counter can lock the processor up, and nothing but its fetch has
an effect. -/
theorem jams_of_execute (h : execute p = ⟨.error (.jammed opcode pc), q, es⟩) :
    p.registers.pc = pc ∧ Instruction.Jams opcode ∧ ∃ m es',
      Memory.read pc p.memory = ⟨.ok opcode, m, es'⟩ ∧ q = { p with memory := m } := by
  unfold execute at h
  rw [view_registers] at h
  -- the fetches and the operand only access the memory, which does not report a jam
  rcases error_of_bind h with hfetch | ⟨v, p₁, _, _, hfetch, h, -⟩
  · exact absurd (congrArg Outcome.answer hfetch) (Accesses.fetch.not_jammed p opcode pc)
  rcases error_of_bind h with hoperand | ⟨operand, p₂, _, _, hoperand, h, -⟩
  · exact absurd (congrArg Outcome.answer hoperand) ((Accesses.operand _).not_jammed p₁ opcode pc)
  rcases error_of_bind h with hperform | ⟨extra, p₃, _, _, -, h, -⟩
  · cases hjam : (Instruction.decode v).operation.behaviour.isJam with
    | false =>
      exact absurd (congrArg Outcome.answer hperform)
        ((Accesses.perform _ _ _ _ hjam).not_jammed p₂ opcode pc)
    | true =>
      have hjams : Instruction.Jams v := Operation.eq_jam_of_isJam hjam
      have hop : (Instruction.decode v).operation = .jam := hjams
      rw [Instruction.implied_of_jams hjams] at hoperand
      cases hoperand
      rw [hop, show Operation.behaviour .jam = .jam from rfl, perform_jam] at hperform
      cases hperform
      -- what was fetched is the opcode, and the program counter is set back to its place
      rcases hread : Memory.read p.registers.pc p.memory with ⟨e | w, m, es'⟩
      · rw [fetch_of_error hread] at hfetch
        cases hfetch
      · rw [fetch_of_ok hread] at hfetch
        cases hfetch
        exact ⟨rfl, hjams, m, _, rfl, rfl⟩
  · cases h

theorem execute_of_jams (hjams : Instruction.Jams opcode) (hpc : p.registers.pc = pc)
    (hread : Memory.read pc p.memory = ⟨.ok opcode, m, es⟩) :
    ∃ es', execute p = ⟨.error (.jammed opcode pc), { p with memory := m }, es'⟩ := by
  subst hpc
  have hop : (Instruction.decode opcode).operation = .jam := hjams
  unfold execute
  rw [view_registers, bind_of_ok (fetch_of_ok hread)]
  dsimp only
  rw [Instruction.implied_of_jams hjams, hop]
  exact ⟨_, rfl⟩

theorem jams_of_cycle (h : cycle p = ⟨.error (.jammed opcode pc), q, es⟩) :
    p.stall = 0 ∧ p.pending = 0 ∧ p.registers.pc = pc ∧ Instruction.Jams opcode ∧ ∃ m es',
      Memory.read pc p.memory = ⟨.ok opcode, m, es'⟩ ∧
        q = { p with cycles := p.cycles + 1, memory := m } := by
  by_cases hs : 0 < p.stall
  · rw [cycle_of_stall p hs] at h
    cases h
  by_cases hn : 0 < p.pending
  · rw [cycle_of_pending p (eq_zero_of_not_pos hs) hn] at h
    cases h
  have hs : p.stall = 0 := eq_zero_of_not_pos hs
  have hn : p.pending = 0 := eq_zero_of_not_pos hn
  rcases hx : execute p with ⟨e | cost, r, es'⟩
  · rw [cycle_of_error hs hn hx] at h
    cases h
    obtain ⟨hpc, hjams, m, es', hread, rfl⟩ := jams_of_execute hx
    refine ⟨hs, hn, hpc, hjams, m, es', hread, ?_⟩
    simp only [withClock, hs, hn]
  · rw [cycle_of_ok hs hn hx] at h
    cases h

end

end Processor

namespace Bus

variable {addr : UInt16} {b : Bus}

/-- The byte at an address of the work RAM or of the cartridge. -/
def byteAt (b : Bus) (addr : UInt16) : Except Fault UInt8 :=
  if addr < 0x2000 then .ok (b.peekRam addr) else b.readCartridge addr

/-- Addresses of memories, which are read without an effect. -/
def Still (addr : UInt16) : Prop := addr < 0x2000 ∨ ¬addr < 0x6000

theorem read_of_still (h : Still addr) (b : Bus) : read addr b = ⟨b.byteAt addr, b, []⟩ := by
  unfold byteAt
  by_cases hlow : addr < 0x2000
  · rw [if_pos hlow]
    unfold read
    rw [if_pos hlow]
    rfl
  · rw [if_neg hlow, read_eq_inspect (h.resolve_left hlow)]
    rfl

/-- A controller answers one bit. -/
theorem answer_read_controller (c : Controller) :
    ∃ bit : Bool, (Controller.read (ε := Fault) c).answer = .ok bit.toUInt8 := by
  unfold Controller.read
  split
  · exact ⟨_, rfl⟩
  split
  · exact ⟨_, rfl⟩
  · exact ⟨true, rfl⟩

theorem not_jams_bit (bit : Bool) : ¬Instruction.Jams bit.toUInt8 := by
  cases bit <;> decide

/-- Between the registers of the picture unit and the cartridge no opcode is read that locks the
processor up. -/
theorem still_of_jams {opcode : UInt8} (hplace : addr < 0x2000 ∨ ¬addr < 0x4000)
    (hread : (read addr b).answer = .ok opcode) (hjams : Instruction.Jams opcode) :
    Still addr := by
  rcases hplace with hlow | hhigh
  · exact .inl hlow
  by_contra hstill
  obtain ⟨hram, hwired⟩ := not_or.mp hstill
  rw [not_not] at hwired
  -- a controller answers 0 or 1, and no such byte is an opcode of this kind
  have hbit : ∀ player,
      (onController player Controller.read b : Outcome Fault Bus UInt8).answer = .ok opcode →
        False := by
    intro player hanswer
    obtain ⟨ram, picture, one, two, dmaPending⟩ := b
    cases player with
    | one =>
      obtain ⟨bit, hbit⟩ := answer_read_controller one
      cases hbit.symm.trans hanswer
      exact not_jams_bit bit hjams
    | two =>
      obtain ⟨bit, hbit⟩ := answer_read_controller two
      cases hbit.symm.trans hanswer
      exact not_jams_bit bit hjams
  -- the other addresses in between are not read, or read as zero
  unfold read at hread
  rw [if_neg hram, if_neg hhigh] at hread
  split at hread
  · cases hread
  split at hread
  · exact hbit .one hread
  split at hread
  · exact hbit .two hread
  split at hread
  · cases hread
    exact absurd hjams (by decide)
  · cases hread

end Bus

namespace Console

variable {x : Picture.Position} {n : Nat} {c d : Console} {opcode : UInt8} {pc : UInt16}
  {es : List Event} {frames : List Frame}

/-- The console after more cycles in which nothing but the clock has moved. -/
def aged (c : Console) (n : Nat) : Console :=
  { c with processor := { c.processor with cycles := c.processor.cycles + .ofNat n } }

theorem aged_zero (c : Console) : c.aged 0 = c := by
  unfold aged
  rw [show UInt64.ofNat 0 = 0 from rfl, UInt64.add_zero]

theorem aged_aged (c : Console) (m n : Nat) : (c.aged m).aged n = c.aged (m + n) := by
  unfold aged
  rw [UInt64.ofNat_add, ← UInt64.add_assoc]

/-- The console is on, and its processor is about to execute an opcode that locks it up. -/
structure Jams (opcode : UInt8) (pc : UInt16) (c : Console) : Prop where
  powered : c.powered = true
  stall_eq : c.processor.stall = 0
  pending_eq : c.processor.pending = 0
  pc_eq : c.processor.registers.pc = pc
  still : Bus.Still pc
  opcode_eq : c.bus.byteAt pc = .ok opcode
  jams : Instruction.Jams opcode

theorem Jams.aged (h : c.Jams opcode pc) (n : Nat) : (c.aged n).Jams opcode pc := { h with }

theorem Jams.withControllers (h : c.Jams opcode pc) (one two : Controller) :
    (c.withControllers one two).Jams opcode pc := { h with }

theorem clockProcessor_of_cycle_error {p q : Processor Bus} {e : Processor.Fault Bus.Fault}
    (h : Processor.cycle p = ⟨.error e, q, es⟩) :
    clockProcessor p = ⟨.error e, q, es ++ [.halted q.registers.pc e]⟩ := by
  unfold clockProcessor
  rw [h]

theorem cycle_of_clockProcessor_error {p q : Processor Bus} {e : Processor.Fault Bus.Fault}
    (h : clockProcessor p = ⟨.error e, q, es⟩) :
    ∃ es', Processor.cycle p = ⟨.error e, q, es'⟩ := by
  unfold clockProcessor at h
  rcases hp : Processor.cycle p with ⟨e' | _, r, es'⟩
  · rw [hp] at h
    cases h
    exact ⟨es', rfl⟩
  · rw [hp] at h
    dsimp only at h
    rw [Processor.serveDma_eq] at h
    cases h

theorem Jams.clock (h : c.Jams opcode pc) : ∃ es,
    Console.clock c = ⟨.error (.processor (.jammed opcode pc)), c.aged 1, es⟩ := by
  have hread : Memory.read pc c.processor.memory = ⟨.ok opcode, c.processor.memory, []⟩ := by
    rw [← h.opcode_eq]
    exact Bus.read_of_still h.still c.bus
  obtain ⟨es, hexecute⟩ := Processor.execute_of_jams h.jams h.pc_eq hread
  have hcycle := Processor.cycle_of_error h.stall_eq h.pending_eq hexecute
  -- nothing is owed, so that the cycle leaves the processor as it was
  have haged : c.processor.withClock (c.processor.cycles + 1) 0 0 = (c.aged 1).processor := by
    simp only [Processor.withClock, Console.aged, h.stall_eq, h.pending_eq]
    rfl
  rw [haged] at hcycle
  exact ⟨_, clock_of_processor_error (clockProcessor_of_cycle_error hcycle)⟩

theorem Jams.runFrame (h : c.Jams opcode pc) : ∃ es,
    Console.runFrame c = ⟨.error (.processor (.jammed opcode pc)), c.aged 1, es⟩ := by
  obtain ⟨es, hclock⟩ := h.clock
  unfold Console.runFrame
  rw [if_pos h.powered]
  exact ⟨_, clockUntilFrame_of_error _ _ (bind_of_error hclock)⟩

theorem Jams.stepFrame (h : c.Jams opcode pc) : ∃ es,
    Console.stepFrame c = ⟨.error (.processor (.jammed opcode pc)), c.aged 1, es⟩ := by
  rw [stepFrame_of_powered h.powered]
  exact h.runFrame

/-! How a console comes to it. -/

/-- A run that fails goes on until the round that does. -/
theorem RunsTo.fault_of_error {m : Nat} {o : Outcome Fault Console Frame} {e : Fault}
    (h : RunsTo m c o) (hc : c.Stands x n) (hready : x.frameReady = false)
    (he : o.answer = .error e) :
    ∃ b y k es, GoesOn c b ∧ b.Stands y k ∧ clockAndTake b = ⟨.error e, o.state, es⟩ := by
  induction h generalizing x n with
  | fault hround =>
    cases he
    exact ⟨_, x, n, _, .refl, hc, hround⟩
  | frame hround => cases he
  | again hround _ ih =>
    -- a round that goes on has run its dots
    rcases clockAndTake_of_stands hc hready with
      ⟨e, d, es, hround', -⟩ | ⟨-, -, f, d, es, hround', -⟩ | ⟨-, -, -, d, es, hround', hd⟩
    · rw [hround'] at hround
      cases hround
    · rw [hround'] at hround
      cases hround
    · rw [hround'] at hround
      cases hround
      obtain ⟨b, y, k, es, hgoes, hb, hfault⟩ := ih hd rfl he
      exact ⟨b, y, k, es, .round hround' hgoes, hb, hfault⟩

/-- A clock is locked up by the cycle of its processor. -/
theorem jams_of_clock (h : c.Stands x n)
    (hclock : Console.clock c = ⟨.error (.processor (.jammed opcode pc)), d, es⟩)
    (hplace : pc < 0x2000 ∨ ¬pc < 0x4000) : c.Jams opcode pc ∧ d = c.aged 1 := by
  rcases hp : clockProcessor c.processor with ⟨e | _, p, es'⟩
  · rw [clock_of_processor_error hp] at hclock
    cases hclock
    obtain ⟨es'', hcycle⟩ := cycle_of_clockProcessor_error hp
    obtain ⟨hs, hn, hpc, hjams, m, es₁, hread, rfl⟩ := Processor.jams_of_cycle hcycle
    change Bus.read pc c.bus = _ at hread
    have hstill : Bus.Still pc := Bus.still_of_jams hplace (by rw [hread]) hjams
    -- where nothing is changed by the fetch, nothing is changed at all
    rw [Bus.read_of_still hstill] at hread
    simp only [Outcome.mk.injEq] at hread
    obtain ⟨hopcode, rfl, -⟩ := hread
    exact ⟨⟨h.powered, hs, hn, hpc, hstill, hopcode, hjams⟩, rfl⟩
  · obtain ⟨d', es'', hclock', -⟩ := clock_serves h hp
    rw [hclock'] at hclock
    cases hclock

/-- The round that fails is one whose processor is locked up. -/
theorem jams_of_runFrame (h : Reached c frames) (hp : c.powered = true)
    (hrun : Console.runFrame c = ⟨.error (.processor (.jammed opcode pc)), d, es⟩)
    (hplace : pc < 0x2000 ∨ ¬pc < 0x4000) :
    ∃ b, GoesOn c b ∧ b.Jams opcode pc ∧ d = b.aged 1 := by
  have hsound := (sound_of_reached h).1
  have hstands := hsound.stands hp
  obtain ⟨m, -, hruns⟩ := runsTo_runFrame hstands hsound.frameReady_eq
  rw [hrun] at hruns
  obtain ⟨b, y, k, es', hgoes, hb, hround⟩ :=
    hruns.fault_of_error hstands hsound.frameReady_eq rfl
  rcases error_of_bind hround with hclock | ⟨_, u, _, _, hclock, htake, -⟩
  · obtain ⟨hjams, hd⟩ := jams_of_clock hb hclock hplace
    exact ⟨b, hgoes, hjams, hd⟩
  -- the taking of a frame cannot fail
  · rcases clock_of_stands hb with ⟨u', es'', hclock', hu⟩ | ⟨e, u', es'', hclock', -⟩
    · rw [hclock'] at hclock
      cases hclock
      obtain ⟨d', htake', -⟩ := takeFrame_of_stands hu
      rw [htake'] at htake
      cases htake
    · rw [hclock'] at hclock
      cases hclock

/-! What comes after it. -/

/-- What runs for `n` frames make of a console, whether they succeed or not, with buttons pressed
and released between them. -/
inductive Later (c : Console) : Nat → Console → Prop
  | refl : Later c 0 c
  | runFrame {n : Nat} {d : Console} : Later c n d → Later c (n + 1) (Console.runFrame d).state
  | stepFrame {n : Nat} {d : Console} : Later c n d → Later c (n + 1) (Console.stepFrame d).state
  | press {n : Nat} {d : Console} (player : Player) (button : Button) :
      Later c n d → Later c n (d.press player button)
  | release {n : Nat} {d : Console} (player : Player) (button : Button) :
      Later c n d → Later c n (d.release player button)

/-- The console as it was but for its cycles and its controllers. -/
def Still (c : Console) (n : Nat) (d : Console) : Prop :=
  ∃ one two, d = (c.aged n).withControllers one two

theorem Still.aged (h : c.Still n d) : c.Still (n + 1) (d.aged 1) := by
  obtain ⟨one, two, rfl⟩ := h
  refine ⟨one, two, ?_⟩
  rw [← aged_aged c n 1]
  rfl

theorem Still.withControllers (h : c.Still n d) (one two : Controller) :
    c.Still n (d.withControllers one two) := by
  obtain ⟨one', two', rfl⟩ := h
  exact ⟨one, two, rfl⟩

theorem Still.jams (h : c.Still n d) (hc : c.Jams opcode pc) : d.Jams opcode pc := by
  obtain ⟨one, two, rfl⟩ := h
  exact (hc.aged n).withControllers one two

theorem still_of_later (hc : c.Jams opcode pc) (h : Later c n d) : c.Still n d := by
  -- a console that is still is before the same opcode, which makes the next run fail as well
  induction h with
  | refl => exact ⟨c.bus.one, c.bus.two, by rw [aged_zero]; rfl⟩
  | runFrame _ ih =>
    obtain ⟨es, hrun⟩ := (ih.jams hc).runFrame
    rw [hrun]
    exact ih.aged
  | stepFrame _ ih =>
    obtain ⟨es, hstep⟩ := (ih.jams hc).stepFrame
    rw [hstep]
    exact ih.aged
  | press player button _ ih => cases player <;> exact ih.withControllers _ _
  | release player button _ ih => cases player <;> exact ih.withControllers _ _

/-- Once a run has reported that the processor is locked up, outside the registers of the picture
unit, the opcode lies where it is reported, the clock that read it has moved nothing but the cycles,
and every later run reports the same: it adds one cycle, and between the runs only the controllers
change. -/
theorem final_of_jam (h : Reached c frames) (hp : c.powered = true)
    (hjam : Console.runFrame c = ⟨.error (.processor (.jammed opcode pc)), d, es⟩ ∨
      Console.stepFrame c = ⟨.error (.processor (.jammed opcode pc)), d, es⟩)
    (hplace : pc < 0x2000 ∨ ¬pc < 0x4000) :
    (∃ b, GoesOn c b ∧
      (∃ es', Console.clock b = ⟨.error (.processor (.jammed opcode pc)), d, es'⟩) ∧
      b.processor.registers.pc = pc ∧ (Bus.read pc b.bus).answer = .ok opcode ∧
      Instruction.Jams opcode ∧ d = b.aged 1) ∧
    ∀ n u, Later d n u → d.Still n u ∧
      (∃ es', Console.runFrame u =
        ⟨.error (.processor (.jammed opcode pc)), u.aged 1, es'⟩) ∧
      ∃ es', Console.stepFrame u =
        ⟨.error (.processor (.jammed opcode pc)), u.aged 1, es'⟩ := by
  -- with the power on, a step is a run
  have hrun : Console.runFrame c = ⟨.error (.processor (.jammed opcode pc)), d, es⟩ := by
    rw [stepFrame_of_powered hp] at hjam
    exact hjam.elim id id
  obtain ⟨b, hgoes, hb, rfl⟩ := jams_of_runFrame h hp hrun hplace
  refine ⟨⟨b, hgoes, hb.clock, hb.pc_eq, ?_, hb.jams, rfl⟩, ?_⟩
  · rw [Bus.read_of_still hb.still]
    exact hb.opcode_eq
  · intro n u hu
    have hstill := still_of_later (hb.aged 1) hu
    have hjams := hstill.jams (hb.aged 1)
    exact ⟨hstill, hjams.runFrame, hjams.stepFrame⟩

end Console

/-- At `0x8000` the cartridge locks the processor up, and its reset vector leads there. -/
structure Cartridge.Jams (k : Cartridge) : Prop where
  opcode : k.read 0x8000 = .ok 0x02
  resetLow : k.read 0xFFFC = .ok 0x00
  resetHigh : k.read 0xFFFD = .ok 0x80

def Cartridge.jammingProgram : Vector UInt8 0x4000 := .ofFn fun i =>
  if i.val = 0 then 0x02
  else if i.val = 0x3FFD then 0x80
  else 0

theorem Cartridge.exists_jams : ∃ image k, ofImage image = .ok k ∧ k.Jams := by
  have hread : ∀ addr : UInt16, 0x8000 ≤ addr.toNat →
      (plain jammingProgram (.replicate 0x2000 0)).read addr =
        .ok (if addr.toNat % 0x4000 = 0 then 0x02
          else if addr.toNat % 0x4000 = 0x3FFD then 0x80
          else 0) := by
    intro addr haddr
    rw [read_plain _ _ haddr, jammingProgram, Vector.getElem_ofFn]
  exact ⟨_, _, ofImage_plainImage jammingProgram (.replicate 0x2000 0), {
    opcode := hread _ (by decide)
    resetLow := hread _ (by decide)
    resetHigh := hread _ (by decide) }⟩

namespace Console

/-- The processor starts at the opcode, with nothing to pay. -/
theorem powerUp_of_jams {k : Cartridge} (hk : k.Jams) (hw : c.Wired) (hc : c.cartridge = some k) :
    ∃ d es, powerUp c = ⟨.ok (), d, es⟩ ∧ d.Jams 0x02 0x8000 := by
  have hbus := hw.bus_cartridge.trans hc
  obtain ⟨es, hreset⟩ := Processor.reset_eq (p := c.processor)
    (Bus.readCartridge_eq hbus hk.resetLow) (Bus.readCartridge_eq hbus hk.resetHigh)
  refine ⟨_, _, powerUp_of_reset (by rw [hc]; rfl) hreset, ?_⟩
  exact {
    powered := rfl
    stall_eq := rfl
    pending_eq := rfl
    pc_eq := show Processor.word 0x00 0x80 = 0x8000 by decide
    still := .inr (by decide)
    opcode_eq := Bus.readCartridge_eq hbus hk.opcode
    jams := by decide }

/-- Its first run reports this, and so do the two that follow, with a button pressed between. -/
theorem final_of_jam_of_jamming : ∃ c d u : Console, Reached c [] ∧
    (∃ es, Console.runFrame c = ⟨.error (.processor (.jammed 0x02 0x8000)), d, es⟩) ∧
    u = (((Console.runFrame d).state.press .one .a).stepFrame).state ∧
    u.processor.cycles = d.processor.cycles + 2 ∧ u.processor.registers = d.processor.registers ∧
    ∃ es, Console.runFrame u = ⟨.error (.processor (.jammed 0x02 0x8000)), u.aged 1, es⟩ := by
  obtain ⟨image, k, himage, hk⟩ := Cartridge.exists_jams
  have hreached : Reached (Console.insert image {}).state [] := Reached.new.serve (.insert image)
  have hwired := (sound_of_reached hreached).1.wired
  obtain ⟨c, es, hpower, hjams⟩ := powerUp_of_jams hk hwired (cartridge_insert himage)
  have hc := hreached.powerUp hpower
  obtain ⟨es', hrun⟩ := hjams.runFrame
  obtain ⟨-, hlater⟩ := final_of_jam hc hjams.powered (.inl hrun) (.inr (by decide))
  obtain ⟨⟨one, two, hu⟩, hagain, -⟩ :=
    hlater 2 _ ((Later.refl.runFrame.press .one .a).stepFrame)
  refine ⟨c, _, _, hc, ⟨es', hrun⟩, rfl, ?_, ?_, hagain⟩
  · rw [hu]
    rfl
  · rw [hu]
    rfl

end Console

end Famicom
