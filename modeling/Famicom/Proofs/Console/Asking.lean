import Famicom.Proofs.Bus.Refusal
import Famicom.Proofs.Console.Clock
import Famicom.Proofs.Processor.Recorded

/-! An instruction asks for a transfer of sprites with its last access, so that none asks and then
fails. The processor's part of a clock serves what its cycle has asked for. -/

namespace Famicom

open Famicom.Action

/-- A write that sets off a transfer. -/
def Access.isTransfer : Access → Bool
  | .write addr _ taken => addr == Bus.oamDmaAddress && taken
  | .read _ _ => false

def transfers (l : List Access) : Nat := l.countP Access.isTransfer

theorem transfers_concat (l : List Access) (a : Access) :
    transfers (l ++ [a]) = transfers l + if a.isTransfer then 1 else 0 := by
  unfold transfers
  rw [List.countP_append, List.countP_singleton]

namespace Bus

variable {ε α : Type} {addr : UInt16} {b : Bus}

theorem dmaPending_onPicture (x : Action ε Picture α) (b : Bus) :
    (onPicture x b).state.dmaPending = b.dmaPending := by
  obtain ⟨ram, picture, one, two, dmaPending, slot⟩ := b
  rfl

theorem dmaPending_onController (player : Player) (x : Action ε Controller α) (b : Bus) :
    (onController player x b).state.dmaPending = b.dmaPending := by
  obtain ⟨ram, picture, one, two, dmaPending, slot⟩ := b
  cases player <;> rfl

theorem dmaPending_read (addr : UInt16) (b : Bus) :
    (read addr b).state.dmaPending = b.dmaPending := by
  unfold read
  simp only [Action.ite_apply, apply_ite Outcome.state, apply_ite dmaPending,
    dmaPending_onPicture, dmaPending_onController]
  simp

/-- Only a write to its own address asks for a transfer. -/
theorem dmaPending_write (h : addr ≠ oamDmaAddress) (v : UInt8) (b : Bus) :
    (write addr v b).state.dmaPending = b.dmaPending := by
  have hboth : ((do onController .one (Controller.write v); onController .two (Controller.write v) :
      Action Fault Bus Unit) b).state.dmaPending = b.dmaPending := by
    obtain ⟨ram, picture, one, two, dmaPending, slot⟩ := b
    rfl
  unfold write
  simp only [Action.ite_apply, apply_ite Outcome.state, apply_ite dmaPending, if_neg h,
    view_bind, dmaPending_onPicture, hboth]
  simp

theorem dmaPending_oamDma {page : UInt8} {t : Bus} {es : List Event}
    (h : oamDma page b = ⟨.ok (), t, es⟩) : t.dmaPending = true := by
  obtain ⟨bytes, u, es₁, es₂, -, hrest, -⟩ := ok_of_bind h
  obtain ⟨ram, picture, one, two, dmaPending, slot⟩ := u
  cases hrest
  rfl

end Bus

namespace Recorded

variable {r : Recorded Bus} {addr : UInt16}

/-- No transfer has been asked for. -/
structure Idle (r : Recorded Bus) : Prop where
  dmaPending_eq : r.memory.dmaPending = false
  transfers_eq : transfers r.accesses = 0

/-- One transfer has been asked for, and it is waiting for its stall. -/
structure Asked (r : Recorded Bus) : Prop where
  dmaPending_eq : r.memory.dmaPending = true
  transfers_eq : transfers r.accesses = 1

theorem keeps_read (addr : UInt16) :
    Keeps Idle (fun _ => True) (Memory.read addr : Action Bus.Fault (Recorded Bus) UInt8) := by
  rintro r ⟨hpending, hnone⟩
  refine ⟨⟨(Bus.dmaPending_read addr r.memory).trans hpending, ?_⟩, fun e he => trivial⟩
  exact (transfers_concat _ _).trans hnone

theorem keeps_write (addr : UInt16) (v : UInt8) (h : addr ≠ Bus.oamDmaAddress) :
    Keeps Idle (fun _ => True) (Memory.write addr v : Action Bus.Fault (Recorded Bus) Unit) := by
  rintro r ⟨hpending, hnone⟩
  refine ⟨⟨(Bus.dmaPending_write h v r.memory).trans hpending, ?_⟩, fun e he => trivial⟩
  refine (transfers_concat _ _).trans ?_
  rw [hnone, Access.isTransfer, beq_false_of_ne h]
  rfl

theorem write_eq_of_error {v : UInt8} {e : Bus.Fault} {m : Bus} {es : List Event}
    (h : Bus.write addr v r.memory = ⟨.error e, m, es⟩) : (Memory.write addr v r :
      Outcome Bus.Fault (Recorded Bus) Unit) =
        ⟨.error e, ⟨m, r.accesses ++ [.write addr v false]⟩, es⟩ := by
  change note r _ (Bus.write addr v) = _
  rw [note, h]
  rfl

theorem write_eq_of_ok {v : UInt8} {m : Bus} {es : List Event}
    (h : Bus.write addr v r.memory = ⟨.ok (), m, es⟩) : (Memory.write addr v r :
      Outcome Bus.Fault (Recorded Bus) Unit) =
        ⟨.ok (), ⟨m, r.accesses ++ [.write addr v true]⟩, es⟩ := by
  change note r _ (Bus.write addr v) = _
  rw [note, h]
  rfl

/-- A write asks for nothing, or it is taken and asks for a transfer. -/
theorem write_of_idle (hr : r.Idle) (addr : UInt16) (v : UInt8) :
    (Memory.write addr v r).state.Idle ∨
      (Memory.write addr v r).answer.isOk ∧ (Memory.write addr v r).state.Asked := by
  by_cases h : addr = Bus.oamDmaAddress
  · subst h
    obtain ⟨hpending, hnone⟩ := hr
    have hrefuses := Bus.refuses_write Bus.oamDmaAddress v
    rcases hw : Bus.write Bus.oamDmaAddress v r.memory with ⟨e | _, m, es⟩
    -- a write that is not taken leaves the bus as it was
    · have hm : m = r.memory := by
        have hstate := state_of_refuses (Bus.refuses_write _ v) (s := r.memory) (e := e) (by rw [hw])
        rwa [hw] at hstate
      left
      rw [write_eq_of_error hw]
      exact ⟨hm ▸ hpending, (transfers_concat _ _).trans hnone⟩
    · right
      rw [write_eq_of_ok hw]
      refine ⟨rfl, Bus.dmaPending_oamDma hw, (transfers_concat _ _).trans ?_⟩
      rw [hnone]
      rfl
  · exact Or.inl (keeps_write addr v h r hr).1

end Recorded

namespace Processor

variable {α β : Type} {p q : Processor Bus}

/-- An operation asks for at most one transfer, and if it asks for one then it answers. -/
def Asks (x : Action (Fault Bus.Fault) (Processor (Recorded Bus)) α) : Prop :=
  ∀ p, p.memory.Idle → (x p).state.memory.Idle ∨
    (x p).answer.isOk ∧ (x p).state.memory.Asked

/-- Operations that never ask for a transfer. -/
abbrev Spares (x : Action (Fault Bus.Fault) (Processor (Recorded Bus)) α) : Prop :=
  Keeps (fun p => p.memory.Idle) (fun _ => True) x

theorem spares_of_alike {x : Action (Fault Bus.Fault) (Processor (Recorded Bus)) α}
    (h : Alike (· ≠ Bus.oamDmaAddress) x x) : Spares x :=
  h.keeps Recorded.keeps_read Recorded.keeps_write

variable {x : Action (Fault Bus.Fault) (Processor (Recorded Bus)) α}
  {f : α → Action (Fault Bus.Fault) (Processor (Recorded Bus)) β}

theorem asks_of_spares (h : Spares x) : Asks x := fun p hp => Or.inl (h p hp).1

theorem asks_bind_of_spares (hx : Spares x) (hf : ∀ a, Asks (f a)) : Asks (x >>= f) := by
  intro p hp
  have hidle := (hx p hp).1
  rcases h : x p with ⟨e | a, q, es⟩
  · rw [h] at hidle
    rw [bind_of_error h]
    exact Or.inl hidle
  · rw [h] at hidle
    rw [bind_of_ok h]
    exact hf a q hidle

/-- What comes after the transfer has been asked for must not fail, nor touch the memory. -/
theorem asks_bind (hx : Asks x)
    (hf : ∀ a p, ∃ b q es, f a p = ⟨.ok b, q, es⟩ ∧ q.memory = p.memory) : Asks (x >>= f) := by
  intro p hp
  have hasks := hx p hp
  rcases h : x p with ⟨e | a, q, es⟩
  · rw [h] at hasks
    rw [bind_of_error h]
    exact hasks
  · rw [h] at hasks
    obtain ⟨b, r, es', hr, hmemory⟩ := hf a q
    rw [bind_of_ok h, hr]
    dsimp only at hasks ⊢
    rw [hmemory]
    exact hasks.imp_right fun hasked => ⟨rfl, hasked.2⟩

theorem asks_write (addr : UInt16) (v : UInt8) :
    Asks (write addr v : Action (Fault Bus.Fault) (Processor (Recorded Bus)) Unit) := by
  intro p hp
  have hwrite := Recorded.write_of_idle hp addr v
  rcases h : (Memory.write addr v p.memory : Outcome Bus.Fault (Recorded Bus) Unit) with
    ⟨e | a, m, es⟩
  · rw [h] at hwrite
    rw [write, onMemory_of_error h]
    exact hwrite
  · rw [h] at hwrite
    rw [write, onMemory_of_ok h]
    exact hwrite

theorem stackAddress_ne (sp : UInt8) : stackAddress sp ≠ Bus.oamDmaAddress := by
  intro h
  have hlt := stackAddress_lt sp
  rw [h] at hlt
  exact absurd hlt (by decide)

/-- The write to its operand is the last access of an operation, and the only one that may ask. -/
theorem asks_perform (start : UInt16) (opcode : UInt8) (mode : Mode) (operand : Operand)
    (b : Behaviour) : Asks (perform start opcode mode operand b) := by
  by_cases hb : b.writesOperand = true
  · cases b with
    | store f =>
      refine asks_bind_of_spares (spares_of_alike (.view _)) fun _ => ?_
      refine asks_bind_of_spares (spares_of_alike (.update _)) fun _ => ?_
      -- after the write only the cost is answered
      exact asks_bind (asks_write _ _) fun _ p => ⟨_, p, _, rfl, rfl⟩
    | modify change settle =>
      refine asks_bind_of_spares (spares_of_alike (.readOperand _ _)) fun _ => ?_
      refine asks_bind_of_spares (spares_of_alike (.view _)) fun _ => ?_
      refine asks_bind_of_spares (spares_of_alike (.update _)) fun _ => ?_
      have hwrite : ∀ v, Asks (writeOperand mode operand.addr v) := by
        intro v
        unfold writeOperand
        split
        -- the accumulator is not in the memory
        · exact asks_of_spares (spares_of_alike (.update _))
        · exact asks_write _ _
      exact asks_bind (hwrite _) fun _ p => ⟨_, _, _, rfl, rfl⟩
    | _ => cases hb
  -- what writes to the stack alone does not reach the address of the transfers
  · exact asks_of_spares (spares_of_alike
      (.perform stackAddress_ne _ _ _ _ _ fun h => absurd h hb))

theorem asks_execute : Asks execute := by
  refine asks_bind_of_spares (spares_of_alike (.view _)) fun _ => ?_
  refine asks_bind_of_spares (spares_of_alike .fetch) fun _ => ?_
  refine asks_bind_of_spares (spares_of_alike (.operand _)) fun _ => ?_
  exact asks_bind (asks_perform _ _ _ _ _) fun _ p => ⟨_, p, _, rfl, rfl⟩

theorem asks_cycle : Asks cycle := by
  intro p hp
  by_cases hs : 0 < p.stall
  · rw [cycle_of_stall p hs]
    exact Or.inl hp
  by_cases hn : 0 < p.pending
  · rw [cycle_of_pending p (eq_zero_of_not_pos hs) hn]
    exact Or.inl hp
  -- at a boundary a cycle does to the memory what the instruction does
  have hexecute := asks_execute p hp
  rcases hx : execute p with ⟨e | cost, q, es⟩
  · rw [hx] at hexecute
    rw [cycle_of_error (eq_zero_of_not_pos hs) (eq_zero_of_not_pos hn) hx]
    exact hexecute
  · rw [hx] at hexecute
    rw [cycle_of_ok (eq_zero_of_not_pos hs) (eq_zero_of_not_pos hn) hx]
    exact hexecute.imp_right fun hasked => ⟨rfl, hasked.2⟩

/-- Between two clocks no transfer waits, and then a cycle asks for one exactly if it makes the
write that does; a cycle that fails does not make it. -/
theorem dmaPending_cycle (h : p.memory.dmaPending = false) :
    (cycle p).state.memory.dmaPending = false ∧ transfers p.accesses = 0 ∨
      (cycle p).answer.isOk ∧ (cycle p).state.memory.dmaPending = true ∧
        transfers p.accesses = 1 := by
  have hasks := asks_cycle p.recording ⟨h, rfl⟩
  rw [cycle_recording p]
  exact hasks.imp (fun hidle => ⟨hidle.dmaPending_eq, hidle.transfers_eq⟩)
    fun hasked => ⟨hasked.1, hasked.2.dmaPending_eq, hasked.2.transfers_eq⟩

theorem clock_of_cycle {es : List Event} (h : cycle p = ⟨.ok (), q, es⟩) :
    q.cycles = p.cycles + 1 ∧ q.stall.toNat = p.stall.toNat - 1 := by
  by_cases hs : 0 < p.stall
  · rw [cycle_of_stall p hs] at h
    cases h
    exact ⟨rfl, toNat_pred hs⟩
  have hstall : p.stall = 0 := eq_zero_of_not_pos hs
  rw [hstall]
  by_cases hn : 0 < p.pending
  · rw [cycle_of_pending p hstall hn] at h
    cases h
    exact ⟨rfl, rfl⟩
  have hpending : p.pending = 0 := eq_zero_of_not_pos hn
  rcases hx : execute p with ⟨e | cost, r, es'⟩
  · rw [cycle_of_error hstall hpending hx] at h
    cases h
  · rw [cycle_of_ok hstall hpending hx] at h
    cases h
    exact ⟨rfl, rfl⟩

theorem serveDma_eq (p : Processor Bus) : Console.serveDma p = ⟨.ok (), { p with
    stall := if p.memory.dmaPending then p.transfer.stall else p.stall
    memory := { p.memory with dmaPending := false } }, []⟩ := by
  have htake : (onMemory Bus.takeDma : Action (Fault Bus.Fault) (Processor Bus) Bool) p =
      ⟨.ok p.memory.dmaPending, { p with memory := { p.memory with dmaPending := false } }, []⟩ :=
    onMemory_of_ok rfl
  unfold Console.serveDma
  rw [bind_of_ok htake, Action.ite_apply]
  cases p.memory.dmaPending <;> rfl

theorem clockProcessor_of_error (h : p.memory.dmaPending = false) {e : Fault Bus.Fault}
    {es : List Event} (hc : Console.clockProcessor p = ⟨.error e, q, es⟩) :
    q.memory.dmaPending = false ∧ transfers p.accesses = 0 := by
  have hcycle := dmaPending_cycle h
  unfold Console.clockProcessor at hc
  rcases hp : cycle p with ⟨e | _, r, es'⟩
  · rw [hp] at hc hcycle
    cases hc
    -- a cycle that fails has not asked
    exact hcycle.resolve_right fun hasked => by cases hasked.1
  · rw [hp] at hc
    dsimp only at hc
    rw [serveDma_eq] at hc
    cases hc

/-- A clock that succeeds serves the transfer that its cycle has asked for. -/
theorem clockProcessor_of_ok (h : p.memory.dmaPending = false) {es : List Event}
    (hc : Console.clockProcessor p = ⟨.ok (), q, es⟩) :
    q.memory.dmaPending = false ∧ q.cycles = p.cycles + 1 ∧ transfers p.accesses ≤ 1 ∧
      q.stall.toNat = p.stall.toNat - 1 +
        transfers p.accesses * if q.cycles.toNat % 2 = 0 then 513 else 514 := by
  have hcycle := dmaPending_cycle h
  unfold Console.clockProcessor at hc
  rcases hp : cycle p with ⟨e | _, r, es'⟩
  · rw [hp] at hc
    cases hc
  · obtain ⟨hcycles, hstall⟩ := clock_of_cycle hp
    rw [hp] at hc hcycle
    dsimp only at hc hcycle
    rw [serveDma_eq] at hc
    cases hc
    refine ⟨rfl, hcycles, ?_⟩
    dsimp only
    rcases hcycle with ⟨hpending, hnone⟩ | ⟨-, hpending, hone⟩
    · rw [hpending, hnone, Nat.zero_mul]
      exact ⟨Nat.zero_le 1, hstall⟩
    -- what asks for a transfer is an instruction, and none is executed in a stall
    · have hidle : p.stall = 0 := by
        refine eq_zero_of_not_pos fun hs => ?_
        rw [accesses_of_owed (Or.inl hs)] at hone
        cases hone
      have hnone : r.stall.toNat = 0 := by rw [hstall, hidle]; rfl
      rw [hpending, hone, if_pos rfl, toNat_transfer, hnone, hidle]
      exact ⟨le_refl 1, by split <;> rfl⟩

/-- A cycle that only moves the clock asks for no transfer. -/
theorem clockProcessor_of_withClock (h : p.memory.dmaPending = false) {c : UInt64}
    {n s : UInt32} {es : List Event} (hc : cycle p = ⟨.ok (), p.withClock c n s, es⟩) :
    ∃ es', Console.clockProcessor p = ⟨.ok (), p.withClock c n s, es'⟩ := by
  unfold Console.clockProcessor
  rw [hc]
  dsimp only
  rw [serveDma_eq]
  obtain ⟨registers, cycles, pending, stall, ⟨ram, picture, one, two, dmaPending, slot⟩⟩ := p
  cases h
  exact ⟨_, rfl⟩

theorem clockProcessor_of_stall (h : p.memory.dmaPending = false) (hs : 0 < p.stall) :
    ∃ es, Console.clockProcessor p =
      ⟨.ok (), p.withClock (p.cycles + 1) p.pending (p.stall - 1), es⟩ :=
  clockProcessor_of_withClock h (cycle_of_stall p hs)

end Processor

end Famicom
