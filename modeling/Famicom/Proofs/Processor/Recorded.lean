import Famicom.Proofs.Processor.Stepping

/-! Records of the accesses that a processor makes. A processor works alike over two memories if one
is an image of the other, so that nothing changes when a record is kept. -/

namespace Famicom

/-- An access, and whether the memory has taken it. -/
inductive Access
  | read (addr : UInt16) (taken : Bool)
  | write (addr : UInt16) (v : UInt8) (taken : Bool)
deriving DecidableEq, Repr

/-- A memory with the accesses that have been made to it. -/
structure Recorded (M : Type) where
  memory : M
  accesses : List Access

/-- A map of memories that keeps their accesses. -/
structure Memory.Maps {M N ε : Type} [Memory M ε] [Memory N ε] (f : M → N) : Prop where
  read (addr : UInt16) (m : M) : Memory.read addr (f m) =
    ⟨(Memory.read addr m).answer, f (Memory.read addr m).state, (Memory.read addr m).events⟩
  write (addr : UInt16) (v : UInt8) (m : M) : Memory.write addr v (f m) =
    ⟨(Memory.write addr v m).answer, f (Memory.write addr v m).state,
      (Memory.write addr v m).events⟩

namespace Recorded

variable {M ε α : Type}

def note (r : Recorded M) (access : Bool → Access) (x : Action ε M α) :
    Outcome ε (Recorded M) α :=
  ⟨(x r.memory).answer, ⟨(x r.memory).state, r.accesses ++ [access (x r.memory).answer.isOk]⟩,
    (x r.memory).events⟩

instance [Memory M ε] : Memory (Recorded M) ε where
  read addr r := r.note (.read addr) (Memory.read addr)
  write addr v r := r.note (.write addr v) (Memory.write addr v)

theorem maps_memory [Memory M ε] : Memory.Maps (memory : Recorded M → M) where
  read _ _ := rfl
  write _ _ _ := rfl

end Recorded

/-- Operations that write to their operand, which may be anywhere. -/
def Behaviour.writesOperand : Behaviour → Bool
  | .store _ | .modify _ _ => true
  | .internal _ | .load _ | .branch _ | .push _ | .pull _ | .jump | .call | .ret
  | .returnFromInterrupt | .brk | .jam => false

namespace Processor

variable {M N ε : Type}

/-- The same processor over the image of its memory. -/
def map (f : M → N) (p : Processor M) : Processor N :=
  ⟨p.registers, p.cycles, p.pending, p.stall, f p.memory⟩

variable [Memory M ε] [Memory N ε]

/-- Operations over two memories that are composed alike, of changes of registers and single
accesses, and that write only to the addresses in `W`. -/
inductive Alike (W : UInt16 → Prop) : {α : Type} → Action (Fault ε) (Processor M) α →
    Action (Fault ε) (Processor N) α → Prop
  | pure {α : Type} (a : α) : Alike W (pure a) (pure a)
  | bind {α β : Type} {x : Action (Fault ε) (Processor M) α}
      {y : Action (Fault ε) (Processor N) α} {f : α → Action (Fault ε) (Processor M) β}
      {g : α → Action (Fault ε) (Processor N) β} :
      Alike W x y → (∀ a, Alike W (f a) (g a)) → Alike W (x >>= f) (y >>= g)
  | view {α : Type} (f : Registers → α) : Alike W (view f) (view f)
  | update (f : Registers → Registers) : Alike W (update f) (update f)
  | read (addr : UInt16) : Alike W (read addr) (read addr)
  | write {addr : UInt16} (v : UInt8) : W addr → Alike W (write addr v) (write addr v)
  | report (e : Event) : Alike W (.report e) (.report e)
  | jam (opcode : UInt8) (pc : UInt16) :
      Alike W (.fail (.jammed opcode pc) : Action (Fault ε) (Processor M) Nat)
        (.fail (.jammed opcode pc))

namespace Alike

variable {W : UInt16 → Prop}

theorem readWord (low high : UInt16) :
    Alike (M := M) (N := N) W (readWord low high) (readWord low high) :=
  (read _).bind fun _ => (read _).bind fun _ => pure _

theorem fetch : Alike (M := M) (N := N) W fetch fetch :=
  (view _).bind fun _ => (read _).bind fun _ => (update _).bind fun _ => pure _

theorem fetchWord : Alike (M := M) (N := N) W fetchWord fetchWord :=
  fetch.bind fun _ => fetch.bind fun _ => pure _

theorem pull : Alike (M := M) (N := N) W pull pull :=
  (update _).bind fun _ => (view _).bind fun _ => read _

theorem pullWord : Alike (M := M) (N := N) W pullWord pullWord :=
  pull.bind fun _ => pull.bind fun _ => pure _

theorem followVector (vector : UInt16) :
    Alike (M := M) (N := N) W (followVector vector) (followVector vector) :=
  (readWord _ _).bind fun _ => update _

theorem operand (mode : Mode) : Alike (M := M) (N := N) W (operand mode) (operand mode) := by
  cases mode with
  | implied => exact pure _
  | accumulator => exact pure _
  | immediate => exact (view _).bind fun _ => (update _).bind fun _ => pure _
  | zeroPage => exact fetch.bind fun _ => pure _
  | zeroPageX => exact fetch.bind fun _ => (view _).bind fun _ => pure _
  | zeroPageY => exact fetch.bind fun _ => (view _).bind fun _ => pure _
  | absolute => exact fetchWord.bind fun _ => pure _
  | absoluteX => exact fetchWord.bind fun _ => (view _).bind fun _ => pure _
  | absoluteY => exact fetchWord.bind fun _ => (view _).bind fun _ => pure _
  | indirect => exact fetchWord.bind fun _ => (readWord _ _).bind fun _ => pure _
  | indirectX =>
    exact fetch.bind fun _ => (view _).bind fun _ => (readWord _ _).bind fun _ => pure _
  | indirectY =>
    exact fetch.bind fun _ => (readWord _ _).bind fun _ => (view _).bind fun _ => pure _
  | relative => exact fetch.bind fun _ => (view _).bind fun _ => pure _

theorem readOperand (mode : Mode) (addr : UInt16) :
    Alike (M := M) (N := N) W (readOperand mode addr) (readOperand mode addr) := by
  unfold Processor.readOperand
  split
  · exact view _
  · exact read _

theorem writeOperand (mode : Mode) {addr : UInt16} (v : UInt8) (h : W addr) :
    Alike (M := M) (N := N) W (writeOperand mode addr v) (writeOperand mode addr v) := by
  unfold Processor.writeOperand
  split
  · exact update _
  · exact write v h

variable (hstack : ∀ sp, W (stackAddress sp))
include hstack

theorem push (v : UInt8) : Alike (M := M) (N := N) W (push v) (push v) :=
  (view _).bind fun _ => (write v (hstack _)).bind fun _ => update _

theorem pushWord (w : UInt16) : Alike (M := M) (N := N) W (pushWord w) (pushWord w) :=
  (push hstack _).bind fun _ => push hstack _

/-- An operation writes to the stack, and to its operand if it is one that does. -/
theorem perform (start : UInt16) (opcode : UInt8) (mode : Mode) (operand : Operand)
    (b : Behaviour) (hoperand : b.writesOperand = true → W operand.addr) :
    Alike (M := M) (N := N) W (perform start opcode mode operand b)
      (perform start opcode mode operand b) := by
  cases b with
  | internal f => exact (update _).bind fun _ => pure _
  | load f => exact (read _).bind fun _ => (update _).bind fun _ => pure _
  | store f =>
    exact (view _).bind fun _ => (update _).bind fun _ => (write _ (hoperand rfl)).bind fun _ =>
      pure _
  | modify change settle =>
    exact (readOperand _ _).bind fun _ => (view _).bind fun _ => (update _).bind fun _ =>
      (writeOperand _ _ (hoperand rfl)).bind fun _ => (update _).bind fun _ => pure _
  | branch taken =>
    refine (view _).bind fun _ => ?_
    split
    · exact (update _).bind fun _ => pure _
    · exact pure _
  | push value => exact (view _).bind fun _ => (push hstack _).bind fun _ => pure _
  | pull f => exact pull.bind fun _ => (update _).bind fun _ => pure _
  | jump => exact (update _).bind fun _ => pure _
  | call =>
    exact (view _).bind fun _ => (pushWord hstack _).bind fun _ => (update _).bind fun _ => pure _
  | ret => exact pullWord.bind fun _ => (update _).bind fun _ => pure _
  | returnFromInterrupt =>
    exact pull.bind fun _ => (update _).bind fun _ => pullWord.bind fun _ =>
      (update _).bind fun _ => pure _
  | brk =>
    exact (view _).bind fun _ => (pushWord hstack _).bind fun _ => (view _).bind fun _ =>
      (push hstack _).bind fun _ => (update _).bind fun _ => (followVector _).bind fun _ =>
      (view _).bind fun _ => (report _).bind fun _ => pure _
  | jam => exact (update _).bind fun _ => (report _).bind fun _ => jam _ _

end Alike

theorem alike_execute : Alike (M := M) (N := N) (fun _ => True) execute execute :=
  (Alike.view _).bind fun _ => Alike.fetch.bind fun _ => (Alike.operand _).bind fun _ =>
    (Alike.perform (fun _ => trivial) _ _ _ _ _ fun _ => trivial).bind fun _ => Alike.pure _

variable {α : Type} {W : UInt16 → Prop}

omit [Memory M ε] [Memory N ε] in
theorem onMemory_map {f : M → N} {x : Action ε M α} {y : Action ε N α}
    (h : ∀ m, y (f m) = ⟨(x m).answer, f (x m).state, (x m).events⟩) (p : Processor M) :
    onMemory y (p.map f) = ⟨(onMemory x p).answer, (onMemory x p).state.map f,
      (onMemory x p).events⟩ := by
  have hy := h p.memory
  rcases hx : x p.memory with ⟨e | a, m, es⟩
  · rw [hx] at hy
    rw [onMemory_of_error hx, onMemory_of_error (p := p.map f) hy]
    rfl
  · rw [hx] at hy
    rw [onMemory_of_ok hx, onMemory_of_ok (p := p.map f) hy]
    rfl

/-- What is done over the image of a memory is the image of what is done over the memory. -/
theorem Alike.run_map {f : M → N} (hf : Memory.Maps f) {x : Action (Fault ε) (Processor M) α}
    {y : Action (Fault ε) (Processor N) α} (h : Alike W x y) (p : Processor M) :
    y (p.map f) = ⟨(x p).answer, (x p).state.map f, (x p).events⟩ := by
  induction h generalizing p with
  | pure a => rfl
  | view f => rfl
  | update f => rfl
  | report e => rfl
  | jam opcode pc => rfl
  | read addr => exact onMemory_map (hf.read addr) p
  | @write addr v _ => exact onMemory_map (hf.write addr v) p
  | bind _ _ ihx ihf =>
    -- both sides answer the same, so that they go on alike
    have hx := ihx p
    rename_i x y f g _ _
    rcases h : x p with ⟨e | a, q, es⟩
    · rw [h] at hx
      rw [Action.bind_of_error h, Action.bind_of_error hx]
    · rw [h] at hx
      rw [Action.bind_of_ok h, Action.bind_of_ok hx, ihf a q]

/-- What reads keep, and writes to the addresses in `W`, the operation keeps. -/
theorem Alike.keeps {J : M → Prop}
    (hr : ∀ addr, Action.Keeps J (fun _ => True) (Memory.read addr : Action ε M UInt8))
    (hw : ∀ addr v, W addr → Action.Keeps J (fun _ => True) (Memory.write addr v : Action ε M Unit))
    {x : Action (Fault ε) (Processor M) α} {y : Action (Fault ε) (Processor N) α}
    (h : Alike W x y) : Action.Keeps (fun p => J p.memory) (fun _ => True) x := by
  induction h with
  | pure a => exact Action.keeps_pure a
  | view f => exact Action.keeps_view _
  | update f => exact Action.keeps_update fun _ hp => hp
  | report e => exact Action.keeps_report e
  | jam opcode pc => exact Action.keeps_fail trivial
  | read addr => exact (keeps_onMemory (hr addr)).mono fun _ _ => trivial
  | @write addr v ha => exact (keeps_onMemory (hw addr v ha)).mono fun _ _ => trivial
  | bind _ _ ihx ihf => exact Action.keeps_bind ihx ihf

theorem cycle_map {f : M → N} (hf : Memory.Maps f) (p : Processor M) :
    cycle (p.map f) = ⟨(cycle p).answer, (cycle p).state.map f, (cycle p).events⟩ := by
  by_cases hs : 0 < p.stall
  · rw [cycle_of_stall p hs, cycle_of_stall (p.map f) hs]
    rfl
  have hstall := eq_zero_of_not_pos hs
  by_cases hn : 0 < p.pending
  · rw [cycle_of_pending p hstall hn, cycle_of_pending (p.map f) hstall hn]
    rfl
  have hpending := eq_zero_of_not_pos hn
  have hexecute := alike_execute.run_map hf p
  rcases hx : execute p with ⟨e | cost, q, es⟩
  · rw [hx] at hexecute
    rw [cycle_of_error hstall hpending hx, cycle_of_error (p := p.map f) hstall hpending hexecute]
    rfl
  · rw [hx] at hexecute
    rw [cycle_of_ok hstall hpending hx, cycle_of_ok (p := p.map f) hstall hpending hexecute]
    rfl

/-- The processor over its memory with an empty record. -/
def recording (p : Processor M) : Processor (Recorded M) := p.map fun m => ⟨m, []⟩

/-- The accesses that the processor makes in its next cycle. -/
def accesses (p : Processor M) : List Access := (cycle p.recording).state.memory.accesses

/-- The cycle that is recorded is the processor's own. -/
theorem cycle_recording (p : Processor M) : cycle p =
    ⟨(cycle p.recording).answer, (cycle p.recording).state.map Recorded.memory,
      (cycle p.recording).events⟩ :=
  cycle_map Recorded.maps_memory p.recording

/-- As long as cycles are owed, no instruction is executed. -/
theorem accesses_of_owed {p : Processor M} (h : 0 < p.stall ∨ 0 < p.pending) :
    p.accesses = [] := by
  unfold accesses
  by_cases hs : 0 < p.stall
  · rw [cycle_of_stall p.recording hs]
    rfl
  · rw [cycle_of_pending p.recording (eq_zero_of_not_pos hs) (h.resolve_left hs)]
    rfl

/-- The first access of the next cycle is to the opcode of an instruction. -/
def Starts (p : Processor M) : Prop :=
  ∃ taken rest, p.accesses = .read p.registers.pc taken :: rest

/-- The first access stays the first. -/
theorem keeps_first (a : Access) {x : Action (Fault ε) (Processor (Recorded M)) α}
    (h : Alike (fun _ => True) x x) :
    Action.Keeps (fun p => ∃ rest, p.memory.accesses = a :: rest) (fun _ => True) x := by
  apply h.keeps (J := fun r => ∃ rest, r.accesses = a :: rest)
  · rintro addr r ⟨rest, hrest⟩
    exact ⟨⟨_, congrArg (· ++ _) hrest⟩, fun _ _ => trivial⟩
  · rintro addr v - r ⟨rest, hrest⟩
    exact ⟨⟨_, congrArg (· ++ _) hrest⟩, fun _ _ => trivial⟩

theorem first_of_execute (p : Processor M) : ∃ taken rest,
    (execute p.recording).state.memory.accesses = .read p.registers.pc taken :: rest := by
  -- the read of the opcode is recorded whether it is taken or not
  have hread : ∃ taken, (read p.registers.pc p.recording :
      Outcome (Fault ε) (Processor (Recorded M)) UInt8).state.memory.accesses =
        [.read p.registers.pc taken] := by
    unfold read
    rcases h : (Memory.read p.registers.pc p.recording.memory :
      Outcome ε (Recorded M) UInt8) with ⟨e | v, r, es⟩
    · rw [onMemory_of_error h]
      exact ⟨_, (congrArg (·.state.accesses) h).symm⟩
    · rw [onMemory_of_ok h]
      exact ⟨_, (congrArg (·.state.accesses) h).symm⟩
  obtain ⟨taken, hread⟩ := hread
  have hregisters : p.recording.registers = p.registers := rfl
  unfold execute fetch
  rw [view_registers, bind_assoc, view_registers, bind_assoc, hregisters]
  rcases h : (read p.registers.pc p.recording :
      Outcome (Fault ε) (Processor (Recorded M)) UInt8) with ⟨e | opcode, q, es⟩
  · rw [h] at hread
    rw [Action.bind_of_error h]
    exact ⟨taken, [], hread⟩
  · rw [h] at hread
    rw [Action.bind_of_ok h]
    refine ⟨taken, (keeps_first _ ?_ q ⟨[], hread⟩).1⟩
    exact ((Alike.update _).bind fun _ => Alike.pure _).bind fun _ => (Alike.operand _).bind
      fun _ => (Alike.perform (fun _ => trivial) _ _ _ _ _ fun _ => trivial).bind
        fun _ => Alike.pure _

theorem starts_iff {p : Processor M} : p.Starts ↔ p.stall = 0 ∧ p.pending = 0 := by
  obtain ⟨taken, rest, hfirst⟩ := first_of_execute p
  constructor
  · rintro ⟨taken, rest, haccesses⟩
    by_contra hnot
    have howed : 0 < p.owed := Nat.pos_of_ne_zero fun h => hnot (owed_eq_zero_iff.mp h).symm
    rw [accesses_of_owed (owed_pos_iff.mp howed)] at haccesses
    cases haccesses
  · rintro ⟨hs, hn⟩
    refine ⟨taken, rest, ?_⟩
    unfold accesses
    rcases hx : execute p.recording with ⟨e | cost, q, es⟩
    · rw [hx] at hfirst
      rw [cycle_of_error (p := p.recording) hs hn hx]
      exact hfirst
    · rw [hx] at hfirst
      rw [cycle_of_ok (p := p.recording) hs hn hx]
      exact hfirst

end Processor

end Famicom
