import Famicom.Processor.Clock
import Famicom.Proofs.Action

/-! An instruction is composed of changes of registers and single accesses. What
every access keeps is therefore kept by every instruction, and no instruction
sees or moves the clock. -/

namespace Famicom

/-- A behaviour that locks the processor up. -/
def Behaviour.isJam : Behaviour → Bool
  | .jam => true
  | _ => false

namespace Processor

variable {M ε α β : Type} [Memory M ε]

omit [Memory M ε] in
theorem onMemory_of_ok {x : Action ε M α} {p : Processor M} {a : α} {m : M} {es : List Event}
    (h : x p.memory = ⟨.ok a, m, es⟩) :
    (onMemory x : Action (Fault ε) (Processor M) α) p = ⟨.ok a, { p with memory := m }, es⟩ := by
  cases p
  dsimp only [onMemory] at h ⊢
  rw [h]

omit [Memory M ε] in
theorem onMemory_of_error {x : Action ε M α} {p : Processor M} {e : ε} {m : M} {es : List Event}
    (h : x p.memory = ⟨.error e, m, es⟩) :
    (onMemory x : Action (Fault ε) (Processor M) α) p =
      ⟨.error (.memory e), { p with memory := m }, es⟩ := by
  cases p
  dsimp only [onMemory] at h ⊢
  rw [h]

omit [Memory M ε] in
theorem view_registers (f : Registers → α) (g : α → Action (Fault ε) (Processor M) β)
    (p : Processor M) : (view f >>= g) p = g (f p.registers) p := rfl

omit [Memory M ε] in
theorem update_registers (f : Registers → Registers)
    (g : Unit → Action (Fault ε) (Processor M) β) (p : Processor M) :
    (update f >>= g) p = g () { p with registers := f p.registers } := rfl

/-- The stack has a page of its own. -/
theorem toNat_stackAddress_lt (sp : UInt8) : (stackAddress sp).toNat < 0x200 := by
  have hlt := sp.toNat_lt
  unfold stackAddress
  rw [UInt16.toNat_or, UInt8.toNat_toUInt16]
  exact Nat.or_lt_two_pow (n := 9) (by decide) (by omega)

/-- Operations that consist of changes of registers and single accesses. -/
inductive Accesses : {α : Type} → Action (Fault ε) (Processor M) α → Prop
  | pure {α : Type} (a : α) : Accesses (pure a)
  | bind {α β : Type} {x : Action (Fault ε) (Processor M) α}
      {f : α → Action (Fault ε) (Processor M) β} :
      Accesses x → (∀ a, Accesses (f a)) → Accesses (x >>= f)
  | view {α : Type} (f : Registers → α) : Accesses (view f)
  | update (f : Registers → Registers) : Accesses (update f)
  | read (addr : UInt16) : Accesses (read addr)
  | write (addr : UInt16) (v : UInt8) : Accesses (write addr v)
  | report (e : Event) : Accesses (.report e)

/-- Operations composed of changes of registers and single accesses. -/
inductive Composed : {α : Type} → Action (Fault ε) (Processor M) α → Prop
  | pure {α : Type} (a : α) : Composed (pure a)
  | bind {α β : Type} {x : Action (Fault ε) (Processor M) α}
      {f : α → Action (Fault ε) (Processor M) β} :
      Composed x → (∀ a, Composed (f a)) → Composed (x >>= f)
  | view {α : Type} (f : Registers → α) : Composed (view f)
  | update (f : Registers → Registers) : Composed (update f)
  | read (addr : UInt16) : Composed (read addr)
  | write (addr : UInt16) (v : UInt8) : Composed (write addr v)
  | report (e : Event) : Composed (.report e)
  | jam (opcode : UInt8) (pc : UInt16) :
      Composed (.fail (.jammed opcode pc) : Action (Fault ε) (Processor M) Nat)

namespace Accesses

theorem ite {p : Prop} [Decidable p] {x y : Action (Fault ε) (Processor M) α}
    (hx : Accesses x) (hy : Accesses y) : Accesses (if p then x else y) := by
  split
  · exact hx
  · exact hy

theorem readWord (low high : UInt16) :
    Accesses (readWord low high : Action (Fault ε) (Processor M) UInt16) :=
  (read _).bind fun _ => (read _).bind fun _ => pure _

theorem fetch : Accesses (fetch : Action (Fault ε) (Processor M) UInt8) :=
  (view _).bind fun _ => (read _).bind fun _ => (update _).bind fun _ => pure _

theorem fetchWord : Accesses (fetchWord : Action (Fault ε) (Processor M) UInt16) :=
  fetch.bind fun _ => fetch.bind fun _ => pure _

theorem push (v : UInt8) : Accesses (push v : Action (Fault ε) (Processor M) Unit) :=
  (view _).bind fun _ => (write _ _).bind fun _ => update _

theorem pull : Accesses (pull : Action (Fault ε) (Processor M) UInt8) :=
  (update _).bind fun _ => (view _).bind fun _ => read _

theorem pushWord (w : UInt16) : Accesses (pushWord w : Action (Fault ε) (Processor M) Unit) :=
  (push _).bind fun _ => push _

theorem pullWord : Accesses (pullWord : Action (Fault ε) (Processor M) UInt16) :=
  pull.bind fun _ => pull.bind fun _ => pure _

theorem followVector (vector : UInt16) :
    Accesses (followVector vector : Action (Fault ε) (Processor M) Unit) :=
  (readWord _ _).bind fun _ => update _

theorem operand (mode : Mode) : Accesses (operand mode : Action (Fault ε) (Processor M) Operand) := by
  cases mode with
  | implied => exact pure _
  | accumulator => exact pure _
  | immediate => exact (view _).bind fun _ => (update _).bind fun _ => pure _
  | zeroPage => exact fetch.bind fun _ => pure _
  | zeroPageX => exact fetch.bind fun _ => (view _).bind fun _ => pure _
  | zeroPageY => exact fetch.bind fun _ => (view _).bind fun _ => pure _
  | absolute => exact fetchWord.bind fun _ => pure _
  | absoluteX => exact fetchWord.bind fun _ => (view _).bind fun _ => pure _
  | absoluteY => exact fetchWord.bind fun _ => (view _).bind fun _ => pure _
  | indirect => exact fetchWord.bind fun _ => (readWord _ _).bind fun _ => pure _
  | indirectX =>
    exact fetch.bind fun _ => (view _).bind fun _ => (readWord _ _).bind fun _ => pure _
  | indirectY =>
    exact fetch.bind fun _ => (readWord _ _).bind fun _ => (view _).bind fun _ => pure _
  | relative => exact fetch.bind fun _ => (view _).bind fun _ => pure _

theorem readOperand (mode : Mode) (addr : UInt16) :
    Accesses (readOperand mode addr : Action (Fault ε) (Processor M) UInt8) :=
  ite (view _) (read _)

theorem writeOperand (mode : Mode) (addr : UInt16) (v : UInt8) :
    Accesses (writeOperand mode addr v : Action (Fault ε) (Processor M) Unit) :=
  ite (update _) (write _ _)

theorem perform (start : UInt16) (opcode : UInt8) (mode : Mode) (operand : Operand)
    {b : Behaviour} (hb : b.isJam = false) :
    Accesses (perform start opcode mode operand b : Action (Fault ε) (Processor M) Nat) := by
  cases b with
  | internal f => exact (update _).bind fun _ => pure _
  | load f => exact (read _).bind fun _ => (update _).bind fun _ => pure _
  | store f =>
    exact (view _).bind fun _ => (update _).bind fun _ => (write _ _).bind fun _ => pure _
  | modify change settle =>
    exact (readOperand _ _).bind fun _ => (view _).bind fun _ => (update _).bind fun _ =>
      (writeOperand _ _ _).bind fun _ => (update _).bind fun _ => pure _
  | branch taken =>
    exact (view _).bind fun _ => ite ((update _).bind fun _ => pure _) (pure _)
  | push value => exact (view _).bind fun _ => (push _).bind fun _ => pure _
  | pull f => exact pull.bind fun _ => (update _).bind fun _ => pure _
  | jump => exact (update _).bind fun _ => pure _
  | call =>
    exact (view _).bind fun _ => (pushWord _).bind fun _ => (update _).bind fun _ => pure _
  | ret => exact pullWord.bind fun _ => (update _).bind fun _ => pure _
  | returnFromInterrupt =>
    exact pull.bind fun _ => (update _).bind fun _ => pullWord.bind fun _ =>
      (update _).bind fun _ => pure _
  | brk =>
    exact (view _).bind fun _ => (pushWord _).bind fun _ => (view _).bind fun _ =>
      (push _).bind fun _ => (update _).bind fun _ => (followVector _).bind fun _ =>
      (view _).bind fun _ => (report _).bind fun _ => pure _
  | jam => cases hb

end Accesses

theorem Accesses.composed {x : Action (Fault ε) (Processor M) α} (h : Accesses x) : Composed x := by
  induction h with
  | pure a => exact .pure a
  | view f => exact .view f
  | update f => exact .update f
  | read addr => exact .read addr
  | write addr v => exact .write addr v
  | report e => exact .report e
  | bind _ _ ihx ihf => exact .bind ihx ihf

namespace Composed

theorem perform (start : UInt16) (opcode : UInt8) (mode : Mode) (operand : Operand)
    (b : Behaviour) :
    Composed (perform start opcode mode operand b : Action (Fault ε) (Processor M) Nat) := by
  cases hb : b.isJam with
  | false => exact (Accesses.perform start opcode mode operand hb).composed
  | true =>
    cases b with
    | jam => exact (update _).bind fun _ => (report _).bind fun _ => jam _ _
    | _ => cases hb

theorem execute : Composed (execute : Action (Fault ε) (Processor M) Nat) :=
  (view _).bind fun _ => Accesses.fetch.composed.bind fun _ =>
    (Accesses.operand _).composed.bind fun _ => (perform _ _ _ _ _).bind fun _ => pure _

end Composed

/-- The same processor with another clock. -/
def withClock (p : Processor M) (cycles : UInt64) (pending stall : UInt32) : Processor M :=
  { p with cycles, pending, stall }

omit [Memory M ε] in
@[simp] theorem withClock_self (p : Processor M) :
    p.withClock p.cycles p.pending p.stall = p := rfl

omit [Memory M ε] in
theorem onMemory_withClock (x : Action ε M α) (p : Processor M) (c : UInt64)
    (n s : UInt32) : (onMemory x : Action (Fault ε) (Processor M) α) (p.withClock c n s) =
      ⟨(onMemory x p).answer, (onMemory x p).state.withClock c n s, (onMemory x p).events⟩ := by
  rcases h : x p.memory with ⟨e | a, m, es⟩
  · rw [onMemory_of_error h, onMemory_of_error (p := p.withClock c n s) h]
    rfl
  · rw [onMemory_of_ok h, onMemory_of_ok (p := p.withClock c n s) h]
    rfl

/-- A composed operation does the same whatever the clock says, and leaves the clock alone. -/
theorem Composed.run_withClock {x : Action (Fault ε) (Processor M) α} (h : Composed x) :
    ∀ (p : Processor M) (c : UInt64) (n s : UInt32),
      x (p.withClock c n s) = ⟨(x p).answer, (x p).state.withClock c n s, (x p).events⟩ := by
  induction h with
  | pure a => exact fun _ _ _ _ => rfl
  | view f => exact fun _ _ _ _ => rfl
  | update f => exact fun _ _ _ _ => rfl
  | report e => exact fun _ _ _ _ => rfl
  | jam opcode pc => exact fun _ _ _ _ => rfl
  | read addr => exact onMemory_withClock _
  | write addr v => exact onMemory_withClock _
  | bind _ _ ihx ihf =>
    rename_i x f _ _
    -- the second part runs from where the first one ends, again whatever its clock says
    intro p c n s
    have hx := ihx p c n s
    rcases h : x p with ⟨e | a, q, es⟩
    · rw [h] at hx
      rw [Action.bind_of_error h, Action.bind_of_error hx]
    · rw [h] at hx
      rw [Action.bind_of_ok h, Action.bind_of_ok hx, ihf a q c n s]

theorem Composed.clock_eq {x : Action (Fault ε) (Processor M) α} (h : Composed x)
    (p : Processor M) :
    (x p).state.withClock p.cycles p.pending p.stall = (x p).state := by
  have hp := h.run_withClock p p.cycles p.pending p.stall
  rw [withClock_self] at hp
  exact (congrArg Outcome.state hp).symm

/-- Faults of the processor that its memory may raise, or that an opcode raises. -/
def Fault.From (E : ε → Prop) : Fault ε → Prop
  | .jammed _ _ => True
  | .memory e => E e

omit [Memory M ε] in
theorem keeps_onMemory {J : M → Prop} {E : ε → Prop} {x : Action ε M α}
    (h : Action.Keeps J E x) :
    Action.Keeps (fun p : Processor M => J p.memory) (Fault.From E) (onMemory x) := by
  intro p hp
  have hx := h p.memory hp
  rcases hm : x p.memory with ⟨e | a, m, es⟩
  · rw [hm] at hx
    rw [onMemory_of_error hm]
    refine ⟨hx.1, ?_⟩
    intro e' he'
    cases he'
    exact hx.2 e rfl
  · rw [hm] at hx
    rw [onMemory_of_ok hm]
    exact ⟨hx.1, fun e' he' => by cases he'⟩

/-- What every access keeps, every composed operation keeps. -/
theorem Composed.keeps {J : M → Prop} {E : ε → Prop}
    (hr : ∀ addr, Action.Keeps J E (Memory.read addr : Action ε M UInt8))
    (hw : ∀ addr v, Action.Keeps J E (Memory.write addr v : Action ε M Unit))
    {x : Action (Fault ε) (Processor M) α} (h : Composed x) :
    Action.Keeps (fun p => J p.memory) (Fault.From E) x := by
  induction h with
  | pure a => exact Action.keeps_pure a
  | view f => exact Action.keeps_view _
  | update f => exact Action.keeps_update fun _ hp => hp
  | report e => exact Action.keeps_report e
  | jam opcode pc => exact Action.keeps_fail trivial
  | read addr => exact keeps_onMemory (hr addr)
  | write addr v => exact keeps_onMemory (hw addr v)
  | bind _ _ ihx ihf => exact Action.keeps_bind ihx ihf

/-- Only an opcode locks the processor up: a fault of an access is one of the memory. -/
theorem Accesses.not_jammed {x : Action (Fault ε) (Processor M) α} (h : Accesses x)
    (p : Processor M) (opcode : UInt8) (pc : UInt16) :
    (x p).answer ≠ .error (.jammed opcode pc) := by
  have haccess : ∀ {α : Type} (y : Action ε M α),
      Action.Keeps (fun _ : Processor M => True) (fun e => e ≠ .jammed opcode pc) (onMemory y) := by
    intro α y p _
    refine ⟨trivial, ?_⟩
    rcases hm : y p.memory with ⟨e | a, m, es⟩
    · rw [onMemory_of_error hm]
      intro e' he'
      cases he'
      exact fun heq => by cases heq
    · rw [onMemory_of_ok hm]
      exact fun e' he' => by cases he'
  have hkeeps : Action.Keeps (fun _ => True) (fun e => e ≠ .jammed opcode pc) x := by
    induction h with
    | pure a => exact Action.keeps_pure a
    | view f => exact Action.keeps_view _
    | update f => exact Action.keeps_update fun _ hp => hp
    | report e => exact Action.keeps_report e
    | read addr => exact haccess _
    | write addr v => exact haccess _
    | bind _ _ ihx ihf => exact Action.keeps_bind ihx ihf
  intro hjammed
  exact (hkeeps p trivial).2 _ hjammed rfl

end Processor

end Famicom
