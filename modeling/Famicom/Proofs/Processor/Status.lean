import Famicom.Proofs.Bits
import Famicom.Proofs.Processor.Account

/-! The two bits of the status that are no flags. In the register the unused bit is always set and
the break bit clear; in what is pushed the break bit says whether an instruction has pushed it. -/

namespace Famicom

namespace Registers

variable {r : Registers} {mask : UInt8}

/-- The unused bit is set, and the break bit is clear. -/
def Fixed (r : Registers) : Prop := r.status &&& 0x30 = 0x20

theorem fixed_iff : r.Fixed ↔ r.status &&& 0x30 = 0x20 := Iff.rfl

theorem fixed_powerOn : powerOn.Fixed := fixed_iff.mpr (by decide)

@[simp] theorem setFlag_and (h : mask &&& 0x30 = 0) (on : Bool) :
    (r.setFlag mask on).status &&& 0x30 = r.status &&& 0x30 := by
  unfold setFlag
  cases on with
  | true => exact Bits.or_and_of_disjoint r.status h
  | false => exact Bits.and_not_and_of_disjoint r.status h

@[simp] theorem setZeroNegative_and (v : UInt8) :
    (r.setZeroNegative v).status &&& 0x30 = r.status &&& 0x30 := by
  unfold setZeroNegative
  rw [setFlag_and (by decide), setFlag_and (by decide)]

@[simp] theorem setA_and (v : UInt8) : (r.setA v).status &&& 0x30 = r.status &&& 0x30 :=
  setZeroNegative_and v

@[simp] theorem setX_and (v : UInt8) : (r.setX v).status &&& 0x30 = r.status &&& 0x30 :=
  setZeroNegative_and v

@[simp] theorem setY_and (v : UInt8) : (r.setY v).status &&& 0x30 = r.status &&& 0x30 :=
  setZeroNegative_and v

@[simp] theorem addWithCarry_and (m : UInt8) :
    (r.addWithCarry m).status &&& 0x30 = r.status &&& 0x30 := by
  unfold addWithCarry
  rw [setA_and, setFlag_and (by decide), setFlag_and (by decide)]

@[simp] theorem subtractWithBorrow_and (m : UInt8) :
    (r.subtractWithBorrow m).status &&& 0x30 = r.status &&& 0x30 := by
  unfold subtractWithBorrow
  rw [setA_and, setFlag_and (by decide), setFlag_and (by decide)]

@[simp] theorem compare_and (value m : UInt8) :
    (r.compare value m).status &&& 0x30 = r.status &&& 0x30 := by
  unfold compare
  rw [setZeroNegative_and, setFlag_and (by decide)]

@[simp] theorem shiftLeft_and (v : UInt8) (carryIn : Bool) :
    (r.shiftLeft v carryIn).2.status &&& 0x30 = r.status &&& 0x30 := by
  unfold shiftLeft
  rw [setZeroNegative_and, setFlag_and (by decide)]

@[simp] theorem shiftRight_and (v : UInt8) (carryIn : Bool) :
    (r.shiftRight v carryIn).2.status &&& 0x30 = r.status &&& 0x30 := by
  unfold shiftRight
  rw [setZeroNegative_and, setFlag_and (by decide)]

@[simp] theorem rotateMasked_and (m : UInt8) :
    (r.rotateMasked m).status &&& 0x30 = r.status &&& 0x30 := by
  unfold rotateMasked
  rw [setFlag_and (by decide), setFlag_and (by decide), setA_and]

@[simp] theorem testBits_and (m : UInt8) :
    (r.testBits m).status &&& 0x30 = r.status &&& 0x30 := by
  unfold testBits
  rw [setFlag_and (by decide), setFlag_and (by decide), setFlag_and (by decide)]

/-- A status from the stack has its two bits put right. -/
@[simp] theorem setStatus_and (v : UInt8) : (r.setStatus v).status &&& 0x30 = 0x20 := by
  have hbreak : v &&& ~~~Flag.brk &&& 0x30 = v &&& Flag.unused := by
    rw [UInt8.and_assoc]
    rfl
  -- the break bit falls to the complement, and the unused bit is set whatever was there
  unfold setStatus
  rw [Bits.and_of_or, hbreak]
  exact Bits.and_or_self v Flag.unused

theorem statusWithoutBreak_and (r : Registers) : r.statusWithoutBreak &&& 0x30 = 0x20 :=
  setStatus_and (r := r) r.status

theorem statusWithBreak_and (r : Registers) : r.statusWithBreak &&& 0x30 = 0x30 := by
  unfold statusWithBreak
  rw [UInt8.or_assoc]
  exact Bits.or_and_self r.status 0x30

/-- What is pushed of the status are its flags. -/
theorem statusWithoutBreak_flags (r : Registers) :
    r.statusWithoutBreak &&& 0xCF = r.status &&& 0xCF := by
  unfold statusWithoutBreak
  rw [Bits.or_and_of_disjoint _ (by decide), Bits.and_not_and_of_disjoint _ (by decide)]

theorem statusWithBreak_flags (r : Registers) :
    r.statusWithBreak &&& 0xCF = r.status &&& 0xCF := by
  unfold statusWithBreak
  rw [Bits.or_and_of_disjoint _ (by decide), Bits.or_and_of_disjoint _ (by decide)]

end Registers

/-- Whatever an operation works on, it leaves the two bits right. -/
def Behaviour.KeepsFixed : Behaviour → Prop
  | .internal f => ∀ r, r.Fixed → (f r).Fixed
  | .load f | .pull f => ∀ r v, r.Fixed → (f r v).Fixed
  | .store f => ∀ r addr, r.Fixed → (f r addr).2.Fixed
  | .modify change settle =>
    (∀ r v, r.Fixed → (change r v).2.Fixed) ∧ ∀ r v, r.Fixed → (settle r v).Fixed
  | .branch _ | .push _ | .jump | .call | .ret | .returnFromInterrupt | .brk | .jam => True

open Behaviour in
theorem Operation.keepsFixed (op : Operation) : op.behaviour.KeepsFixed := by
  cases op <;>
    simp +contextual (disch := decide) only [behaviour, KeepsFixed, accumulate, storing,
      storingMasked, counting, shifting, Registers.fixed_iff, Registers.setFlag_and,
      Registers.setZeroNegative_and, Registers.setA_and, Registers.setX_and, Registers.setY_and,
      Registers.addWithCarry_and, Registers.subtractWithBorrow_and, Registers.compare_and,
      Registers.shiftLeft_and, Registers.shiftRight_and, Registers.rotateMasked_and,
      Registers.testBits_and, Registers.setStatus_and, implies_true, and_true]

namespace Processor

open Famicom.Action

variable {M ε α β : Type} [Memory M ε]

/-! Every call keeps the two bits right, whether it fails or not. -/

/-- An operation that keeps the two bits right. -/
abbrev KeepsFixed (x : Action (Fault ε) (Processor M) α) : Prop :=
  Keeps (fun p => p.registers.Fixed) (fun _ => True) x

omit [Memory M ε] in
theorem keepsFixed_onMemory (x : Action ε M α) :
    KeepsFixed (onMemory x : Action (Fault ε) (Processor M) α) := by
  intro p hp
  rcases h : x p.memory with ⟨e | a, m, es⟩
  · rw [onMemory_of_error h]
    exact ⟨hp, fun _ _ => trivial⟩
  · rw [onMemory_of_ok h]
    exact ⟨hp, fun _ _ => trivial⟩

omit [Memory M ε] in
theorem keepsFixed_view (f : Registers → α) :
    KeepsFixed (view f : Action (Fault ε) (Processor M) α) :=
  keeps_view _

omit [Memory M ε] in
theorem keepsFixed_update {f : Registers → Registers} (h : ∀ r, r.Fixed → (f r).Fixed) :
    KeepsFixed (update f : Action (Fault ε) (Processor M) Unit) :=
  keeps_update fun p hp => h p.registers hp

theorem keepsFixed_fetch : KeepsFixed (fetch : Action (Fault ε) (Processor M) UInt8) :=
  keeps_bind (keepsFixed_view _) fun _ => keeps_bind (keepsFixed_onMemory _) fun _ =>
    keeps_bind (keepsFixed_update fun _ h => h) fun _ => keeps_pure _

theorem keepsFixed_fetchWord : KeepsFixed (fetchWord : Action (Fault ε) (Processor M) UInt16) :=
  keeps_bind keepsFixed_fetch fun _ => keeps_bind keepsFixed_fetch fun _ => keeps_pure _

theorem keepsFixed_readWord (low high : UInt16) :
    KeepsFixed (readWord low high : Action (Fault ε) (Processor M) UInt16) :=
  keeps_bind (keepsFixed_onMemory _) fun _ => keeps_bind (keepsFixed_onMemory _) fun _ =>
    keeps_pure _

theorem keepsFixed_followVector (vector : UInt16) :
    KeepsFixed (followVector vector : Action (Fault ε) (Processor M) Unit) :=
  keeps_bind (keepsFixed_readWord _ _) fun _ => keepsFixed_update fun _ h => h

theorem keepsFixed_push (v : UInt8) :
    KeepsFixed (push v : Action (Fault ε) (Processor M) Unit) :=
  keeps_bind (keepsFixed_view _) fun _ => keeps_bind (keepsFixed_onMemory _) fun _ =>
    keepsFixed_update fun _ h => h

theorem keepsFixed_pushWord (w : UInt16) :
    KeepsFixed (pushWord w : Action (Fault ε) (Processor M) Unit) :=
  keeps_bind (keepsFixed_push _) fun _ => keepsFixed_push _

theorem keepsFixed_pull : KeepsFixed (pull : Action (Fault ε) (Processor M) UInt8) :=
  keeps_bind (keepsFixed_update fun _ h => h) fun _ => keeps_bind (keepsFixed_view _) fun _ =>
    keepsFixed_onMemory _

theorem keepsFixed_pullWord : KeepsFixed (pullWord : Action (Fault ε) (Processor M) UInt16) :=
  keeps_bind keepsFixed_pull fun _ => keeps_bind keepsFixed_pull fun _ => keeps_pure _

theorem keepsFixed_operand (mode : Mode) :
    KeepsFixed (operand mode : Action (Fault ε) (Processor M) Operand) := by
  cases mode with
  | implied | accumulator => exact keeps_pure _
  | immediate =>
    exact keeps_bind (keepsFixed_view _) fun _ => keeps_bind (keepsFixed_update fun _ h => h)
      fun _ => keeps_pure _
  | zeroPage => exact keeps_bind keepsFixed_fetch fun _ => keeps_pure _
  | zeroPageX | zeroPageY =>
    exact keeps_bind keepsFixed_fetch fun _ => keeps_bind (keepsFixed_view _) fun _ => keeps_pure _
  | absolute => exact keeps_bind keepsFixed_fetchWord fun _ => keeps_pure _
  | absoluteX | absoluteY =>
    exact keeps_bind keepsFixed_fetchWord fun _ => keeps_bind (keepsFixed_view _) fun _ =>
      keeps_pure _
  | indirect =>
    exact keeps_bind keepsFixed_fetchWord fun _ => keeps_bind (keepsFixed_readWord _ _) fun _ =>
      keeps_pure _
  | indirectX =>
    exact keeps_bind keepsFixed_fetch fun _ => keeps_bind (keepsFixed_view _) fun _ =>
      keeps_bind (keepsFixed_readWord _ _) fun _ => keeps_pure _
  | indirectY =>
    exact keeps_bind keepsFixed_fetch fun _ => keeps_bind (keepsFixed_readWord _ _) fun _ =>
      keeps_bind (keepsFixed_view _) fun _ => keeps_pure _
  | relative =>
    exact keeps_bind keepsFixed_fetch fun _ => keeps_bind (keepsFixed_view _) fun _ => keeps_pure _

theorem keepsFixed_readOperand (mode : Mode) (addr : UInt16) :
    KeepsFixed (readOperand mode addr : Action (Fault ε) (Processor M) UInt8) :=
  keeps_ite (fun _ => keepsFixed_view _) fun _ => keepsFixed_onMemory _

theorem keepsFixed_writeOperand (mode : Mode) (addr : UInt16) (v : UInt8) :
    KeepsFixed (writeOperand mode addr v : Action (Fault ε) (Processor M) Unit) :=
  keeps_ite (fun _ => keepsFixed_update fun _ h => h) fun _ => keepsFixed_onMemory _

omit [Memory M ε] in
/-- Registers computed together with a value take the place of those that they are computed from. -/
theorem keepsFixed_exchange {f : Registers → β × Registers} (hf : ∀ r, r.Fixed → (f r).2.Fixed)
    {g : β → Action (Fault ε) (Processor M) α} (hg : ∀ b, KeepsFixed (g b)) :
    KeepsFixed (view f >>= fun x => update (fun _ => x.2) >>= fun _ => g x.1) :=
  fun p hp => hg (f p.registers).1 { p with registers := (f p.registers).2 } (hf p.registers hp)

theorem fixed_setFlag {r : Registers} (h : r.Fixed) :
    (r.setFlag Flag.interruptDisable true).Fixed :=
  (Registers.setFlag_and (by decide) true).trans h

/-- One case for each way in which an operation uses its operand. -/
theorem keepsFixed_perform (start : UInt16) (opcode : UInt8) (mode : Mode) (operand : Operand)
    {b : Behaviour} (hb : b.KeepsFixed) :
    KeepsFixed (perform start opcode mode operand b : Action (Fault ε) (Processor M) Nat) := by
  cases b with
  | internal f => exact keeps_bind (keepsFixed_update hb) fun _ => keeps_pure _
  | load f =>
    exact keeps_bind (keepsFixed_onMemory _) fun v =>
      keeps_bind (keepsFixed_update fun r h => hb r v h) fun _ => keeps_pure _
  -- the registers come with the value, so that they are replaced before it is written
  | store f =>
    exact keepsFixed_exchange (f := fun r => f r operand.addr) (g := fun v => do
      write operand.addr v
      return 0) (fun r h => hb r operand.addr h) fun _ =>
      keeps_bind (keepsFixed_onMemory _) fun _ => keeps_pure _
  | modify change settle =>
    exact keeps_bind (keepsFixed_readOperand _ _) fun v =>
      keepsFixed_exchange (f := fun r => change r v) (g := fun w => do
        writeOperand mode operand.addr w
        update fun r => settle r w
        return 0) (fun r h => hb.1 r v h) fun w =>
      keeps_bind (keepsFixed_writeOperand _ _ _) fun _ =>
      keeps_bind (keepsFixed_update fun r h => hb.2 r w h) fun _ => keeps_pure _
  | branch taken =>
    apply keeps_bind (keepsFixed_view _)
    intro isTaken
    apply keeps_ite _ fun _ => keeps_pure _
    exact fun _ => keeps_bind (keepsFixed_update fun _ h => h) fun _ => keeps_pure _
  | push value =>
    exact keeps_bind (keepsFixed_view _) fun _ => keeps_bind (keepsFixed_push _) fun _ =>
      keeps_pure _
  | pull f =>
    exact keeps_bind keepsFixed_pull fun v =>
      keeps_bind (keepsFixed_update fun r h => hb r v h) fun _ => keeps_pure _
  | jump => exact keeps_bind (keepsFixed_update fun _ h => h) fun _ => keeps_pure _
  | call =>
    exact keeps_bind (keepsFixed_view _) fun _ => keeps_bind (keepsFixed_pushWord _) fun _ =>
      keeps_bind (keepsFixed_update fun _ h => h) fun _ => keeps_pure _
  | ret =>
    exact keeps_bind keepsFixed_pullWord fun _ => keeps_bind (keepsFixed_update fun _ h => h)
      fun _ => keeps_pure _
  | returnFromInterrupt =>
    exact keeps_bind keepsFixed_pull fun v =>
      keeps_bind (keepsFixed_update fun r _ => Registers.setStatus_and v) fun _ =>
      keeps_bind keepsFixed_pullWord fun _ => keeps_bind (keepsFixed_update fun _ h => h) fun _ =>
      keeps_pure _
  | brk =>
    exact keeps_bind (keepsFixed_view _) fun _ => keeps_bind (keepsFixed_pushWord _) fun _ =>
      keeps_bind (keepsFixed_view _) fun _ => keeps_bind (keepsFixed_push _) fun _ =>
      keeps_bind (keepsFixed_update fun _ h => fixed_setFlag h) fun _ =>
      keeps_bind (keepsFixed_followVector _) fun _ => keeps_bind (keepsFixed_view _) fun _ =>
      keeps_bind (keeps_report _) fun _ => keeps_pure _
  | jam =>
    exact keeps_bind (keepsFixed_update fun _ h => h) fun _ => keeps_bind (keeps_report _) fun _ =>
      keeps_fail trivial

theorem keepsFixed_execute : KeepsFixed (execute : Action (Fault ε) (Processor M) Nat) :=
  keeps_bind (keepsFixed_view _) fun _ => keeps_bind keepsFixed_fetch fun _ =>
    keeps_bind (keepsFixed_operand _) fun _ =>
    keeps_bind (keepsFixed_perform _ _ _ _ (Operation.keepsFixed _)) fun _ => keeps_pure _

theorem keepsFixed_enter (vector : UInt16) :
    KeepsFixed (enter vector : Action (Fault ε) (Processor M) Unit) :=
  keeps_bind (keepsFixed_view _) fun _ => keeps_bind (keepsFixed_pushWord _) fun _ =>
    keeps_bind (keepsFixed_view _) fun _ => keeps_bind (keepsFixed_push _) fun _ =>
    keeps_bind (keepsFixed_update fun _ h => fixed_setFlag h) fun _ => keepsFixed_followVector _

theorem keepsFixed_work (call : Call) (p : Processor M) :
    KeepsFixed (call.work p : Action (Fault ε) (Processor M) Unit) := by
  have hexecute : KeepsFixed (do
      let _ ← execute
      return : Action (Fault ε) (Processor M) Unit) :=
    keeps_bind keepsFixed_execute fun _ => keeps_pure _
  cases call with
  | step => exact hexecute
  | cycle => exact keeps_ite (fun _ => keeps_pure _) fun _ => hexecute
  | nmi => exact keepsFixed_enter _
  | irq => exact keeps_ite (fun _ => keeps_pure _) fun _ => keepsFixed_enter _
  | transfer => exact keeps_pure _

theorem fixed_run (call : Call) {p : Processor M} (h : p.registers.Fixed) :
    (call.run p).state.registers.Fixed := by
  obtain ⟨-, cycles, pending, stall, hstate⟩ := run_work call p
  rw [hstate]
  exact (keepsFixed_work call p p h).1

/-- The processors that come out of calls after power-on or a reset, whether these fail or not. -/
inductive Started : Processor M → Prop
  | powerOn (m : M) : Started (powerOn m)
  | reset (p : Processor M) : Started (reset p).state
  | run {p : Processor M} (call : Call) : Started p → Started (call.run p).state

theorem fixed_reset (p : Processor M) : (reset p).state.registers.Fixed := by
  have hrest : KeepsFixed (do
      followVector resetVector
      .report (.reset (← view (·.pc))) : Action (Fault ε) (Processor M) Unit) :=
    keeps_bind (keepsFixed_followVector _) fun _ => keeps_bind (keepsFixed_view _) fun _ =>
      keeps_report _
  exact (hrest { Processor.powerOn p.memory with
    registers := { Registers.powerOn with pc := p.registers.pc } } Registers.fixed_powerOn).1

theorem fixed_of_started {p : Processor M} (h : Started p) : p.registers.Fixed := by
  induction h with
  | powerOn m => exact Registers.fixed_powerOn
  | reset p => exact fixed_reset p
  | run call _ ih => exact fixed_run call ih

end Processor

end Famicom
