import Famicom.Proofs.Processor.Recorded
import Famicom.Proofs.Processor.Status

/-! The status bytes that a processor pushes, by the writes that its memory is asked for. -/

namespace Famicom

/-- What an access asks a memory to write, taken or not. -/
def Access.written? : Access → Option (UInt16 × UInt8)
  | .read _ _ => none
  | .write addr v _ => some (addr, v)

namespace Recorded

variable {M ε : Type} [Memory M ε]

omit [Memory M ε] in
/-- All that the memory has been asked to write. -/
def written (r : Recorded M) : List (UInt16 × UInt8) := r.accesses.filterMap Access.written?

theorem written_read (addr : UInt16) (r : Recorded M) :
    (Memory.read addr r).state.written = r.written := by
  change (r.accesses ++ [_]).filterMap _ = _
  rw [List.filterMap_append]
  exact List.append_nil _

theorem written_write (addr : UInt16) (v : UInt8) (r : Recorded M) :
    (Memory.write addr v r).state.written = r.written ++ [(addr, v)] := by
  change (r.accesses ++ [_]).filterMap _ = _
  rw [List.filterMap_append]
  rfl

end Recorded

/-- Operations that work on the stack alone have no operand. -/
theorem Instruction.implied_of_operation {opcode : UInt8}
    (h : (decode opcode).operation ∈ [Operation.php, .brk, .rts, .rti]) :
    (decode opcode).mode = .implied :=
  forall_decode (P := fun i => i.operation ∈ [Operation.php, .brk, .rts, .rti] → i.mode = .implied)
    (by decide) opcode h

/-- A call has an address for its operand. -/
theorem Instruction.absolute_of_operation {opcode : UInt8} (h : (decode opcode).operation = .jsr) :
    (decode opcode).mode = .absolute :=
  forall_decode (P := fun i => i.operation = .jsr → i.mode = .absolute) (by decide) opcode h

namespace Processor

open Famicom.Action

variable {M ε α β : Type}

/-- The bytes pushed one after another from a stack pointer on, each where it goes. -/
def pushed (sp : UInt8) : List UInt8 → List (UInt16 × UInt8)
  | [] => []
  | v :: vs => (stackAddress sp, v) :: pushed (sp - 1) vs

/-- What pushes a status. -/
inductive Pusher
  | php | brk | interrupt
deriving DecidableEq, Repr

/-- The bytes that are pushed together with a status, which is the last of them. -/
def Pusher.bytes (pc : UInt16) (status : UInt8) : Pusher → List UInt8
  | .php => [status]
  | .brk => [((pc + 2) >>> 8).toUInt8, (pc + 2).toUInt8, status]
  | .interrupt => [(pc >>> 8).toUInt8, pc.toUInt8, status]

/-- The status that is pushed. -/
def Pusher.status (r : Registers) : Pusher → UInt8
  | .php | .brk => r.statusWithBreak
  | .interrupt => r.statusWithoutBreak

variable [Memory M ε]

/-- What the next instruction is as a pusher of the status. -/
def nextPusher? (p : Processor M) : Option Pusher :=
  match (Memory.read p.registers.pc p.memory).answer with
  | .ok opcode =>
    match (Instruction.decode opcode).operation with
    | .php => some .php
    | .brk => some .brk
    | _ => none
  | .error _ => none

/-- What pushes the status in a call, if anything does. -/
def Call.pusher? (p : Processor M) : Call → Option Pusher
  | .step => p.nextPusher?
  | .cycle => if 0 < p.owed then none else p.nextPusher?
  | .nmi => some .interrupt
  | .irq => if p.registers.flag Flag.interruptDisable then none else some .interrupt
  | .transfer => none

/-- All that the memory is asked to write in a call. -/
def Call.written (p : Processor M) (call : Call) : List (UInt16 × UInt8) :=
  (call.run p.recording).state.memory.written

/-- The operation asks for these writes in turn, and if it answers for all of them. -/
def Writes (l : List (UInt16 × UInt8)) (x : Action (Fault ε) (Processor (Recorded M)) α)
    (p : Processor (Recorded M)) : Prop :=
  ∃ made, made <+: l ∧ (x p).state.memory.written = p.memory.written ++ made ∧
    ((x p).answer.isOk → made = l)

section Pushing

variable {p : Processor M} {v : UInt8} {m : M} {e : ε} {es : List Event}

theorem push_of_ok (h : Memory.write (stackAddress p.registers.sp) v p.memory = ⟨.ok (), m, es⟩) :
    push v p = ⟨.ok (),
      { p with registers := { p.registers with sp := p.registers.sp - 1 }, memory := m }, es⟩ := by
  unfold push
  rw [view_registers, write, bind_of_ok (onMemory_of_ok h)]
  exact congrArg _ (List.append_nil es)

theorem push_of_error
    (h : Memory.write (stackAddress p.registers.sp) v p.memory = ⟨.error e, m, es⟩) :
    push v p = ⟨.error (.memory e), { p with memory := m }, es⟩ := by
  unfold push
  rw [view_registers, write, bind_of_error (onMemory_of_error h)]

theorem fetch_of_ok (h : Memory.read p.registers.pc p.memory = ⟨.ok v, m, es⟩) :
    fetch p = ⟨.ok v,
      { p with registers := { p.registers with pc := p.registers.pc + 1 }, memory := m }, es⟩ := by
  unfold fetch
  rw [view_registers, read, bind_of_ok (onMemory_of_ok h)]
  exact congrArg _ (List.append_nil es)

end Pushing

section

variable {p : Processor (Recorded M)} {l : List (UInt16 × UInt8)}
  {x : Action (Fault ε) (Processor (Recorded M)) α}

omit [Memory M ε] in
/-- An operation that does the same apart from the clock and from what it answers asks for the same
writes. -/
theorem Writes.congr {y : Action (Fault ε) (Processor (Recorded M)) β} (h : Writes l x p)
    (hmemory : (y p).state.memory = (x p).state.memory)
    (hok : (y p).answer.isOk = (x p).answer.isOk) : Writes l y p := by
  unfold Writes
  rw [hmemory, hok]
  exact h

omit [Memory M ε] in
theorem writes_view {f : Registers → β} {g : β → Action (Fault ε) (Processor (Recorded M)) α}
    (h : Writes l (g (f p.registers)) p) : Writes l (view f >>= g) p := h

omit [Memory M ε] in
/-- An answer that is worked on makes no difference. -/
theorem writes_map (f : α → β) (h : Writes l x p) : Writes l (x >>= fun a => pure (f a)) p := by
  rcases hx : x p with ⟨e | a, q, es⟩
  · exact h.congr (by rw [bind_of_error hx, hx]) (by rw [bind_of_error hx, hx]; rfl)
  · exact h.congr (by rw [bind_of_ok hx, hx]; rfl) (by rw [bind_of_ok hx, hx]; rfl)

/-- A byte is pushed first, whatever is pushed after it. -/
theorem writes_push {v : UInt8} {vs : List UInt8}
    {g : Unit → Action (Fault ε) (Processor (Recorded M)) α}
    (h : ∀ q : Processor (Recorded M),
      q.registers = { p.registers with sp := p.registers.sp - 1 } →
        Writes (pushed q.registers.sp vs) (g ()) q) :
    Writes (pushed p.registers.sp (v :: vs)) (push v >>= g) p := by
  have hwritten := Recorded.written_write (stackAddress p.registers.sp) v p.memory
  -- a write that is refused has been asked for all the same
  rcases hw : Memory.write (stackAddress p.registers.sp) v p.memory with ⟨e | _, m, es⟩
  · rw [hw] at hwritten
    unfold Writes
    rw [bind_of_error (push_of_error hw)]
    exact ⟨[_], ⟨_, rfl⟩, hwritten, nofun⟩
  · rw [hw] at hwritten
    obtain ⟨made, hmade, hrest, hall⟩ := h { p with
      registers := { p.registers with sp := p.registers.sp - 1 }, memory := m } rfl
    unfold Writes
    rw [bind_of_ok (push_of_ok hw)]
    refine ⟨_ :: made, List.cons_prefix_cons.mpr ⟨rfl, hmade⟩, ?_, fun hok => by rw [hall hok]; rfl⟩
    rw [hrest, hwritten, List.append_assoc]
    rfl

theorem writes_pushWord {w : UInt16} {vs : List UInt8}
    {g : Unit → Action (Fault ε) (Processor (Recorded M)) α}
    (h : ∀ q : Processor (Recorded M),
      q.registers = { p.registers with sp := p.registers.sp - 1 - 1 } →
        Writes (pushed q.registers.sp vs) (g ()) q) :
    Writes (pushed p.registers.sp ((w >>> 8).toUInt8 :: w.toUInt8 :: vs)) (pushWord w >>= g) p := by
  unfold pushWord
  rw [bind_assoc]
  refine writes_push fun q hq => writes_push fun q' hq' => h q' ?_
  rw [hq', hq]

theorem writes_fetch {opcode : UInt8} {g : UInt8 → Action (Fault ε) (Processor (Recorded M)) α}
    (hread : (Memory.read p.registers.pc p.memory).answer = .ok opcode)
    (h : ∀ q : Processor (Recorded M),
      q.registers = { p.registers with pc := p.registers.pc + 1 } → Writes l (g opcode) q) :
    Writes l (fetch >>= g) p := by
  have hwritten := Recorded.written_read p.registers.pc p.memory
  rcases hr : Memory.read p.registers.pc p.memory with ⟨answer, m, es⟩
  rw [hr] at hread hwritten
  cases hread
  obtain ⟨made, hmade, hrest, hall⟩ := h { p with
    registers := { p.registers with pc := p.registers.pc + 1 }, memory := m } rfl
  unfold Writes
  rw [bind_of_ok (fetch_of_ok hr)]
  exact ⟨made, hmade, hrest.trans (by rw [hwritten]), hall⟩

/-- Operations that only read ask for no writes. -/
theorem writes_of_reads {y : Action (Fault ε) (Processor (Recorded M)) α}
    (h : Alike (fun _ => False) x y) : Writes [] x p := by
  refine ⟨[], List.nil_prefix, ?_, fun _ => rfl⟩
  -- a read only adds itself to the record, and that is no write
  have hkeeps := h.keeps (J := fun r => r.written = p.memory.written)
    (fun addr r hr => ⟨(Recorded.written_read addr r).trans hr, fun _ _ => trivial⟩)
    (fun _ _ hfalse => hfalse.elim)
  rw [(hkeeps p rfl).1, List.append_nil]

theorem writes_enter (vector : UInt16) (p : Processor (Recorded M)) :
    Writes (pushed p.registers.sp
      (Pusher.interrupt.bytes p.registers.pc (Pusher.interrupt.status p.registers)))
      (enter vector) p := by
  refine writes_view (writes_pushWord fun q hq => writes_view ?_)
  have hstatus : p.registers.statusWithoutBreak = q.registers.statusWithoutBreak := by rw [hq]; rfl
  change Writes (pushed q.registers.sp [p.registers.statusWithoutBreak]) _ q
  rw [hstatus]
  exact writes_push fun _ _ =>
    writes_of_reads ((Alike.update _).bind fun _ => Alike.followVector _)

theorem writes_php (start : UInt16) (opcode : UInt8) (mode : Mode) (operand : Operand)
    (p : Processor (Recorded M)) :
    Writes (pushed p.registers.sp [p.registers.statusWithBreak])
      (perform start opcode mode operand Operation.php.behaviour) p :=
  writes_view (writes_push fun _ _ => writes_of_reads (Alike.pure 0))

theorem writes_brk (start : UInt16) (opcode : UInt8) (mode : Mode) (operand : Operand)
    (p : Processor (Recorded M)) :
    Writes (pushed p.registers.sp [((p.registers.pc + 1) >>> 8).toUInt8,
      (p.registers.pc + 1).toUInt8, p.registers.statusWithBreak])
      (perform start opcode mode operand Operation.brk.behaviour) p := by
  refine writes_view (writes_pushWord fun q hq => writes_view ?_)
  have hstatus : p.registers.statusWithBreak = q.registers.statusWithBreak := by rw [hq]; rfl
  rw [hstatus]
  exact writes_push fun _ _ =>
    writes_of_reads ((Alike.update _).bind fun _ => (Alike.followVector _).bind fun _ =>
      (Alike.view _).bind fun _ => (Alike.report _).bind fun _ => Alike.pure 0)

/-- An instruction without an operand asks for the writes of its operation. -/
theorem writes_execute {opcode : UInt8}
    (hread : (Memory.read p.registers.pc p.memory).answer = .ok opcode)
    (hmode : (Instruction.decode opcode).mode = .implied)
    (h : ∀ q : Processor (Recorded M),
      q.registers = { p.registers with pc := p.registers.pc + 1 } →
        Writes l (perform p.registers.pc opcode .implied (.plain 0)
          (Instruction.decode opcode).operation.behaviour) q) :
    Writes l execute p := by
  refine writes_view (writes_fetch hread fun q hq => ?_)
  dsimp only
  rw [hmode]
  exact writes_map _ (h q hq)

end

section

variable {p : Processor M} {pusher : Pusher}

theorem nextPusher?_eq_some (h : p.nextPusher? = some pusher) :
    ∃ opcode, (Memory.read p.registers.pc p.memory).answer = .ok opcode ∧
      ((Instruction.decode opcode).operation = .php ∧ pusher = .php ∨
        (Instruction.decode opcode).operation = .brk ∧ pusher = .brk) := by
  unfold nextPusher? at h
  split at h
  case h_1 opcode hread =>
    refine ⟨opcode, hread, ?_⟩
    split at h
    case h_1 hop => exact .inl ⟨hop, (Option.some.inj h).symm⟩
    case h_2 hop => exact .inr ⟨hop, (Option.some.inj h).symm⟩
    case h_3 => cases h
  case h_2 => cases h

/-- What an instruction that pushes the status asks the memory to write. -/
theorem writes_of_nextPusher {p : Processor (Recorded M)} (h : p.nextPusher? = some pusher) :
    Writes (pushed p.registers.sp (pusher.bytes p.registers.pc (pusher.status p.registers)))
      execute p := by
  obtain ⟨opcode, hread, ⟨hop, rfl⟩ | ⟨hop, rfl⟩⟩ := nextPusher?_eq_some h
  · refine writes_execute hread (Instruction.implied_of_operation (by rw [hop]; decide)) ?_
    intro q hq
    have hphp := writes_php p.registers.pc opcode .implied (.plain 0) q
    rw [hq] at hphp
    rw [hop]
    exact hphp
  · refine writes_execute hread (Instruction.implied_of_operation (by rw [hop]; decide)) ?_
    intro q hq
    have hbrk := writes_brk p.registers.pc opcode .implied (.plain 0) q
    have hskip : p.registers.pc + 1 + 1 = p.registers.pc + 2 := UInt16.add_assoc _ 1 1
    rw [hq] at hbrk
    dsimp only at hbrk
    rw [hskip] at hbrk
    rw [hop]
    exact hbrk

theorem writes_work {p : Processor (Recorded M)} {call : Call} (h : call.pusher? p = some pusher) :
    Writes (pushed p.registers.sp (pusher.bytes p.registers.pc (pusher.status p.registers)))
      (call.work p) p := by
  cases call with
  | step => exact writes_map _ (writes_of_nextPusher h)
  | cycle =>
    obtain ⟨howed, hnext⟩ := Option.ite_none_left_eq_some.mp h
    unfold Call.work
    rw [if_neg howed]
    exact writes_map _ (writes_of_nextPusher hnext)
  | nmi =>
    cases h
    exact writes_enter nmiVector p
  | irq =>
    obtain ⟨hon, hsome⟩ := Option.ite_none_left_eq_some.mp h
    cases hsome
    unfold Call.work
    rw [if_neg hon]
    exact writes_enter irqVector p
  | transfer => cases h

/-- A call asks for the writes of the instruction or the entry that it is made of. -/
theorem writes_run {p : Processor (Recorded M)} {call : Call} (h : call.pusher? p = some pusher) :
    Writes (pushed p.registers.sp (pusher.bytes p.registers.pc (pusher.status p.registers)))
      call.run p := by
  obtain ⟨hanswer, cycles, pending, stall, hstate⟩ := run_work call p
  exact (writes_work h).congr (by rw [hstate]; rfl) (by rw [hanswer])

end

/-! Calls over a memory whose accesses are recorded. -/

section

variable {N : Type} [Memory N ε] {f : M → N}

theorem alike_enter (vector : UInt16) :
    Alike (M := M) (N := N) (fun _ => True) (enter vector) (enter vector) :=
  (Alike.view _).bind fun _ => (Alike.pushWord (fun _ => trivial) _).bind fun _ =>
    (Alike.view _).bind fun _ => (Alike.push (fun _ => trivial) _).bind fun _ =>
    (Alike.update _).bind fun _ => Alike.followVector _

theorem run_map (hf : Memory.Maps f) (call : Call) (p : Processor M) :
    (call.run (p.map f)).answer = (call.run p).answer ∧
      (call.run (p.map f)).state = (call.run p).state.map f := by
  -- what a call is made of is done alike on both memories, and the clock does not depend on them
  cases call with
  | step =>
    have hexecute := alike_execute.run_map hf p
    rw [run_step, run_step]
    rcases hx : execute p with ⟨e | cost, q, es⟩
    · rw [hx] at hexecute
      rw [step_of_error hx, step_of_error hexecute]
      exact ⟨rfl, rfl⟩
    · rw [hx] at hexecute
      rw [step_of_ok hx, step_of_ok hexecute]
      exact ⟨rfl, rfl⟩
  | cycle =>
    have hcycle := cycle_map hf p
    exact ⟨congrArg Outcome.answer hcycle, congrArg Outcome.state hcycle⟩
  | nmi =>
    have henter := (alike_enter nmiVector).run_map hf p
    change (nmi (p.map f)).answer = (nmi p).answer ∧ (nmi (p.map f)).state = (nmi p).state.map f
    rcases hx : enter nmiVector p with ⟨e | _, q, es⟩
    · rw [hx] at henter
      rw [nmi_of_refused hx, nmi_of_refused henter]
      exact ⟨rfl, rfl⟩
    · rw [hx] at henter
      obtain ⟨_, hnmi⟩ := nmi_of_entered hx
      obtain ⟨_, hnmi'⟩ := nmi_of_entered henter
      rw [hnmi, hnmi']
      exact ⟨rfl, rfl⟩
  | irq =>
    have henter := (alike_enter irqVector).run_map hf p
    change (irq (p.map f)).answer = (irq p).answer ∧ (irq (p.map f)).state = (irq p).state.map f
    cases hon : p.registers.flag Flag.interruptDisable with
    | true =>
      rw [irq_of_disabled hon, irq_of_disabled (p := p.map f) hon]
      exact ⟨rfl, rfl⟩
    | false =>
      rcases hx : enter irqVector p with ⟨e | _, q, es⟩
      · rw [hx] at henter
        rw [irq_of_refused hon hx, irq_of_refused (p := p.map f) hon henter]
        exact ⟨rfl, rfl⟩
      · rw [hx] at henter
        obtain ⟨_, hirq⟩ := irq_of_entered hon hx
        obtain ⟨_, hirq'⟩ := irq_of_entered (p := p.map f) hon henter
        rw [hirq, hirq']
        exact ⟨rfl, rfl⟩
  | transfer => exact ⟨rfl, rfl⟩

end

/-- The call that is recorded is the processor's own. -/
theorem run_recording (call : Call) (p : Processor M) :
    (call.run p).answer = (call.run p.recording).answer ∧
      (call.run p).state = (call.run p.recording).state.map Recorded.memory :=
  run_map Recorded.maps_memory call p.recording

/-- The status that is pushed has the flags of the register. The unused bit is always set in it, and
the break bit exactly if an instruction pushes it. -/
theorem Pusher.status_bits (pusher : Pusher) (r : Registers) :
    pusher.status r &&& 0x20 ≠ 0 ∧
    (pusher.status r &&& 0x10 ≠ 0 ↔ pusher = .php ∨ pusher = .brk) ∧
    pusher.status r &&& 0xCF = r.status &&& 0xCF := by
  -- both bits lie under one mask, under which the status is known
  have hbits : ∀ v w : UInt8, v &&& 0x30 = w → v &&& 0x20 = w &&& 0x20 ∧ v &&& 0x10 = w &&& 0x10 := by
    rintro v w rfl
    exact ⟨(UInt8.and_assoc v 0x30 0x20).symm, (UInt8.and_assoc v 0x30 0x10).symm⟩
  cases pusher with
  | php | brk =>
    obtain ⟨hunused, hbrk⟩ := hbits _ _ r.statusWithBreak_and
    refine ⟨?_, ?_, r.statusWithBreak_flags⟩
    · simp only [status, hunused]
      decide
    · simp only [status, hbrk]
      decide
  | interrupt =>
    obtain ⟨hunused, hbrk⟩ := hbits _ _ r.statusWithoutBreak_and
    refine ⟨?_, ?_, r.statusWithoutBreak_flags⟩
    · simp only [status, hunused]
      decide
    · simp only [status, hbrk]
      decide

/-- After power-on or a reset, and whatever fails, the status has its unused bit set and its break
bit clear. The memory is asked for the bytes of a push from the stack pointer down, and for all of
them unless the call fails; the status among them has the unused bit set too, and the break bit
exactly if an instruction pushes it. -/
theorem status_of_started {p : Processor M} (h : Started p) :
    p.registers.status &&& 0x30 = 0x20 ∧
    ∀ (call : Call) pusher, call.pusher? p = some pusher → ∃ v,
      v &&& 0x20 ≠ 0 ∧ (v &&& 0x10 ≠ 0 ↔ pusher = .php ∨ pusher = .brk) ∧
      v &&& 0xCF = p.registers.status &&& 0xCF ∧
      call.written p <+: pushed p.registers.sp (pusher.bytes p.registers.pc v) ∧
      ((call.run p).answer.isOk →
        call.written p = pushed p.registers.sp (pusher.bytes p.registers.pc v)) := by
  refine ⟨fixed_of_started h, ?_⟩
  intro call pusher hpusher
  obtain ⟨hunused, hbrk, hflags⟩ := pusher.status_bits p.registers
  -- the writes are those of the same call over the recorded memory
  have hrecorded : call.pusher? p.recording = some pusher := hpusher
  obtain ⟨made, hprefix, hmade, hall⟩ := writes_run hrecorded
  have hwritten : call.written p = made := hmade
  refine ⟨_, hunused, hbrk, hflags, ?_, ?_⟩
  · rw [hwritten]
    exact hprefix
  · intro hok
    rw [(run_recording call p).1] at hok
    rw [hwritten]
    exact hall hok

/-- A memory without state in which every instruction pushes the status. -/
structure OnlyPushes where

instance : Memory OnlyPushes Empty where
  read _ := .view fun _ => 0x08
  write _ _ := .update id

/-- After an interrupt, which has disabled further ones, an instruction pushes the status. -/
theorem status_of_pushes :
    ∃ v, v &&& 0x20 ≠ 0 ∧ v &&& 0x10 ≠ 0 ∧ v &&& 0xCF = 0x04 ∧
      Call.step.written (Call.nmi.run (powerOn OnlyPushes.mk)).state = [(0x01FA, v)] := by
  have hstarted : Started (Call.nmi.run (powerOn OnlyPushes.mk)).state := .run .nmi (.powerOn _)
  obtain ⟨v, hunused, hbrk, hflags, -, hall⟩ := (status_of_started hstarted).2 .step .php rfl
  exact ⟨v, hunused, hbrk.mpr (.inl rfl), hflags, hall rfl⟩

end Processor

end Famicom
