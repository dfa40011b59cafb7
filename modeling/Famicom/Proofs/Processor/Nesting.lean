import Famicom.Proofs.Processor.Pushes
import Famicom.Proofs.Processor.Stack

/-! Calls and interrupts that are nested in one another. What an entry has pushed lies untouched
until the return that belongs to it, so that each return takes up where its entry has left off. -/

namespace Famicom.Processor

/-- The two ways to leave something off. They differ in what they push and in how they are returned
from. -/
inductive Entry
  | call | interrupt
deriving DecidableEq, Repr

/-- The bytes that an entry pushes. -/
def Entry.size : Entry → Nat
  | .call => 2
  | .interrupt => 3

/-- The operation that returns from an entry. -/
def Entry.exit : Entry → Operation
  | .call => .rts
  | .interrupt => .rti

/-- An entry that has not been returned from, with what its return owes: the stack pointer and the
status as they were, and the address to go on from. -/
structure Frame where
  entry : Entry
  sp : UInt8
  status : UInt8
  resume : UInt16
deriving DecidableEq, Repr

/-- The frame of an entry from a processor. -/
def Frame.enter (entry : Entry) (resume : UInt16) (p : Processor FlatMemory) : Frame :=
  { entry, sp := p.registers.sp, status := p.registers.status, resume }

/-- The bytes that are on the stack for some frames. -/
def depth (fs : List Frame) : Nat := (fs.map fun f => f.entry.size).sum

/-- The operation that the processor executes next. -/
def nextOperation (p : Processor FlatMemory) : Operation :=
  (Instruction.decode (p.memory.get p.registers.pc)).operation

theorem nextOperation_eq {p : Processor FlatMemory} {v : UInt8}
    (h : p.memory.get p.registers.pc = v) :
    p.nextOperation = (Instruction.decode v).operation := by
  subst h
  rfl

/-- Runs from `o` in which every return belongs to the innermost entry, with the frames of the
entries that are open, the innermost first. -/
inductive Nested (o : Processor FlatMemory) : List Frame → Processor FlatMemory → Prop
  | start : Nested o [] o
  | nmi {fs p} : Nested o fs p → depth fs + 3 ≤ 256 →
      Nested o (.enter .interrupt p.registers.pc p :: fs) (nmi p).state
  | irq {fs p} : Nested o fs p → p.registers.flag Flag.interruptDisable = false →
      depth fs + 3 ≤ 256 → Nested o (.enter .interrupt p.registers.pc p :: fs) (irq p).state
  | brk {fs p} : Nested o fs p → p.nextOperation = .brk → depth fs + 3 ≤ 256 →
      Nested o (.enter .interrupt (p.registers.pc + 2) p :: fs) (step p).state
  | call {fs p} : Nested o fs p → p.nextOperation = .jsr → depth fs + 2 ≤ 256 →
      Nested o (.enter .call (p.registers.pc + 3) p :: fs) (step p).state
  | ret {f fs p} : Nested o (f :: fs) p → p.nextOperation = f.entry.exit →
      Nested o fs (step p).state
  /-- Any other instruction leaves the stack pointer and the stack alone. -/
  | other {fs p} : Nested o fs p →
      p.nextOperation ∉ [Operation.jsr, .brk, .rts, .rti] →
      (step p).state.registers.sp = p.registers.sp →
      (∀ a, (step p).state.memory.get (stackAddress a) = p.memory.get (stackAddress a)) →
      Nested o fs (step p).state

/-- What an entry has pushed, seen from its top. -/
def Frame.Holds : Frame → List UInt8 → Prop
  | ⟨.call, _, _, resume⟩, [low, high] => word low high + 1 = resume
  | ⟨.interrupt, _, status, resume⟩, [v, low, high] =>
    v &&& ~~~Flag.brk ||| Flag.unused = status ∧ word low high = resume
  | _, _ => False

/-- The frames lie on one another from the stack pointer upwards. -/
def Stacked (m : FlatMemory) : UInt8 → List Frame → Prop
  | _, [] => True
  | sp, f :: fs =>
    f.Holds (bytesAbove m sp f.entry.size) ∧ sp + UInt8.ofNat f.entry.size = f.sp ∧
      Stacked m f.sp fs

variable {m m' : FlatMemory} {p q : Processor FlatMemory} {sp : UInt8} {f : Frame}
  {fs : List Frame} {vs : List UInt8}

theorem depth_cons (f : Frame) (fs : List Frame) : depth (f :: fs) = f.entry.size + depth fs :=
  rfl

/-- Frames lie in the bytes that are on the stack for them. -/
theorem Stacked.congr (h : Stacked m sp fs)
    (hbytes : bytesAbove m' sp (depth fs) = bytesAbove m sp (depth fs)) : Stacked m' sp fs := by
  induction fs generalizing sp with
  | nil => trivial
  | cons f fs ih =>
    obtain ⟨hholds, hsp, hrest⟩ := h
    rw [depth_cons, bytesAbove_add, bytesAbove_add, hsp] at hbytes
    obtain ⟨htop, hunder⟩ := List.append_inj hbytes (by simp only [length_bytesAbove])
    refine ⟨?_, hsp, ih hrest hunder⟩
    rw [htop]
    exact hholds

/-- The second processor is the first one with bytes pushed, whatever else has become of its
registers. -/
structure HasPushed (vs : List UInt8) (p q : Processor FlatMemory) : Prop where
  sp : q.registers.sp = (p.pushing vs).registers.sp
  memory : q.memory = (p.pushing vs).memory

/-- A frame lies on those that are there once its bytes have been pushed. -/
theorem Stacked.enter (h : Stacked p.memory p.registers.sp fs) (hpushed : HasPushed vs p q)
    (hsize : vs.length = f.entry.size) (hroom : depth fs + f.entry.size ≤ 256)
    (hsp : f.sp = p.registers.sp) (hholds : f.Holds vs.reverse) :
    Stacked q.memory q.registers.sp (f :: fs) := by
  -- the bytes from the new stack pointer on split into those of the frame and those under it
  have hback : (p.pushing vs).registers.sp + UInt8.ofNat f.entry.size = f.sp := by
    rw [← hsize, hsp, sp_pushing]
  have hbytes := bytesAbove_pushing p vs (n := depth fs) (by omega)
  rw [hsize, bytesAbove_add, hback] at hbytes
  obtain ⟨htop, hunder⟩ := List.append_inj hbytes (by
    rw [length_bytesAbove, List.length_reverse, hsize])
  rw [hpushed.memory, hpushed.sp]
  refine ⟨?_, hback, ?_⟩
  · rw [htop]
    exact hholds
  · rw [hsp] at hunder ⊢
    exact h.congr hunder

/-! What entries push and returns pull. -/

theorem execute_flat {i : Instruction}
    (hi : Instruction.decode (p.memory.get p.registers.pc) = i) :
    execute p = (do
      let operand ← operand i.mode
      let extra ← perform p.registers.pc (p.memory.get p.registers.pc) i.mode operand
        i.operation.behaviour
      return i.cycles + (if i.pagePenalty && operand.crossed then 1 else 0) + extra :
        Action (Fault Empty) (Processor FlatMemory) Nat)
      { p with registers := { p.registers with pc := p.registers.pc + 1 } } := by
  subst hi
  rfl

/-- What an instruction leaves, its step leaves, if the clock has no part in it. -/
theorem step_of_execute {P : Processor FlatMemory → Prop}
    (hclock : ∀ q cycles pending stall, P q → P (q.withClock cycles pending stall))
    (h : ∃ cost q es, execute p = ⟨.ok cost, q, es⟩ ∧ P q) :
    ∃ cost q es, step p = ⟨.ok cost, q, es⟩ ∧ P q := by
  obtain ⟨cost, q, es, hexecute, hq⟩ := h
  exact ⟨_, _, es, step_of_ok hexecute, hclock q _ _ _ hq⟩

theorem implied_of_nextOperation (h : p.nextOperation ∈ [Operation.php, .brk, .rts, .rti]) :
    (Instruction.decode (p.memory.get p.registers.pc)).mode = .implied :=
  Instruction.implied_of_operation h

theorem enter_flat (vector : UInt16) (p : Processor FlatMemory) :
    ∃ q, enter vector p = ⟨.ok (), q, []⟩ ∧ HasPushed [(p.registers.pc >>> 8).toUInt8,
      p.registers.pc.toUInt8, p.registers.statusWithoutBreak] p q :=
  ⟨_, rfl, rfl, rfl⟩

theorem hasPushed_nmi (p : Processor FlatMemory) :
    HasPushed [(p.registers.pc >>> 8).toUInt8, p.registers.pc.toUInt8,
      p.registers.statusWithoutBreak] p (nmi p).state := by
  obtain ⟨q, henter, hpushed⟩ := enter_flat nmiVector p
  obtain ⟨es, hnmi⟩ := nmi_of_entered henter
  rw [hnmi]
  exact ⟨hpushed.sp, hpushed.memory⟩

theorem pc_nmi (p : Processor FlatMemory) : (nmi p).state.registers.pc =
    word ((nmi p).state.memory.get nmiVector) ((nmi p).state.memory.get (nmiVector + 1)) :=
  rfl

theorem hasPushed_irq (h : p.registers.flag Flag.interruptDisable = false) :
    HasPushed [(p.registers.pc >>> 8).toUInt8, p.registers.pc.toUInt8,
      p.registers.statusWithoutBreak] p (irq p).state := by
  obtain ⟨q, henter, hpushed⟩ := enter_flat irqVector p
  obtain ⟨es, hirq⟩ := irq_of_entered h henter
  rw [hirq]
  exact ⟨hpushed.sp, hpushed.memory⟩

theorem hasPushed_brk (h : p.nextOperation = .brk) :
    HasPushed [((p.registers.pc + 2) >>> 8).toUInt8, (p.registers.pc + 2).toUInt8,
      p.registers.statusWithBreak] p (step p).state := by
  have hmode := implied_of_nextOperation (p := p) (by rw [h]; decide)
  have hskip : p.registers.pc + 1 + 1 = p.registers.pc + 2 := UInt16.add_assoc _ 1 1
  obtain ⟨cost, q, es, hstep, hpushed⟩ :=
    step_of_execute (p := p) (P := HasPushed [((p.registers.pc + 1 + 1) >>> 8).toUInt8,
      (p.registers.pc + 1 + 1).toUInt8, p.registers.statusWithBreak] p)
      (fun _ _ _ _ hq => ⟨hq.sp, hq.memory⟩) (by
        rw [execute_flat rfl, hmode, show (Instruction.decode _).operation = .brk from h]
        exact ⟨_, _, _, rfl, rfl, rfl⟩)
  rw [hstep, ← hskip]
  exact hpushed

/-- A call pushes the address of its own last byte. -/
theorem hasPushed_call (h : p.nextOperation = .jsr) :
    HasPushed [((p.registers.pc + 2) >>> 8).toUInt8, (p.registers.pc + 2).toUInt8] p
      (step p).state := by
  have hmode := Instruction.absolute_of_operation h
  have hlast : p.registers.pc + 1 + 1 + 1 - 1 = p.registers.pc + 2 := by
    rw [UInt16.add_sub_cancel, UInt16.add_assoc]
    rfl
  obtain ⟨cost, q, es, hstep, hpushed⟩ :=
    step_of_execute (p := p) (P := HasPushed [((p.registers.pc + 1 + 1 + 1 - 1) >>> 8).toUInt8,
      (p.registers.pc + 1 + 1 + 1 - 1).toUInt8] p)
      (fun _ _ _ _ hq => ⟨hq.sp, hq.memory⟩) (by
        rw [execute_flat rfl, hmode, show (Instruction.decode _).operation = .jsr from h]
        exact ⟨_, _, _, rfl, rfl, rfl⟩)
  rw [hstep, ← hlast]
  exact hpushed

/-- A call goes to the address behind its opcode. -/
theorem pc_call (h : p.nextOperation = .jsr) : (step p).state.registers.pc =
    word (p.memory.get (p.registers.pc + 1)) (p.memory.get (p.registers.pc + 1 + 1)) := by
  have hmode := Instruction.absolute_of_operation h
  obtain ⟨cost, q, es, hstep, hpc⟩ :=
    step_of_execute (p := p) (P := fun q => q.registers.pc =
      word (p.memory.get (p.registers.pc + 1)) (p.memory.get (p.registers.pc + 1 + 1)))
      (fun _ _ _ _ hq => hq) (by
        rw [execute_flat rfl, hmode, show (Instruction.decode _).operation = .jsr from h]
        exact ⟨_, _, _, rfl, rfl⟩)
  rw [hstep]
  exact hpc

theorem step_of_rts (h : p.nextOperation = .rts) :
    ∃ cost q es, step p = ⟨.ok cost, q, es⟩ ∧ q.memory = p.memory ∧
      q.registers.sp = p.registers.sp + 1 + 1 ∧
      q.registers.pc = word (p.memory.get (stackAddress (p.registers.sp + 1)))
        (p.memory.get (stackAddress (p.registers.sp + 1 + 1))) + 1 := by
  have hmode := implied_of_nextOperation (p := p) (by rw [h]; decide)
  refine step_of_execute (fun _ _ _ _ hq => hq) ?_
  rw [execute_flat rfl, hmode, show (Instruction.decode _).operation = .rts from h]
  exact ⟨_, _, _, rfl, rfl, rfl, rfl⟩

theorem step_of_rti (h : p.nextOperation = .rti) :
    ∃ cost q es, step p = ⟨.ok cost, q, es⟩ ∧ q.memory = p.memory ∧
      q.registers.sp = p.registers.sp + 1 + 1 + 1 ∧
      q.registers.status =
        p.memory.get (stackAddress (p.registers.sp + 1)) &&& ~~~Flag.brk ||| Flag.unused ∧
      q.registers.pc = word (p.memory.get (stackAddress (p.registers.sp + 1 + 1)))
        (p.memory.get (stackAddress (p.registers.sp + 1 + 1 + 1))) := by
  have hmode := implied_of_nextOperation (p := p) (by rw [h]; decide)
  refine step_of_execute (fun _ _ _ _ hq => hq) ?_
  rw [execute_flat rfl, hmode, show (Instruction.decode _).operation = .rti from h]
  exact ⟨_, _, _, rfl, rfl, rfl, rfl, rfl⟩

/-- A return takes its frame from the stack and goes on where the entry has left off. -/
theorem step_of_exit (h : p.nextOperation = f.entry.exit)
    (hstacked : Stacked p.memory p.registers.sp (f :: fs)) :
    ∃ cost q es, step p = ⟨.ok cost, q, es⟩ ∧ q.memory = p.memory ∧ q.registers.sp = f.sp ∧
      q.registers.pc = f.resume ∧ (f.entry = .interrupt → q.registers.status = f.status) := by
  obtain ⟨hholds, hsp, -⟩ := hstacked
  obtain ⟨entry, sp, status, resume⟩ := f
  cases entry with
  | call =>
    obtain ⟨cost, q, es, hstep, hmemory, hq, hpc⟩ := step_of_rts h
    refine ⟨cost, q, es, hstep, hmemory, ?_, hpc.trans hholds, nofun⟩
    rw [hq, UInt8.add_assoc]
    exact hsp
  | interrupt =>
    obtain ⟨cost, q, es, hstep, hmemory, hq, hstatus, hpc⟩ := step_of_rti h
    refine ⟨cost, q, es, hstep, hmemory, ?_, hpc.trans hholds.2, fun _ => hstatus.trans hholds.1⟩
    rw [hq, UInt8.add_assoc, UInt8.add_assoc]
    exact hsp

/-! What a nested run keeps. -/

/-- The status comes back from the stack if its flags have been pushed. -/
theorem status_of_flags {r : Registers} {v : UInt8} (hfixed : r.Fixed)
    (h : v &&& 0xCF = r.status &&& 0xCF) : v &&& ~~~Flag.brk ||| Flag.unused = r.status := by
  -- the two bits that are no flags are not taken from the stack
  refine Bits.eq_of_and (m := 0x30) ((Registers.setStatus_and (r := r) v).trans hfixed.symm) ?_
  change _ &&& 0xCF = r.status &&& 0xCF
  rw [Bits.or_and_of_disjoint _ (by decide), Bits.and_not_and_of_disjoint _ (by decide), h]

theorem fixed_step (h : p.registers.Fixed) : (step p).state.registers.Fixed := by
  have hrun := fixed_run .step h
  rwa [run_step] at hrun

/-- An interrupt pushes the address that it comes from behind a status with the flags of its own. -/
theorem Stacked.interrupt {resume : UInt16} {v : UInt8} (h : Stacked p.memory p.registers.sp fs)
    (hfixed : p.registers.Fixed) (hroom : depth fs + 3 ≤ 256)
    (hv : v &&& 0xCF = p.registers.status &&& 0xCF)
    (hpushed : HasPushed [(resume >>> 8).toUInt8, resume.toUInt8, v] p q) :
    Stacked q.memory q.registers.sp (.enter .interrupt resume p :: fs) :=
  h.enter hpushed rfl hroom rfl ⟨status_of_flags hfixed hv, word_halves resume⟩

/-- The frames of the open entries lie on the stack. -/
theorem stacked_of_nested {o : Processor FlatMemory} (ho : o.registers.Fixed)
    (h : Nested o fs p) : p.registers.Fixed ∧ Stacked p.memory p.registers.sp fs := by
  -- the fixed bits are carried along, since a status is restored only if they were right before it
  induction h with
  | start => exact ⟨ho, trivial⟩
  | @nmi fs p _ hroom ih =>
    exact ⟨fixed_run .nmi ih.1,
      ih.2.interrupt ih.1 hroom p.registers.statusWithoutBreak_flags (hasPushed_nmi p)⟩
  | @irq fs p _ hon hroom ih =>
    exact ⟨fixed_run .irq ih.1,
      ih.2.interrupt ih.1 hroom p.registers.statusWithoutBreak_flags (hasPushed_irq hon)⟩
  | @brk fs p _ hop hroom ih =>
    exact ⟨fixed_step ih.1,
      ih.2.interrupt ih.1 hroom p.registers.statusWithBreak_flags (hasPushed_brk hop)⟩
  | @call fs p _ hop hroom ih =>
    refine ⟨fixed_step ih.1, ih.2.enter (hasPushed_call hop) rfl hroom rfl ?_⟩
    change word _ _ + 1 = _
    rw [word_halves, UInt16.add_assoc]
    rfl
  | @ret f fs p _ hop ih =>
    obtain ⟨cost, q, es, hstep, hmemory, hsp, -⟩ := step_of_exit hop ih.2
    refine ⟨fixed_step ih.1, ?_⟩
    rw [hstep, hmemory, hsp]
    exact ih.2.2.2
  | other _ _ hsp hmemory ih =>
    refine ⟨fixed_step ih.1, ?_⟩
    rw [hsp]
    exact ih.2.congr (bytesAbove_congr hmemory)

/-- However calls and interrupts are nested, and wherever the stack pointer wraps around, each
return answers, and it leaves the stack pointer as its entry has found it and the program counter at
the address that the entry owes. A return from an interrupt also leaves the status as the interrupt
has found it. -/
theorem returns_of_nested {o : Processor FlatMemory} (ho : o.registers.status &&& 0x30 = 0x20)
    (h : Nested o (f :: fs) p) (hop : p.nextOperation = f.entry.exit) :
    ∃ cost q es, step p = ⟨.ok cost, q, es⟩ ∧ q.registers.sp = f.sp ∧ q.registers.pc = f.resume ∧
      (f.entry = .interrupt → q.registers.status = f.status) ∧ Nested o fs q := by
  obtain ⟨cost, q, es, hstep, -, hsp, hpc, hstatus⟩ := step_of_exit hop (stacked_of_nested ho h).2
  refine ⟨cost, q, es, hstep, hsp, hpc, hstatus, ?_⟩
  have hret := Nested.ret h hop
  rwa [hstep] at hret

/-- A handler at `0x4040` that calls a routine, which returns at once, and returns itself then. -/
def handler : FlatMemory := ⟨.ofFn fun i =>
  if i.val = 0x4040 then 0x20
  else if i.val = 0x4041 then 0x50
  else if i.val = 0x4050 then 0x60
  else 0x40⟩

theorem get_handler (a : UInt16) : handler.get a =
    if a.toNat = 0x4040 then 0x20
    else if a.toNat = 0x4041 then 0x50
    else if a.toNat = 0x4050 then 0x60
    else 0x40 :=
  Vector.getElem_ofFn _

/-- A processor whose interrupts lead to the handler, and with two bytes of room before its stack
pointer wraps around. -/
def uninterrupted : Processor FlatMemory :=
  { powerOn handler with registers := { Registers.powerOn with sp := 1, pc := 0x1234 } }

/-- The routine returns to the handler, and the handler to what the interrupt has left off, across
the wrap of the stack pointer. -/
theorem returns_of_handler : ∃ cost q es cost' q' es',
    step (step (nmi uninterrupted).state).state = ⟨.ok cost, q, es⟩ ∧
    q.registers.sp = 0xFE ∧ q.registers.pc = 0x4043 ∧ step q = ⟨.ok cost', q', es'⟩ ∧
    q'.registers.sp = 1 ∧ q'.registers.pc = 0x1234 ∧ q'.registers.status = 0x24 := by
  -- the entries push into the page of the stack only, where the program does not lie
  have hget : ∀ a : UInt16, 0x200 ≤ a.toNat →
      (nmi uninterrupted).state.memory.get a = handler.get a := by
    intro a ha
    rw [(hasPushed_nmi uninterrupted).memory, get_pushing ha]
    rfl
  have hpc : (nmi uninterrupted).state.registers.pc = 0x4040 := by
    rw [pc_nmi, hget _ (by decide), hget _ (by decide), get_handler, get_handler]
    decide
  have hcall : (nmi uninterrupted).state.nextOperation = .jsr := by
    refine nextOperation_eq (v := 0x20) ?_
    rw [hpc, hget _ (by decide), get_handler]
    decide
  have hget' : ∀ a : UInt16, 0x200 ≤ a.toNat →
      (step (nmi uninterrupted).state).state.memory.get a = handler.get a := by
    intro a ha
    rw [(hasPushed_call hcall).memory, get_pushing ha, hget a ha]
  have hpc' : (step (nmi uninterrupted).state).state.registers.pc = 0x4050 := by
    rw [pc_call hcall, hpc, hget _ (by decide), hget _ (by decide), get_handler, get_handler]
    decide
  have hreturn : (step (nmi uninterrupted).state).state.nextOperation = .rts := by
    refine nextOperation_eq (v := 0x60) ?_
    rw [hpc', hget' _ (by decide), get_handler]
    decide
  have hnested := Nested.call (.nmi (.start (o := uninterrupted)) (by decide)) hcall (by decide)
  obtain ⟨cost, q, es, hstep, hsp, hresume, -, hrest⟩ :=
    returns_of_nested (by decide) hnested hreturn
  -- the return has not written, so that the handler still ends in its own return
  obtain ⟨cost', q', es', hstep', hmemory, -⟩ := step_of_rts hreturn
  rw [hstep] at hstep'
  cases hstep'
  have hpc'' : q.registers.pc = 0x4043 := by
    rw [hresume]
    change (nmi uninterrupted).state.registers.pc + 3 = _
    rw [hpc]
    rfl
  have hexit : q.nextOperation = .rti := by
    refine nextOperation_eq (v := 0x40) ?_
    rw [hpc'', hmemory, hget' _ (by decide), get_handler]
    decide
  obtain ⟨cost', q', es', hstep', hsp', hresume', hstatus, -⟩ :=
    returns_of_nested (by decide) hrest hexit
  exact ⟨cost, q, es, cost', q', es', hstep, hsp, hpc'', hstep', hsp', hresume', hstatus rfl⟩

end Famicom.Processor
