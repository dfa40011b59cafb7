import Famicom.Processor.Memory
import Famicom.Processor.Registers

/-!
A processor wired to a memory, and the accesses that its instructions are made of: fetches,
pointers and the stack. An access that the memory refuses ends the instruction.
-/

namespace Famicom

structure Processor (M : Type) where
  registers : Registers
  /-- The cycles that have passed. -/
  cycles : UInt64
  /-- The cycles still owed by the last instruction or interrupt. -/
  pending : UInt32
  /-- The cycles for which a transfer keeps the processor off the bus. -/
  stall : UInt32
  memory : M

namespace Processor

variable {M ε α : Type}

/-- A processor that has just been switched on, with its reset vector not yet read. -/
def powerOn (memory : M) : Processor M :=
  { registers := .powerOn, cycles := 0, pending := 0, stall := 0, memory }

/-- An operation of the memory, done by the processor. -/
@[inline] def onMemory (x : Action ε M α) : Action (Fault ε) (Processor M) α :=
  fun ⟨registers, cycles, pending, stall, memory⟩ =>
    match x memory with
    | ⟨.ok a, memory, es⟩ => ⟨.ok a, ⟨registers, cycles, pending, stall, memory⟩, es⟩
    | ⟨.error e, memory, es⟩ =>
      ⟨.error (.memory e), ⟨registers, cycles, pending, stall, memory⟩, es⟩

@[inline] def view (f : Registers → α) : Action (Fault ε) (Processor M) α :=
  .view fun p => f p.registers

@[inline] def update (f : Registers → Registers) : Action (Fault ε) (Processor M) Unit :=
  .update fun p => { p with registers := f p.registers }

variable [Memory M ε]

def read (addr : UInt16) : Action (Fault ε) (Processor M) UInt8 := onMemory (Memory.read addr)

def write (addr : UInt16) (v : UInt8) : Action (Fault ε) (Processor M) Unit :=
  onMemory (Memory.write addr v)

def word (low high : UInt8) : UInt16 := high.toUInt16 <<< 8 ||| low.toUInt16

/-- A word in two bytes, the low one first. -/
def readWord (low high : UInt16) : Action (Fault ε) (Processor M) UInt16 := do
  let l ← read low
  let h ← read high
  return word l h

/-- The address after `addr` without leaving its page. -/
def nextInPage (addr : UInt16) : UInt16 := addr &&& 0xFF00 ||| (addr + 1) &&& 0x00FF

def fetch : Action (Fault ε) (Processor M) UInt8 := do
  let v ← read (← view (·.pc))
  update fun r => { r with pc := r.pc + 1 }
  return v

def fetchWord : Action (Fault ε) (Processor M) UInt16 := do
  let l ← fetch
  let h ← fetch
  return word l h

def stackAddress (sp : UInt8) : UInt16 := 0x0100 ||| sp.toUInt16

def push (v : UInt8) : Action (Fault ε) (Processor M) Unit := do
  write (stackAddress (← view (·.sp))) v
  update fun r => { r with sp := r.sp - 1 }

def pull : Action (Fault ε) (Processor M) UInt8 := do
  update fun r => { r with sp := r.sp + 1 }
  read (stackAddress (← view (·.sp)))

/-- Pushes the high byte first, so that the word lies in memory with its low byte first. -/
def pushWord (w : UInt16) : Action (Fault ε) (Processor M) Unit := do
  push (w >>> 8).toUInt8
  push w.toUInt8

def pullWord : Action (Fault ε) (Processor M) UInt16 := do
  let l ← pull
  let h ← pull
  return word l h

end Processor

end Famicom
