import Famicom.Processor.Basic
import Famicom.Processor.Instruction

/-!
Finding the operand of an instruction. Indexing in page zero stays in page zero, and the pointer
of an indirect jump stays in its page.
-/

namespace Famicom.Processor

structure Operand where
  addr : UInt16
  /-- Whether indexing or branching left the page. -/
  crossed : Bool
deriving DecidableEq, Repr

def pagesDiffer (a b : UInt16) : Bool := a &&& 0xFF00 != b &&& 0xFF00

namespace Operand

def plain (addr : UInt16) : Operand := ⟨addr, false⟩

def indexed (base : UInt16) (index : UInt8) : Operand :=
  let addr := base + index.toUInt16
  ⟨addr, pagesDiffer base addr⟩

/-- The target of a branch, counted from the instruction after it. -/
def branch (pc : UInt16) (offset : UInt8) : Operand :=
  let target := pc + offset.toInt8.toInt16.toUInt16
  ⟨target, pagesDiffer pc target⟩

end Operand

variable {M ε : Type} [Memory M ε]

/-- A word in page zero. -/
def readZeroPageWord (ptr : UInt8) : Action (Fault ε) (Processor M) UInt16 :=
  readWord ptr.toUInt16 (ptr + 1).toUInt16

def operand : Mode → Action (Fault ε) (Processor M) Operand
  | .implied | .accumulator => return .plain 0
  | .immediate => do
    let addr ← view (·.pc)
    update fun r => { r with pc := r.pc + 1 }
    return .plain addr
  | .zeroPage => do
    let zp ← fetch
    return .plain zp.toUInt16
  | .zeroPageX => do
    let zp ← fetch
    return .plain (zp + (← view (·.x))).toUInt16
  | .zeroPageY => do
    let zp ← fetch
    return .plain (zp + (← view (·.y))).toUInt16
  | .absolute => do
    let addr ← fetchWord
    return .plain addr
  | .absoluteX => do
    let base ← fetchWord
    return .indexed base (← view (·.x))
  | .absoluteY => do
    let base ← fetchWord
    return .indexed base (← view (·.y))
  | .indirect => do
    let ptr ← fetchWord
    let addr ← readWord ptr (nextInPage ptr)
    return .plain addr
  | .indirectX => do
    let zp ← fetch
    let addr ← readZeroPageWord (zp + (← view (·.x)))
    return .plain addr
  | .indirectY => do
    let zp ← fetch
    let base ← readZeroPageWord zp
    return .indexed base (← view (·.y))
  | .relative => do
    let offset ← fetch
    return .branch (← view (·.pc)) offset

end Famicom.Processor
