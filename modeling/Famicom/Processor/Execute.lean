import Famicom.Processor.Operand
import Famicom.Processor.Behaviour

/-!
One instruction, from its opcode to its cost.
-/

namespace Famicom.Processor

def nmiVector : UInt16 := 0xFFFA

def resetVector : UInt16 := 0xFFFC

def irqVector : UInt16 := 0xFFFE

variable {M ε : Type} [Memory M ε]

/-- Goes to the address that a vector holds. -/
def followVector (vector : UInt16) : Action (Fault ε) (Processor M) Unit := do
  let target ← readWord vector (vector + 1)
  update fun r => { r with pc := target }

/-- Reads the operand, which may be the accumulator. -/
def readOperand (mode : Mode) (addr : UInt16) : Action (Fault ε) (Processor M) UInt8 :=
  if mode = .accumulator then view (·.a) else read addr

/-- Writes the operand, which may be the accumulator. -/
def writeOperand (mode : Mode) (addr : UInt16) (v : UInt8) :
    Action (Fault ε) (Processor M) Unit :=
  if mode = .accumulator then update fun r => { r with a := v } else write addr v

/-- Does what an operation does to its operand, and answers the cycles that a branch adds: one if
it is taken and one more if it leaves the page. -/
def perform (start : UInt16) (opcode : UInt8) (mode : Mode) (operand : Operand) :
    Behaviour → Action (Fault ε) (Processor M) Nat
  | .internal f => do
    update f
    return 0
  | .load f => do
    let v ← read operand.addr
    update fun r => f r v
    return 0
  | .store f => do
    let (v, r) ← view fun r => f r operand.addr
    update fun _ => r
    write operand.addr v
    return 0
  | .modify change settle => do
    let v ← readOperand mode operand.addr
    let (w, r) ← view fun r => change r v
    update fun _ => r
    writeOperand mode operand.addr w
    update fun r => settle r w
    return 0
  | .branch taken => do
    if ← view taken then
      update fun r => { r with pc := operand.addr }
      return if operand.crossed then 2 else 1
    else
      return 0
  | .push value => do
    push (← view value)
    return 0
  | .pull f => do
    let v ← pull
    update fun r => f r v
    return 0
  | .jump => do
    update fun r => { r with pc := operand.addr }
    return 0
  | .call => do
    pushWord ((← view (·.pc)) - 1)
    update fun r => { r with pc := operand.addr }
    return 0
  | .ret => do
    let addr ← pullWord
    update fun r => { r with pc := addr + 1 }
    return 0
  | .returnFromInterrupt => do
    let status ← pull
    update (·.setStatus status)
    let addr ← pullWord
    update fun r => { r with pc := addr }
    return 0
  | .brk => do
    -- the byte after the opcode is skipped on return
    pushWord ((← view (·.pc)) + 1)
    push (← view (·.statusWithBreak))
    update (·.setFlag Flag.interruptDisable true)
    followVector irqVector
    .report (.brk start (← view (·.pc)))
    return 0
  | .jam => do
    update fun r => { r with pc := start }
    .report (.jam opcode start)
    .fail (.jammed opcode start)

/-- Executes the instruction at the program counter and answers its cost in cycles. -/
def execute : Action (Fault ε) (Processor M) Nat := do
  let start ← view (·.pc)
  let opcode ← fetch
  let instruction := Instruction.decode opcode
  let operand ← operand instruction.mode
  let extra ← perform start opcode instruction.mode operand instruction.operation.behaviour
  let penalty := if instruction.pagePenalty && operand.crossed then 1 else 0
  return instruction.cycles + penalty + extra

end Famicom.Processor
