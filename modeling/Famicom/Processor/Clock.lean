import Famicom.Processor.Execute

/-!
Running a processor, by whole instructions or by single cycles. An instruction takes effect in
its first cycle, and the rest of its cost is owed; interrupts and transfers add to what is owed.
-/

namespace Famicom.Processor

def interruptCycles : UInt32 := 7

def transferCycles : UInt32 := 513

variable {M ε : Type} [Memory M ε]

def reset : Action (Fault ε) (Processor M) Unit := do
  .update fun p =>
    { Processor.powerOn p.memory with registers := { Registers.powerOn with pc := p.registers.pc } }
  followVector resetVector
  .report (.reset (← view (·.pc)))

def interrupt (vector : UInt16) : Action (Fault ε) (Processor M) Unit := do
  pushWord (← view (·.pc))
  push (← view (·.statusWithoutBreak))
  update (·.setFlag Flag.interruptDisable true)
  followVector vector
  .update fun p => { p with pending := p.pending + interruptCycles }

def nmi : Action (Fault ε) (Processor M) Unit := do
  let source ← view (·.pc)
  interrupt nmiVector
  .report (.nmi source (← view (·.pc)))

/-- Does nothing while interrupts are disabled. -/
def irq : Action (Fault ε) (Processor M) Unit := do
  if ← view (·.flag Flag.interruptDisable) then
    return
  let source ← view (·.pc)
  interrupt irqVector
  .report (.irq source (← view (·.pc)))

omit [Memory M ε] in
/-- Stalls for a transfer of 256 bytes, one cycle longer if it starts on an odd cycle. -/
def transfer (p : Processor M) : Processor M :=
  { p with stall := p.stall + (transferCycles + (p.cycles % 2).toUInt32) }

/-- Executes one instruction after all that is owed, and answers the cycles that both took. -/
def step : Action (Fault ε) (Processor M) UInt32 := do
  let owed ← .view fun p => p.pending + p.stall
  .update fun p => { p with pending := 0, stall := 0 }
  let cost ← execute
  let used := owed + .ofNat cost
  .update fun p => { p with cycles := p.cycles + used.toUInt64 }
  return used

/-- Lets one cycle pass. -/
def cycle : Action (Fault ε) (Processor M) Unit := do
  .update fun p => { p with cycles := p.cycles + 1 }
  if (← .view (·.stall)) > 0 then
    .update fun p => { p with stall := p.stall - 1 }
  else
    if (← .view (·.pending)) = 0 then
      let cost ← execute
      .update fun p => { p with pending := .ofNat cost }
    .update fun p => { p with pending := p.pending - 1 }

end Famicom.Processor
