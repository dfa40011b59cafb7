import Famicom.Processor.Instruction
import Famicom.Processor.Registers

/-!
What the operations do, apart from the accesses: each operation is a function on the registers,
filed under the way in which it uses its operand.
-/

namespace Famicom

/-- The ways in which an operation uses its operand. -/
inductive Behaviour
  /-- Works on the registers alone. -/
  | internal (f : Registers → Registers)
  /-- Reads the operand. -/
  | load (f : Registers → UInt8 → Registers)
  /-- Writes the operand; the value may depend on its address. -/
  | store (f : Registers → UInt16 → UInt8 × Registers)
  /-- Reads the operand, writes it back changed, and then works on with the written value. -/
  | modify (change : Registers → UInt8 → UInt8 × Registers)
      (settle : Registers → UInt8 → Registers)
  /-- Goes to the operand under a condition. -/
  | branch (taken : Registers → Bool)
  | push (value : Registers → UInt8)
  | pull (f : Registers → UInt8 → Registers)
  | jump
  | call
  | ret
  | returnFromInterrupt
  | brk
  | jam

namespace Behaviour

/-- Loads a byte computed from the registers and the operand into the accumulator. -/
def accumulate (f : UInt8 → UInt8 → UInt8) : Behaviour := .load fun r m => r.setA (f r.a m)

/-- Writes a register. -/
def storing (f : Registers → UInt8) : Behaviour := .store fun r _ => (f r, r)

/-- Writes a value masked by the page after that of the operand. -/
def storingMasked (f : Registers → UInt8) : Behaviour :=
  .store fun r addr => (f r &&& ((addr >>> 8).toUInt8 + 1), r)

/-- Adds to the operand before anything else is done with it. -/
def counting (step : UInt8) (settle : Registers → UInt8 → Registers) : Behaviour :=
  .modify (fun r v => (v + step, r)) settle

def shifting (shift : Registers → UInt8 → Bool → UInt8 × Registers) (carryIn : Registers → Bool)
    (settle : Registers → UInt8 → Registers) : Behaviour :=
  .modify (fun r v => shift r v (carryIn r)) settle

end Behaviour

open Registers in
/-- A rotation to the right that takes its flags from the upper bits of the result. -/
def Registers.rotateMasked (r : Registers) (m : UInt8) : Registers :=
  let v := (r.a &&& m) >>> 1 ||| (r.flag Flag.carry).toUInt8 <<< 7
  let bit6 := v &&& 0x40 != 0
  let bit5 := v &&& 0x20 != 0
  ((r.setA v).setFlag Flag.carry bit6).setFlag Flag.overflow (bit6 != bit5)

/-- The bits of the operand, tested but not kept. -/
def Registers.testBits (r : Registers) (m : UInt8) : Registers :=
  ((r.setFlag Flag.zero (r.a &&& m == 0)).setFlag Flag.overflow (m &&& 0x40 != 0)).setFlag
    Flag.negative (m &&& 0x80 != 0)

open Behaviour in
def Operation.behaviour : Operation → Behaviour
  | .lda => .load Registers.setA
  | .ldx => .load Registers.setX
  | .ldy => .load Registers.setY
  | .sta => storing (·.a)
  | .stx => storing (·.x)
  | .sty => storing (·.y)
  | .tax => .internal fun r => r.setX r.a
  | .tay => .internal fun r => r.setY r.a
  | .txa => .internal fun r => r.setA r.x
  | .tya => .internal fun r => r.setA r.y
  | .tsx => .internal fun r => r.setX r.sp
  | .txs => .internal fun r => { r with sp := r.x }
  | .pha => .push (·.a)
  | .php => .push (·.statusWithBreak)
  | .pla => .pull Registers.setA
  | .plp => .pull Registers.setStatus
  | .adc => .load Registers.addWithCarry
  | .sbc => .load Registers.subtractWithBorrow
  | .and => accumulate (· &&& ·)
  | .ora => accumulate (· ||| ·)
  | .eor => accumulate (· ^^^ ·)
  | .bit => .load Registers.testBits
  | .cmp => .load fun r m => r.compare r.a m
  | .cpx => .load fun r m => r.compare r.x m
  | .cpy => .load fun r m => r.compare r.y m
  | .inc => counting 1 Registers.setZeroNegative
  | .dec => counting (-1) Registers.setZeroNegative
  | .inx => .internal fun r => r.setX (r.x + 1)
  | .iny => .internal fun r => r.setY (r.y + 1)
  | .dex => .internal fun r => r.setX (r.x - 1)
  | .dey => .internal fun r => r.setY (r.y - 1)
  | .asl => shifting Registers.shiftLeft (fun _ => false) fun r _ => r
  | .lsr => shifting Registers.shiftRight (fun _ => false) fun r _ => r
  | .rol => shifting Registers.shiftLeft (·.flag Flag.carry) fun r _ => r
  | .ror => shifting Registers.shiftRight (·.flag Flag.carry) fun r _ => r
  | .jmp => .jump
  | .jsr => .call
  | .rts => .ret
  | .rti => .returnFromInterrupt
  | .brk => .brk
  | .bcc => .branch fun r => !r.flag Flag.carry
  | .bcs => .branch (·.flag Flag.carry)
  | .bne => .branch fun r => !r.flag Flag.zero
  | .beq => .branch (·.flag Flag.zero)
  | .bpl => .branch fun r => !r.flag Flag.negative
  | .bmi => .branch (·.flag Flag.negative)
  | .bvc => .branch fun r => !r.flag Flag.overflow
  | .bvs => .branch (·.flag Flag.overflow)
  | .clc => .internal (·.setFlag Flag.carry false)
  | .sec => .internal (·.setFlag Flag.carry true)
  | .cli => .internal (·.setFlag Flag.interruptDisable false)
  | .sei => .internal (·.setFlag Flag.interruptDisable true)
  | .cld => .internal (·.setFlag Flag.decimal false)
  | .sed => .internal (·.setFlag Flag.decimal true)
  | .clv => .internal (·.setFlag Flag.overflow false)
  | .nop => .internal fun r => r
  | .lax => .load fun r m => { r with x := m }.setA m
  | .sax => storing fun r => r.a &&& r.x
  | .dcp => counting (-1) fun r v => r.compare r.a v
  | .isc => counting 1 Registers.subtractWithBorrow
  | .slo => shifting Registers.shiftLeft (fun _ => false) fun r v => r.setA (r.a ||| v)
  | .rla => shifting Registers.shiftLeft (·.flag Flag.carry) fun r v => r.setA (r.a &&& v)
  | .sre => shifting Registers.shiftRight (fun _ => false) fun r v => r.setA (r.a ^^^ v)
  | .rra => shifting Registers.shiftRight (·.flag Flag.carry) Registers.addWithCarry
  | .anc => .load fun r m =>
    let r := r.setA (r.a &&& m)
    r.setFlag Flag.carry (r.a &&& 0x80 != 0)
  | .alr => .load fun r m =>
    let (v, r) := r.shiftRight (r.a &&& m) false
    { r with a := v }
  | .arr => .load Registers.rotateMasked
  | .axs => .load fun r m =>
    (r.setFlag Flag.carry (m ≤ r.a &&& r.x)).setX ((r.a &&& r.x) - m)
  | .las => .load fun r m =>
    let v := m &&& r.sp
    { r with x := v, sp := v }.setA v
  | .xaa => .load fun r m => r.setA ((r.a ||| 0xEE) &&& r.x &&& m)
  | .ahx => storingMasked fun r => r.a &&& r.x
  | .shx => storingMasked (·.x)
  | .shy => storingMasked (·.y)
  | .tas => .store fun r addr =>
    let sp := r.a &&& r.x
    (sp &&& ((addr >>> 8).toUInt8 + 1), { r with sp := sp })
  | .jam => .jam

end Famicom
