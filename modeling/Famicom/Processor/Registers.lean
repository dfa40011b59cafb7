/-!
The registers of the 6502 and the arithmetic that its instructions perform on them. Decimal mode
is a flag that can be set and cleared; arithmetic is binary whatever it says.
-/

namespace Famicom

namespace Flag

def carry : UInt8 := 0x01
def zero : UInt8 := 0x02
def interruptDisable : UInt8 := 0x04
def decimal : UInt8 := 0x08
def brk : UInt8 := 0x10
def unused : UInt8 := 0x20
def overflow : UInt8 := 0x40
def negative : UInt8 := 0x80

end Flag

structure Registers where
  a : UInt8
  x : UInt8
  y : UInt8
  sp : UInt8
  status : UInt8
  pc : UInt16
deriving DecidableEq, Repr

namespace Registers

/-- The registers at power-on, before the reset vector is read. -/
def powerOn : Registers :=
  { a := 0, x := 0, y := 0, sp := 0xFD, status := Flag.unused ||| Flag.interruptDisable, pc := 0 }

def flag (r : Registers) (mask : UInt8) : Bool := r.status &&& mask != 0

def setFlag (r : Registers) (mask : UInt8) (on : Bool) : Registers :=
  { r with status := if on then r.status ||| mask else r.status &&& ~~~mask }

/-- The zero and negative flags describe `v`. -/
def setZeroNegative (r : Registers) (v : UInt8) : Registers :=
  (r.setFlag Flag.zero (v == 0)).setFlag Flag.negative (v &&& 0x80 != 0)

def setA (r : Registers) (v : UInt8) : Registers := { r with a := v }.setZeroNegative v

def setX (r : Registers) (v : UInt8) : Registers := { r with x := v }.setZeroNegative v

def setY (r : Registers) (v : UInt8) : Registers := { r with y := v }.setZeroNegative v

/-- A status byte from the stack: the break flag is not kept, and the unused flag always reads 1. -/
def setStatus (r : Registers) (v : UInt8) : Registers :=
  { r with status := v &&& ~~~Flag.brk ||| Flag.unused }

/-- The status byte that an instruction pushes. -/
def statusWithBreak (r : Registers) : UInt8 := r.status ||| Flag.brk ||| Flag.unused

/-- The status byte that an interrupt pushes. -/
def statusWithoutBreak (r : Registers) : UInt8 := r.status &&& ~~~Flag.brk ||| Flag.unused

/-- The carry flag as a number. -/
def carry (r : Registers) : Nat := (r.status &&& Flag.carry).toNat

/-- A signed result that does not fit into a byte. -/
def overflows (signed : Int) : Bool := signed < -128 || 127 < signed

def addWithCarry (r : Registers) (m : UInt8) : Registers :=
  let sum := r.a.toNat + m.toNat + r.carry
  let signed := r.a.toInt8.toInt + m.toInt8.toInt + r.carry
  ((r.setFlag Flag.carry (0xFF < sum)).setFlag Flag.overflow (overflows signed)).setA
    (UInt8.ofNat sum)

def subtractWithBorrow (r : Registers) (m : UInt8) : Registers :=
  let borrow := 1 - r.carry
  let signed := r.a.toInt8.toInt - m.toInt8.toInt - borrow
  ((r.setFlag Flag.carry (m.toNat + borrow ≤ r.a.toNat)).setFlag Flag.overflow
    (overflows signed)).setA (r.a - m - UInt8.ofNat borrow)

def compare (r : Registers) (value m : UInt8) : Registers :=
  (r.setFlag Flag.carry (m ≤ value)).setZeroNegative (value - m)

/-- One bit to the left; the carry takes the bit that falls out. -/
def shiftLeft (r : Registers) (v : UInt8) (carryIn : Bool) : UInt8 × Registers :=
  let shifted := v <<< 1 ||| carryIn.toUInt8
  (shifted, (r.setFlag Flag.carry (v &&& 0x80 != 0)).setZeroNegative shifted)

/-- One bit to the right; the carry takes the bit that falls out. -/
def shiftRight (r : Registers) (v : UInt8) (carryIn : Bool) : UInt8 × Registers :=
  let shifted := v >>> 1 ||| carryIn.toUInt8 <<< 7
  (shifted, (r.setFlag Flag.carry (v &&& 0x01 != 0)).setZeroNegative shifted)

end Registers

end Famicom
