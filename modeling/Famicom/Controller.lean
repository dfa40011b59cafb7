import Famicom.Action

/-!
The controllers: eight buttons behind a shift register.
-/

namespace Famicom

inductive Player
  | one | two
deriving DecidableEq, Repr

inductive Button
  | a | b | select | start | up | down | left | right
deriving DecidableEq, Repr

namespace Button

/-- The buttons in the order in which they are shifted out. -/
def all : List Button := [.a, .b, .select, .start, .up, .down, .left, .right]

def mask : Button → UInt8
  | .a => 0x80
  | .b => 0x40
  | .select => 0x20
  | .start => 0x10
  | .up => 0x08
  | .down => 0x04
  | .left => 0x02
  | .right => 0x01

end Button

structure Controller where
  /-- The buttons held down, one bit each. -/
  buttons : UInt8 := 0
  strobe : Bool := false
  /-- The buttons shifted out since the last reload. -/
  shifted : Nat := 0
deriving DecidableEq, Repr

namespace Controller

def press (c : Controller) (button : Button) : Controller :=
  { c with buttons := c.buttons ||| button.mask }

def release (c : Controller) (button : Button) : Controller :=
  { c with buttons := c.buttons &&& ~~~button.mask }

def holds (c : Controller) (button : Button) : Bool := c.buttons &&& button.mask != 0

variable {ε : Type}

/-- Bit 0 is the strobe line; any write reloads the shift register. -/
def write (v : UInt8) : Action ε Controller Unit := do
  let strobe := v &&& 0x01 != 0
  .update fun c => { c with strobe, shifted := 0 }
  .report (.strobe strobe)

/-- The next button: always A while the strobe is high, and 1 after the last button. -/
def read : Action ε Controller UInt8 := fun c =>
  if c.strobe then ⟨.ok (c.holds .a).toUInt8, c, []⟩
  else
    match Button.all[c.shifted]? with
    | some button => ⟨.ok (c.holds button).toUInt8, { c with shifted := c.shifted + 1 }, []⟩
    | none => ⟨.ok 1, c, []⟩

end Controller

end Famicom
