/-!
Numbers as fixed-width columns: upper-case hexadecimal for bytes and addresses, and decimal
padded with blanks.
-/

namespace Famicom.Text

/-- Hexadecimal digits, upper case, filled with zeros up to `width`. -/
def hex (width n : Nat) : String :=
  String.ofList (((Nat.toDigits 16 n).map Char.toUpper).leftpad width '0')

def hexByte (b : UInt8) : String := hex 2 b.toNat

def hexWord (w : UInt16) : String := hex 4 w.toNat

/-- Decimal digits, filled with blanks up to `width`. -/
def column (width n : Nat) : String :=
  String.ofList ((Nat.toDigits 10 n).leftpad width ' ')

end Famicom.Text
