import Famicom.Text.Graphic

/-!
Texts in double quotes, with escapes for what would not show.
-/

namespace Famicom.Text

/-- A character between quotes: the quote, the backslash and four controls have short escapes, and
what does not show is written as its code point. -/
def escape (c : Char) : List Char :=
  match c with
  | '\x00' => ['\\', '0']
  | '\t' => ['\\', 't']
  | '\n' => ['\\', 'n']
  | '\r' => ['\\', 'r']
  | '\"' => ['\\', '\"']
  | '\\' => ['\\', '\\']
  | c =>
    if isGraphic c then [c]
    else "\\u\x7b".toList ++ Nat.toDigits 16 c.toNat ++ ['\x7d']

def quote (s : String) : String :=
  String.ofList ('\"' :: s.toList.flatMap escape ++ ['\"'])

end Famicom.Text
