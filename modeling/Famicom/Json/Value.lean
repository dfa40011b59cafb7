import Famicom.Json.Token

/-!
JSON values, written as their tokens and read from them with a stack of the arrays and objects that
are still open, so that depth is no limit. Keys and strings keep their spelling.
-/

namespace Famicom.Json

inductive Value
  | null
  | bool (value : Bool)
  | number (spelling : List Char)
  | string (spelling : List Char)
  | array (elements : List Value)
  | object (members : List (List Char × Value))

mutual

/-- The tokens of a value, with its brackets, its commas and its colons. -/
def Value.tokens : Value → List Token
  | .null => [.null]
  | .bool b => [.bool b]
  | .number spelling => [.number spelling]
  | .string spelling => [.string spelling]
  | .array [] => [.leftBracket, .rightBracket]
  | .array (v :: vs) => .leftBracket :: (v.tokens ++ (moreElements vs ++ [.rightBracket]))
  | .object [] => [.leftBrace, .rightBrace]
  | .object (m :: ms) => .leftBrace :: (memberTokens m ++ (moreMembers ms ++ [.rightBrace]))

/-- The tokens of the elements after the first one. -/
def moreElements : List Value → List Token
  | [] => []
  | v :: vs => .comma :: (v.tokens ++ moreElements vs)

def memberTokens : List Char × Value → List Token
  | (key, v) => .string key :: .colon :: v.tokens

/-- The tokens of the members after the first one. -/
def moreMembers : List (List Char × Value) → List Token
  | [] => []
  | m :: ms => .comma :: (memberTokens m ++ moreMembers ms)

end

/-- The text of a value, without blanks. -/
def Value.print (v : Value) : String := String.ofList (v.tokens.flatMap Token.text)

/-- A natural number, spelled by its digits. -/
def numberOf (n : Nat) : Value := .number (Nat.toDigits 10 n)

/-- An array or object that is still open, its finished parts with the last one first. -/
inductive Open
  | array (elements : List Value)
  | object (members : List (List Char × Value)) (key : List Char)

mutual

/-- Reads a value inside the arrays and objects that are open. -/
def readValue (stack : List Open) : List Token → Option Value
  | .null :: ts => closeValue .null stack ts
  | .bool b :: ts => closeValue (.bool b) stack ts
  | .number spelling :: ts => closeValue (.number spelling) stack ts
  | .string spelling :: ts => closeValue (.string spelling) stack ts
  | .leftBracket :: .rightBracket :: ts => closeValue (.array []) stack ts
  | .leftBracket :: ts => readValue (.array [] :: stack) ts
  | .leftBrace :: .rightBrace :: ts => closeValue (.object []) stack ts
  | .leftBrace :: .string key :: .colon :: ts => readValue (.object [] key :: stack) ts
  | _ => none

/-- Goes on after a value that is complete. -/
def closeValue (v : Value) (stack : List Open) : List Token → Option Value
  | [] => if stack.isEmpty then some v else none
  | .comma :: .string key :: .colon :: ts =>
    match stack with
    | .object members last :: stack => readValue (.object ((last, v) :: members) key :: stack) ts
    | _ => none
  | .comma :: ts =>
    match stack with
    | .array elements :: stack => readValue (.array (v :: elements) :: stack) ts
    | _ => none
  | .rightBracket :: ts =>
    match stack with
    | .array elements :: stack => closeValue (.array (v :: elements).reverse) stack ts
    | _ => none
  | .rightBrace :: ts =>
    match stack with
    | .object members last :: stack =>
      closeValue (.object ((last, v) :: members).reverse) stack ts
    | _ => none
  | _ => none

end

/-- The value that a text holds, with nothing but blanks around it. -/
def parse (s : List Char) : Option Value := tokens s >>= readValue []

def hexDigit (c : Char) : Nat :=
  if c.isDigit then c.toNat - '0'.toNat else c.toLower.toNat - 'a'.toNat + 10

def hexWord (a b c d : Char) : Nat :=
  ((hexDigit a * 16 + hexDigit b) * 16 + hexDigit c) * 16 + hexDigit d

def unescape : Char → Option Char
  | '\"' => some '\"'
  | '\\' => some '\\'
  | '/' => some '/'
  | 'b' => some '\x08'
  | 'f' => some '\x0c'
  | 'n' => some '\n'
  | 'r' => some '\r'
  | 't' => some '\t'
  | _ => none

/-- What a spelling says. A surrogate stands only in a pair. -/
def decode : List Char → Option (List Char)
  | [] => some []
  | '\\' :: 'u' :: a :: b :: c :: d :: '\\' :: 'u' :: e :: f :: g :: h :: s =>
    let n := hexWord a b c d
    let m := hexWord e f g h
    if 0xD800 ≤ n && n < 0xDC00 then
      if 0xDC00 ≤ m && m < 0xE000 then
        (decode s).map (Char.ofNat (0x10000 + (n - 0xD800) * 0x400 + (m - 0xDC00)) :: ·)
      else none
    else if 0xDC00 ≤ n && n < 0xE000 then none
    else (decode ('\\' :: 'u' :: e :: f :: g :: h :: s)).map (Char.ofNat n :: ·)
  | '\\' :: 'u' :: a :: b :: c :: d :: s =>
    let n := hexWord a b c d
    if 0xD800 ≤ n && n < 0xE000 then none else (decode s).map (Char.ofNat n :: ·)
  | '\\' :: e :: s => do return (← unescape e) :: (← decode s)
  | c :: s => (decode s).map (c :: ·)

namespace Value

/-- The natural number below `bound` that a value is, spelled without sign, point or exponent. -/
def nat? (bound : Nat) : Value → Option Nat
  | .number spelling =>
    if spelling.all Char.isDigit then
      let n := spelling.foldl (fun n c => 10 * n + (c.toNat - '0'.toNat)) 0
      if n < bound then some n else none
    else none
  | _ => none

def elements? : Value → Option (List Value)
  | .array elements => some elements
  | _ => none

end Value

end Famicom.Json
