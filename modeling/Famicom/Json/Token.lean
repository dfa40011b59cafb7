/-!
The tokens of JSON text. Numbers and strings are kept as they are spelled, and a string is not
decoded until someone asks what it says.
-/

namespace Famicom.Json

inductive Token
  | leftBrace
  | rightBrace
  | leftBracket
  | rightBracket
  | comma
  | colon
  | null
  | bool (value : Bool)
  | number (spelling : List Char)
  | string (spelling : List Char)
deriving DecidableEq, Repr

namespace Token

def text : Token → List Char
  | leftBrace => ['\x7b']
  | rightBrace => ['\x7d']
  | leftBracket => ['[']
  | rightBracket => [']']
  | comma => [',']
  | colon => [':']
  | null => ['n', 'u', 'l', 'l']
  | bool true => ['t', 'r', 'u', 'e']
  | bool false => ['f', 'a', 'l', 's', 'e']
  | number spelling => spelling
  | string spelling => '\"' :: (spelling ++ ['\"'])

end Token

def isBlank (c : Char) : Bool := c = ' ' || c = '\n' || c = '\r' || c = '\t'

def isNumberChar (c : Char) : Bool :=
  c.isDigit || c = '-' || c = '+' || c = '.' || c = 'e' || c = 'E'

def isHex (c : Char) : Bool :=
  c.isDigit || 'a' ≤ c && c ≤ 'f' || 'A' ≤ c && c ≤ 'F'

/-- Splits a run of digits off, if there is one. -/
def digits (s : List Char) : Option (List Char) :=
  match s with
  | c :: s => if c.isDigit then some (s.dropWhile Char.isDigit) else none
  | [] => none

/-- A whole part does not start with a zero unless it is zero. -/
def wholePart : List Char → Option (List Char)
  | '0' :: s => some s
  | s => digits s

def fractionPart : List Char → Option (List Char)
  | '.' :: s => digits s
  | s => some s

def exponentPart (s : List Char) : Option (List Char) :=
  match s with
  | c :: s =>
    if c = 'e' || c = 'E' then
      match s with
      | '+' :: s | '-' :: s => digits s
      | s => digits s
    else some (c :: s)
  | [] => some []

def isNumber (s : List Char) : Bool :=
  let s := if s.head? = some '-' then s.tail else s
  (wholePart s >>= fractionPart >>= exponentPart) = some []

/-- The text before the closing quote of a string, and the text after it. -/
def scanString : List Char → Option (List Char × List Char)
  | [] => none
  | '\"' :: s => some ([], s)
  | '\\' :: e :: s => (scanString s).map fun (body, rest) => ('\\' :: e :: body, rest)
  | c :: s => (scanString s).map fun (body, rest) => (c :: body, rest)

/-- Whether a text between quotes holds no control characters and only known escapes. -/
def isStringBody : List Char → Bool
  | [] => true
  | '\\' :: 'u' :: a :: b :: c :: d :: s =>
    isHex a && isHex b && isHex c && isHex d && isStringBody s
  | '\\' :: e :: s => ['\"', '\\', '/', 'b', 'f', 'n', 'r', 't'].contains e && isStringBody s
  | ['\\'] => false
  | c :: s => ' ' ≤ c && isStringBody s

theorem length_lt_of_scanString {s body rest : List Char}
    (h : scanString s = some (body, rest)) : rest.length < s.length := by
  fun_induction scanString s generalizing body with
  | case1 => simp at h
  | case2 s => simp_all
  | case3 e s ih =>
    obtain ⟨⟨b, r⟩, hs, he⟩ := Option.map_eq_some_iff.1 h
    simp only [Prod.mk.injEq] at he
    have := ih (he.2 ▸ hs)
    simp only [List.length_cons]
    omega
  | case4 c s _ _ ih =>
    obtain ⟨⟨b, r⟩, hs, he⟩ := Option.map_eq_some_iff.1 h
    simp only [Prod.mk.injEq] at he
    have := ih (he.2 ▸ hs)
    simp only [List.length_cons]
    omega

/-- The first token of a text that does not start with a blank, and the text after it. -/
def nextToken : List Char → Option (Token × List Char)
  | '\x7b' :: s => some (.leftBrace, s)
  | '\x7d' :: s => some (.rightBrace, s)
  | '[' :: s => some (.leftBracket, s)
  | ']' :: s => some (.rightBracket, s)
  | ',' :: s => some (.comma, s)
  | ':' :: s => some (.colon, s)
  | 'n' :: 'u' :: 'l' :: 'l' :: s => some (.null, s)
  | 't' :: 'r' :: 'u' :: 'e' :: s => some (.bool true, s)
  | 'f' :: 'a' :: 'l' :: 's' :: 'e' :: s => some (.bool false, s)
  | '\"' :: s =>
    match scanString s with
    | some (body, rest) => if isStringBody body then some (.string body, rest) else none
    | none => none
  | c :: s =>
    let spelling := c :: s.takeWhile isNumberChar
    if isNumber spelling then some (.number spelling, s.dropWhile isNumberChar) else none
  | [] => none

theorem length_lt_of_nextToken {s rest : List Char} {t : Token}
    (h : nextToken s = some (t, rest)) : rest.length < s.length := by
  unfold nextToken at h
  split at h
  case h_10 s =>
    split at h
    · next body r hs =>
      have := length_lt_of_scanString hs
      grind
    · simp at h
  case h_11 c s _ _ _ _ _ _ _ _ _ _ =>
    have := (List.dropWhile_sublist isNumberChar (l := s)).length_le
    grind
  all_goals grind

/-- All tokens of a text, or none if something in it is not a token. -/
def tokens (s : List Char) : Option (List Token) :=
  match s with
  | [] => some []
  | c :: s =>
    if isBlank c then tokens s
    else
      match h : nextToken (c :: s) with
      | none => none
      | some (t, rest) =>
        have := length_lt_of_nextToken h
        (tokens rest).map (t :: ·)
termination_by s.length
decreasing_by
  · simp
  · assumption

end Famicom.Json
