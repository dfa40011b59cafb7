import Mathlib.Data.List.Chain
import Mathlib.Data.List.TakeWhile
import Famicom.Json.Token

/-! The tokens of a text, by the grammar of numbers and strings: which spellings are good, and that
a text has the tokens that it spells with blanks between them. -/

namespace Famicom.Json

variable {s r : List Char} {ts : List Token} {t : Token}

/-! Numbers. -/

def AreDigits (s : List Char) : Prop := ∀ c ∈ s, c.isDigit = true

inductive SpellsWhole : List Char → Prop
  | zero : SpellsWhole ['0']
  | nonzero {c : Char} {s : List Char} (hc : c.isDigit = true) (hzero : c ≠ '0')
      (hs : AreDigits s) : SpellsWhole (c :: s)

inductive SpellsFraction : List Char → Prop
  | absent : SpellsFraction []
  | present {c : Char} {s : List Char} (hs : AreDigits (c :: s)) : SpellsFraction ('.' :: c :: s)

inductive SpellsExponent : List Char → Prop
  | absent : SpellsExponent []
  | present {e c : Char} {sign s : List Char} (he : e ∈ ['e', 'E'])
      (hsign : sign ∈ [[], ['+'], ['-']]) (hs : AreDigits (c :: s)) :
      SpellsExponent (e :: (sign ++ c :: s))

/-- A number is a whole part, perhaps below zero, with a fraction and an exponent or without. -/
inductive SpellsNumber : List Char → Prop
  | mk {sign whole fraction exponent : List Char} (hsign : sign ∈ [[], ['-']])
      (hwhole : SpellsWhole whole) (hfraction : SpellsFraction fraction)
      (hexponent : SpellsExponent exponent) :
      SpellsNumber (sign ++ (whole ++ (fraction ++ exponent)))

/-- A text does not go on with a digit. -/
def StopsDigits (r : List Char) : Prop := ∀ c ∈ r.head?, c.isDigit = false

theorem digits_append {c : Char} (hs : AreDigits (c :: s)) (hr : StopsDigits r) :
    digits (c :: s ++ r) = some r := by
  have hdrop : (s ++ r).dropWhile Char.isDigit = r := by
    rw [List.dropWhile_append_of_pos fun d hd => hs d (List.mem_cons_of_mem c hd)]
    cases r with
    | nil => rfl
    | cons d r => exact List.dropWhile_cons_of_neg (by simp [hr d rfl])
  simp [digits, hs c List.mem_cons_self, hdrop]

theorem exists_of_digits (h : digits s = some r) :
    ∃ c t, AreDigits (c :: t) ∧ s = c :: t ++ r := by
  unfold digits at h
  split at h
  · next c s =>
    obtain ⟨hc, hr⟩ := Option.ite_none_right_eq_some.mp h
    refine ⟨c, s.takeWhile Char.isDigit, ?_, ?_⟩
    · intro d hd
      rcases List.mem_cons.mp hd with rfl | hd
      · exact hc
      · exact List.mem_takeWhile_imp hd
    · cases hr
      rw [List.cons_append, List.takeWhile_append_dropWhile]
  · cases h

theorem wholePart_append (hs : SpellsWhole s) (hr : StopsDigits r) :
    wholePart (s ++ r) = some r := by
  cases hs with
  | zero => rfl
  | @nonzero c s hc hzero hs =>
    have hall : AreDigits (c :: s) := List.forall_mem_cons.mpr ⟨hc, hs⟩
    rw [← digits_append hall hr]
    unfold wholePart
    split
    · next heq => exact absurd (List.cons.inj heq).1 hzero
    · rfl

theorem exists_of_wholePart (h : wholePart s = some r) : ∃ t, SpellsWhole t ∧ s = t ++ r := by
  unfold wholePart at h
  split at h
  · cases h
    exact ⟨['0'], .zero, rfl⟩
  · next hzero =>
    obtain ⟨c, t, hall, rfl⟩ := exists_of_digits h
    obtain ⟨hc, ht⟩ := List.forall_mem_cons.mp hall
    refine ⟨c :: t, .nonzero hc ?_ ht, rfl⟩
    rintro rfl
    exact hzero (t ++ r) rfl

theorem fractionPart_append (hs : SpellsFraction s) (hr : StopsDigits r)
    (hpoint : r.head? ≠ some '.') : fractionPart (s ++ r) = some r := by
  cases hs with
  | absent =>
    rw [List.nil_append]
    unfold fractionPart
    split
    · exact absurd rfl hpoint
    · rfl
  | present hs => exact digits_append hs hr

theorem exists_of_fractionPart (h : fractionPart s = some r) :
    ∃ t, SpellsFraction t ∧ s = t ++ r := by
  unfold fractionPart at h
  split at h
  · obtain ⟨c, t, hall, rfl⟩ := exists_of_digits h
    exact ⟨_, .present hall, rfl⟩
  · cases h
    exact ⟨[], .absent, rfl⟩

theorem exponentPart_eq_nil_iff : exponentPart s = some [] ↔ SpellsExponent s := by
  constructor
  · intro h
    unfold exponentPart at h
    split at h
    · next e s =>
      split at h
      · next he =>
        have he' : e ∈ ['e', 'E'] := by simpa using he
        split at h
        · obtain ⟨c, t, hall, rfl⟩ := exists_of_digits h
          rw [List.append_nil]
          have hsign : ['+'] ∈ [[], ['+'], ['-']] := by simp
          exact SpellsExponent.present he' hsign hall
        · obtain ⟨c, t, hall, rfl⟩ := exists_of_digits h
          rw [List.append_nil]
          have hsign : ['-'] ∈ [[], ['+'], ['-']] := by simp
          exact SpellsExponent.present he' hsign hall
        · obtain ⟨c, t, hall, rfl⟩ := exists_of_digits h
          rw [List.append_nil]
          have hsign : [] ∈ [[], ['+'], ['-']] := by simp
          exact SpellsExponent.present he' hsign hall
      · cases h
    · exact .absent
  · rintro (_ | @⟨e, c, sign, s, he, hsign, hs⟩)
    · rfl
    · have hdigits : digits (c :: s) = some [] := by
        have h := digits_append (r := []) hs (by intro d hd; cases hd)
        rwa [List.append_nil] at h
      have hc := hs c List.mem_cons_self
      have he' : (e = 'e' || e = 'E') = true := by simpa using he
      have hplus : c ≠ '+' := by rintro rfl; cases hc
      have hminus : c ≠ '-' := by rintro rfl; cases hc
      simp only [List.mem_cons, List.not_mem_nil, or_false] at hsign
      rcases hsign with rfl | rfl | rfl <;> simp [exponentPart, he', hdigits, hplus, hminus]

theorem SpellsWhole.exists_cons (h : SpellsWhole s) : ∃ c t, s = c :: t ∧ c.isDigit = true := by
  cases h with
  | zero => exact ⟨_, _, rfl, rfl⟩
  | nonzero hc => exact ⟨_, _, rfl, hc⟩

theorem SpellsExponent.stops (h : SpellsExponent s) : StopsDigits s ∧ s.head? ≠ some '.' := by
  cases h with
  | absent => simp [StopsDigits]
  | present he =>
    simp only [List.mem_cons, List.not_mem_nil, or_false] at he
    rcases he with rfl | rfl <;> simp [StopsDigits]

theorem SpellsFraction.stops (h : SpellsFraction s) (hr : StopsDigits r) :
    StopsDigits (s ++ r) := by
  cases h with
  | absent => exact hr
  | present => simp [StopsDigits]

theorem isNumber_iff : isNumber s = true ↔ SpellsNumber s := by
  constructor
  · intro h
    unfold isNumber at h
    simp only [decide_eq_true_eq, Option.bind_eq_bind, Option.bind_eq_some_iff] at h
    -- from the end: what each part leaves is what the next one is read from
    obtain ⟨r₂, ⟨r₁, hwhole, hfraction⟩, hexponent⟩ := h
    obtain ⟨whole, hw, hs⟩ := exists_of_wholePart hwhole
    obtain ⟨fraction, hf, rfl⟩ := exists_of_fractionPart hfraction
    have he := exponentPart_eq_nil_iff.mp hexponent
    split at hs
    · next hsign =>
      obtain ⟨t, rfl⟩ := List.head?_eq_some_iff.mp hsign
      have hminus : ['-'] ∈ [[], ['-']] := by simp
      have hspelled := SpellsNumber.mk hminus hw hf he
      rwa [← hs] at hspelled
    · rw [hs]
      have hnone : [] ∈ [[], ['-']] := by simp
      exact SpellsNumber.mk hnone hw hf he
  · rintro ⟨hsign, hw, hf, he⟩
    obtain ⟨hstop, hpoint⟩ := he.stops
    have hwhole := wholePart_append hw (hf.stops hstop)
    have hfraction := fractionPart_append hf hstop hpoint
    have hexponent := exponentPart_eq_nil_iff.mpr he
    obtain ⟨c, t, rfl, hc⟩ := hw.exists_cons
    have hminus : c ≠ '-' := by rintro rfl; cases hc
    simp only [List.mem_cons, List.not_mem_nil, or_false] at hsign
    rcases hsign with rfl | rfl
    · simp_all [isNumber]
    · simp_all [isNumber]

theorem isNumberChar_of_isDigit {c : Char} (h : c.isDigit = true) : isNumberChar c = true := by
  simp [isNumberChar, h]

theorem AreDigits.isNumberChar (h : AreDigits s) : ∀ c ∈ s, isNumberChar c = true :=
  fun c hc => isNumberChar_of_isDigit (h c hc)

theorem SpellsNumber.isNumberChar (h : SpellsNumber s) : ∀ c ∈ s, isNumberChar c = true := by
  obtain ⟨hsign, hw, hf, he⟩ := h
  simp only [List.forall_mem_append]
  refine ⟨?_, ?_, ?_, ?_⟩
  · simp only [List.mem_cons, List.not_mem_nil, or_false] at hsign
    rcases hsign with rfl | rfl <;> simp [Json.isNumberChar]
  · cases hw with
    | zero => exact List.forall_mem_singleton.mpr rfl
    | nonzero hc _ hs => exact AreDigits.isNumberChar (List.forall_mem_cons.mpr ⟨hc, hs⟩)
  · cases hf with
    | absent => simp
    | present hs => exact List.forall_mem_cons.mpr ⟨rfl, hs.isNumberChar⟩
  · cases he with
    | absent => simp
    | @present e _ sign _ he hsign hs =>
      refine List.forall_mem_cons.mpr ⟨?_, List.forall_mem_append.mpr ⟨?_, hs.isNumberChar⟩⟩
      · simp only [List.mem_cons, List.not_mem_nil, or_false] at he
        rcases he with rfl | rfl <;> rfl
      · simp only [List.mem_cons, List.not_mem_nil, or_false] at hsign
        rcases hsign with rfl | rfl | rfl <;> simp [Json.isNumberChar]

theorem SpellsNumber.exists_cons (h : SpellsNumber s) :
    ∃ c t, s = c :: t ∧ (c.isDigit = true ∨ c = '-') := by
  obtain ⟨hsign, hw, _, _⟩ := h
  obtain ⟨c, t, rfl, hc⟩ := hw.exists_cons
  simp only [List.mem_cons, List.not_mem_nil, or_false] at hsign
  rcases hsign with rfl | rfl
  · exact ⟨c, _, rfl, .inl hc⟩
  · exact ⟨'-', _, rfl, .inr rfl⟩

/-! Strings. -/

/-- A string is spelled by characters that are neither control characters nor marks, by escapes of
one letter and by escapes of four hexadecimal digits. -/
inductive SpellsString : List Char → Prop
  | nil : SpellsString []
  | plain {c : Char} {s : List Char} (hc : ' ' ≤ c) (hquote : c ≠ '\"') (hmark : c ≠ '\\')
      (hs : SpellsString s) : SpellsString (c :: s)
  | escape {e : Char} {s : List Char} (he : e ∈ ['\"', '\\', '/', 'b', 'f', 'n', 'r', 't'])
      (hs : SpellsString s) : SpellsString ('\\' :: e :: s)
  | hex {a b c d : Char} {s : List Char} (ha : isHex a = true) (hb : isHex b = true)
      (hc : isHex c = true) (hd : isHex d = true) (hs : SpellsString s) :
      SpellsString ('\\' :: 'u' :: a :: b :: c :: d :: s)

/-- Nothing in a text needs an escape. -/
def IsPlain (s : List Char) : Prop := ∀ c ∈ s, ' ' ≤ c ∧ c ≠ '\"' ∧ c ≠ '\\'

theorem IsPlain.spellsString (h : IsPlain s) : SpellsString s := by
  induction s with
  | nil => exact .nil
  | cons c s ih =>
    obtain ⟨⟨hc, hquote, hmark⟩, hs⟩ := List.forall_mem_cons.mp h
    exact .plain hc hquote hmark (ih hs)

theorem plain_of_isHex {c : Char} (h : isHex c = true) : ' ' ≤ c ∧ c ≠ '\"' ∧ c ≠ '\\' := by
  refine ⟨?_, ?_, ?_⟩
  · simp only [isHex, Char.isDigit, Bool.or_eq_true, Bool.and_eq_true, decide_eq_true_eq,
      Char.le_def, UInt32.le_iff_toNat_le] at h ⊢
    grind
  · rintro rfl
    cases h
  · rintro rfl
    cases h

theorem SpellsString.of_cons {c : Char} (hc : c ≠ '\\') (h : SpellsString (c :: s)) :
    SpellsString s := by
  cases h with
  | plain _ _ _ hs => exact hs
  | escape => exact absurd rfl hc
  | hex => exact absurd rfl hc

theorem scanString_cons {c : Char} (hquote : c ≠ '\"') (hmark : c ≠ '\\') (s : List Char) :
    scanString (c :: s) = (scanString s).map fun (body, rest) => (c :: body, rest) := by
  rw [scanString]
  · rintro rfl
    exact absurd rfl hquote
  · rintro e t rfl
    exact absurd rfl hmark

theorem isStringBody_cons {c : Char} (hmark : c ≠ '\\') (s : List Char) :
    isStringBody (c :: s) = (' ' ≤ c && isStringBody s) := by
  rw [isStringBody]
  · rintro a b c d t rfl
    exact absurd rfl hmark
  · rintro e t rfl
    exact absurd rfl hmark
  · rintro rfl
    exact absurd rfl hmark

theorem isStringBody_escape {e : Char} (he : e ≠ 'u') (s : List Char) :
    isStringBody ('\\' :: e :: s) =
      (['\"', '\\', '/', 'b', 'f', 'n', 'r', 't'].contains e && isStringBody s) := by
  rw [isStringBody]
  rintro a b c d t rfl
  exact absurd rfl he

theorem exists_of_isStringBody (h : isStringBody ('\\' :: 'u' :: s) = true) :
    ∃ a b c d t, s = a :: b :: c :: d :: t ∧ isHex a = true ∧ isHex b = true ∧ isHex c = true ∧
      isHex d = true ∧ isStringBody t = true := by
  rcases s with _ | ⟨a, _ | ⟨b, _ | ⟨c, _ | ⟨d, t⟩⟩⟩⟩
  · cases h
  · cases h
  · cases h
  · cases h
  · simp only [isStringBody, Bool.and_eq_true] at h
    exact ⟨a, b, c, d, t, rfl, h.1.1.1.1, h.1.1.1.2, h.1.1.2, h.1.2, h.2⟩

theorem SpellsString.scanString_append (h : SpellsString s) (r : List Char) :
    scanString (s ++ '\"' :: r) = some (s, r) := by
  induction h with
  | nil => rfl
  | plain hc hquote hmark hs ih => rw [List.cons_append, scanString_cons hquote hmark, ih]; rfl
  | escape he hs ih => rw [List.cons_append, List.cons_append, scanString, ih]; rfl
  | hex ha hb hc hd hs ih =>
    simp only [List.cons_append]
    rw [scanString, scanString_cons (plain_of_isHex ha).2.1 (plain_of_isHex ha).2.2,
      scanString_cons (plain_of_isHex hb).2.1 (plain_of_isHex hb).2.2,
      scanString_cons (plain_of_isHex hc).2.1 (plain_of_isHex hc).2.2,
      scanString_cons (plain_of_isHex hd).2.1 (plain_of_isHex hd).2.2, ih]
    rfl

theorem SpellsString.isStringBody (h : SpellsString s) : isStringBody s = true := by
  induction h with
  | nil => rfl
  | plain hc hquote hmark hs ih => simp [isStringBody_cons hmark, hc, ih]
  | escape he hs ih =>
    simp only [List.mem_cons, List.not_mem_nil, or_false] at he
    rcases he with rfl | rfl | rfl | rfl | rfl | rfl | rfl | rfl <;> simp [Json.isStringBody, ih]
  | hex ha hb hc hd hs ih => simp [Json.isStringBody, ha, hb, hc, hd, ih]

/-- The scan of a string ends at the first quote that no mark comes before. -/
theorem of_scanString {body : List Char} (h : scanString s = some (body, r)) :
    s = body ++ '\"' :: r ∧ (isStringBody body = true → SpellsString body) := by
  fun_induction scanString s generalizing body with
  | case1 => cases h
  | case2 s =>
    cases h
    exact ⟨rfl, fun _ => .nil⟩
  | case3 e s ih =>
    obtain ⟨⟨b, r⟩, hs, he⟩ := Option.map_eq_some_iff.mp h
    cases he
    obtain ⟨rfl, hbody⟩ := ih hs
    refine ⟨rfl, fun hgood => ?_⟩
    by_cases hu : e = 'u'
    · subst hu
      obtain ⟨a, b, c, d, t, rfl, ha, hb, hc, hd, ht⟩ := exists_of_isStringBody hgood
      -- The scan takes the four digits one by one, so it is about them that the rest is known.
      have hrest : SpellsString (a :: b :: c :: d :: t) := by
        apply hbody
        simp [isStringBody_cons, plain_of_isHex, *]
      refine .hex ha hb hc hd ?_
      exact (((hrest.of_cons (plain_of_isHex ha).2.2).of_cons (plain_of_isHex hb).2.2).of_cons
        (plain_of_isHex hc).2.2).of_cons (plain_of_isHex hd).2.2
    · obtain ⟨he, hb⟩ := Bool.and_eq_true_iff.mp (isStringBody_escape hu b ▸ hgood)
      exact .escape (by simpa using he) (hbody hb)
  | case4 c s hquote hmark ih =>
    obtain ⟨⟨b, r⟩, hs, he⟩ := Option.map_eq_some_iff.mp h
    cases he
    obtain ⟨rfl, hbody⟩ := ih hs
    refine ⟨rfl, fun hgood => ?_⟩
    -- A mark at the very end would have no quote after it.
    have hmark : c ≠ '\\' := by
      rintro rfl
      obtain ⟨d, t, ht⟩ : ∃ d t, b ++ '\"' :: r = d :: t :=
        List.exists_cons_of_ne_nil (by simp)
      exact hmark d t rfl ht
    rw [isStringBody_cons hmark, Bool.and_eq_true, decide_eq_true_eq] at hgood
    exact .plain hgood.1 hquote hmark (hbody hgood.2)

/-! Texts and their tokens. -/

namespace Token

/-- A number or a string is spelled as the grammar has it. -/
def WellSpelled : Token → Prop
  | number spelling => SpellsNumber spelling
  | string spelling => SpellsString spelling
  | _ => True

def IsNumber : Token → Prop
  | number _ => True
  | _ => False

end Token

/-- A text spells tokens one after another, with blanks before, between and after them. -/
inductive Spaced : List Token → List Char → Prop
  | nil : Spaced [] []
  | blank {c : Char} {ts : List Token} {s : List Char} (hc : isBlank c = true)
      (hs : Spaced ts s) : Spaced ts (c :: s)
  | token {ts : List Token} {s : List Char} (t : Token) (hs : Spaced ts s) :
      Spaced (t :: ts) (t.text ++ s)

/-- Two numbers do not come one after the other. -/
def NumbersApart (ts : List Token) : Prop := ts.IsChain fun t u => ¬(t.IsNumber ∧ u.IsNumber)

/-- A text does not go on with what could be part of a number. -/
def StopsNumber (r : List Char) : Prop := ∀ c ∈ r.head?, isNumberChar c = false

theorem nextToken_cons {c : Char} (hc : c.isDigit = true ∨ c = '-') (s : List Char) :
    nextToken (c :: s) =
      if isNumber (c :: s.takeWhile isNumberChar) then
        some (.number (c :: s.takeWhile isNumberChar), s.dropWhile isNumberChar)
      else none := by
  unfold nextToken
  split
  case h_11 heq =>
    cases heq
    rfl
  case h_12 heq => cases heq
  all_goals
    next heq =>
    cases heq
    exact absurd hc (by decide)

theorem nextToken_text (ht : t.WellSpelled) (hr : t.IsNumber → StopsNumber r) :
    nextToken (t.text ++ r) = some (t, r) := by
  cases t with
  | number spelling =>
    have hall := SpellsNumber.isNumberChar ht
    have hnumber := isNumber_iff.mpr ht
    have hstop : r.takeWhile isNumberChar = [] ∧ r.dropWhile isNumberChar = r := by
      cases r with
      | nil => exact ⟨rfl, rfl⟩
      | cons c r => simp [hr trivial c rfl]
    obtain ⟨c, s, rfl, hc⟩ := SpellsNumber.exists_cons ht
    have hs : ∀ d ∈ s, isNumberChar d = true := (List.forall_mem_cons.mp hall).2
    rw [Token.text, List.cons_append, nextToken_cons hc, List.takeWhile_append_of_pos hs,
      List.dropWhile_append_of_pos hs, hstop.1, hstop.2, List.append_nil, if_pos hnumber]
  | string spelling =>
    have hscan := SpellsString.scanString_append ht r
    have hbody := SpellsString.isStringBody ht
    rw [Token.text, List.cons_append, List.append_assoc]
    simp [nextToken, hscan, hbody]
  | bool b => cases b <;> rfl
  | _ => rfl

theorem of_nextToken (h : nextToken s = some (t, r)) : s = t.text ++ r ∧ t.WellSpelled := by
  unfold nextToken at h
  split at h
  case h_10 s =>
    split at h
    · next body rest hscan =>
      obtain ⟨hbody, hcut⟩ := Option.ite_none_right_eq_some.mp h
      cases hcut
      obtain ⟨rfl, hgood⟩ := of_scanString hscan
      exact ⟨by simp [Token.text], hgood hbody⟩
    · cases h
  case h_11 c s _ _ _ _ _ _ _ _ _ _ =>
    obtain ⟨hnumber, hcut⟩ := Option.ite_none_right_eq_some.mp h
    cases hcut
    refine ⟨?_, isNumber_iff.mp hnumber⟩
    rw [Token.text, List.cons_append, List.takeWhile_append_dropWhile]
  case h_12 => cases h
  all_goals
    cases h
    exact ⟨rfl, trivial⟩

theorem not_isNumberChar_of_isBlank {c : Char} (h : isBlank c = true) : isNumberChar c = false := by
  simp only [isBlank, Bool.or_eq_true, decide_eq_true_eq] at h
  rcases h with ((rfl | rfl) | rfl) | rfl <;> rfl

/-- A token starts with no blank, and only a number with a character of numbers. -/
theorem exists_text (ht : t.WellSpelled) :
    ∃ c s, t.text = c :: s ∧ isBlank c = false ∧ (isNumberChar c = true → t.IsNumber) := by
  cases t with
  | number spelling =>
    obtain ⟨c, s, rfl, -⟩ := SpellsNumber.exists_cons ht
    refine ⟨c, s, rfl, ?_, fun _ => trivial⟩
    have hnumber : isNumberChar c = true :=
      SpellsNumber.isNumberChar ht c List.mem_cons_self
    rw [Bool.eq_false_iff]
    intro hblank
    rw [not_isNumberChar_of_isBlank hblank] at hnumber
    cases hnumber
  | bool b => cases b <;> exact ⟨_, _, rfl, rfl, fun h => absurd h (by decide)⟩
  | _ => exact ⟨_, _, rfl, rfl, fun h => absurd h (by decide)⟩

theorem tokens_blank {c : Char} (hc : isBlank c = true) (s : List Char) :
    tokens (c :: s) = tokens s := by
  rw [tokens, if_pos hc]

theorem tokens_token (ht : t.WellSpelled) (hr : t.IsNumber → StopsNumber r) :
    tokens (t.text ++ r) = (tokens r).map (t :: ·) := by
  have hnext := nextToken_text ht hr
  obtain ⟨c, s, htext, hblank, -⟩ := exists_text ht
  rw [htext, List.cons_append] at hnext ⊢
  rw [tokens, if_neg (by simp [hblank])]
  split
  · next hnone =>
    rw [hnext] at hnone
    cases hnone
  · next hsome =>
    rw [hnext] at hsome
    cases hsome
    rfl

/-- What follows a number that stands apart does not go on with it. -/
theorem Spaced.stopsNumber (h : Spaced ts s) (hts : ∀ u ∈ ts.head?, u.WellSpelled ∧ ¬u.IsNumber)
    (hr : ts = [] → StopsNumber r) : StopsNumber (s ++ r) := by
  cases h with
  | nil => exact hr rfl
  | @blank c _ _ hc _ =>
    intro d hd
    cases hd
    exact not_isNumberChar_of_isBlank hc
  | token t _ =>
    obtain ⟨ht, hnot⟩ := hts t rfl
    obtain ⟨c, u, htext, -, hc⟩ := exists_text ht
    rw [htext]
    intro d hd
    cases hd
    exact Bool.eq_false_iff.mpr fun h => hnot (hc h)

/-- The tokens that a text spells are read first, and then those of the text after it. -/
theorem tokens_append (h : Spaced ts s) (hts : ∀ t ∈ ts, t.WellSpelled) (hapart : NumbersApart ts)
    (hr : (∃ t ∈ ts.getLast?, t.IsNumber) → StopsNumber r) :
    tokens (s ++ r) = (tokens r).map (ts ++ ·) := by
  induction h with
  | nil => simp
  | blank hc _ ih => rw [List.cons_append, tokens_blank hc, ih hts hapart hr]
  | @token ts s t hs ih =>
    obtain ⟨ht, hrest⟩ := List.forall_mem_cons.mp hts
    obtain ⟨hnext, hchain⟩ := List.isChain_cons.mp hapart
    have hlast : (∃ u ∈ ts.getLast?, u.IsNumber) → StopsNumber r := by
      rintro ⟨u, hu, hnumber⟩
      refine hr ⟨u, ?_, hnumber⟩
      rw [Option.mem_def] at hu ⊢
      rw [List.getLast?_cons, hu]
      rfl
    -- A number is read as far as it goes, so the next token or `r` has to stop it.
    have hstop : t.IsNumber → StopsNumber (s ++ r) := by
      intro hnumber
      apply hs.stopsNumber
      · intro u hu
        exact ⟨hrest u (List.mem_of_mem_head? hu), fun h => hnext u hu ⟨hnumber, h⟩⟩
      · rintro rfl
        exact hr ⟨t, rfl, hnumber⟩
    rw [List.append_assoc, tokens_token ht hstop, ih hrest hchain hlast, Option.map_map]
    rfl

theorem of_tokens (h : tokens s = some ts) : Spaced ts s ∧ ∀ t ∈ ts, t.WellSpelled := by
  fun_induction tokens s generalizing ts with
  | case1 =>
    cases h
    exact ⟨.nil, by simp⟩
  | case2 c s hc ih => exact ⟨.blank hc (ih h).1, (ih h).2⟩
  | case3 => cases h
  | case4 c s hc t rest hnext _ ih =>
    obtain ⟨us, hus, rfl⟩ := Option.map_eq_some_iff.mp h
    obtain ⟨hspaced, hgood⟩ := ih hus
    obtain ⟨htext, ht⟩ := of_nextToken hnext
    rw [htext]
    exact ⟨.token t hspaced, List.forall_mem_cons.mpr ⟨ht, hgood⟩⟩

/-- A text with no token is blank. -/
theorem Spaced.of_nil (h : Spaced [] s) : ∀ c ∈ s, isBlank c = true := by
  generalize hts : ([] : List Token) = ts at h
  induction h with
  | nil => simp
  | blank hc _ ih => exact List.forall_mem_cons.mpr ⟨hc, ih hts⟩
  | token => cases hts

end Famicom.Json
