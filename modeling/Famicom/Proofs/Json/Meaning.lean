import Famicom.Proofs.Json.Value

/-! What the spellings of strings and of natural numbers say. -/

namespace Famicom.Json

/-! Strings. -/

def IsHigh (n : Nat) : Prop := 0xD800 ≤ n ∧ n < 0xDC00

def IsLow (n : Nat) : Prop := 0xDC00 ≤ n ∧ n < 0xE000

/-- A spelling says a text. Of the escapes with four digits a high surrogate and the low one after
it are one character, and no surrogate stands alone. -/
inductive Says : List Char → List Char → Prop
  | nil : Says [] []
  | plain {c : Char} {s t : List Char} (hc : c ≠ '\\') (hs : Says s t) : Says (c :: s) (c :: t)
  | escape {e c : Char} {s t : List Char} (hc : unescape e = some c) (hs : Says s t) :
      Says ('\\' :: e :: s) (c :: t)
  | unit {a b c d : Char} {s t : List Char} (hhigh : ¬IsHigh (hexWord a b c d))
      (hlow : ¬IsLow (hexWord a b c d)) (hs : Says s t) :
      Says ('\\' :: 'u' :: a :: b :: c :: d :: s) (Char.ofNat (hexWord a b c d) :: t)
  | pair {a b c d e f g h : Char} {s t : List Char} (hhigh : IsHigh (hexWord a b c d))
      (hlow : IsLow (hexWord e f g h)) (hs : Says s t) :
      Says ('\\' :: 'u' :: a :: b :: c :: d :: '\\' :: 'u' :: e :: f :: g :: h :: s)
        (Char.ofNat (0x10000 + (hexWord a b c d - 0xD800) * 0x400 + (hexWord e f g h - 0xDC00)) ::
          t)

theorem IsPlain.says_self {s : List Char} (h : IsPlain s) : Says s s := by
  induction s with
  | nil => exact .nil
  | cons c s ih =>
    obtain ⟨⟨_, _, hmark⟩, hs⟩ := List.forall_mem_cons.mp h
    exact .plain hmark (ih hs)

theorem SpellsString.of_hex {a b c d : Char} {s : List Char}
    (h : SpellsString ('\\' :: 'u' :: a :: b :: c :: d :: s)) : SpellsString s := by
  cases h with
  | plain _ _ hmark => exact absurd rfl hmark
  | escape he => exact absurd he (by decide)
  | hex _ _ _ _ hs => exact hs

theorem SpellsString.of_escape {e : Char} {s : List Char} (he : e ≠ 'u')
    (h : SpellsString ('\\' :: e :: s)) : SpellsString s := by
  cases h with
  | plain _ _ hmark => exact absurd rfl hmark
  | escape _ hs => exact hs
  | hex => exact absurd rfl he

theorem decode_unit {a b c d : Char} (s : List Char) (hhigh : ¬IsHigh (hexWord a b c d))
    (hlow : ¬IsLow (hexWord a b c d)) :
    decode ('\\' :: 'u' :: a :: b :: c :: d :: s) =
      (decode s).map (Char.ofNat (hexWord a b c d) :: ·) := by
  unfold IsHigh at hhigh
  unfold IsLow at hlow
  -- a unit that is neither half of a pair stands for itself, whatever follows it
  have hnot : ¬(0xD800 ≤ hexWord a b c d ∧ hexWord a b c d < 0xE000) := by omega
  rw [decode.eq_def]
  split
  · next heq => cases heq
  · next heq =>
    cases heq
    simp only [Bool.and_eq_true, decide_eq_true_eq]
    rw [if_neg hhigh, if_neg hlow]
  · next heq =>
    cases heq
    simp only [Bool.and_eq_true, decide_eq_true_eq]
    rw [if_neg hnot]
  · next hne heq =>
    cases heq
    exact (hne a b c d s rfl rfl).elim
  · next hne heq =>
    cases heq
    exact (hne 'u' _ rfl rfl).elim

theorem Says.decode_eq {s t : List Char} (h : Says s t) : decode s = some t := by
  induction h with
  | nil => rfl
  | plain hc hs ih =>
    rw [decode, ih]
    · rfl
    all_goals simp [hc]
  | @escape e c s t hc hs ih =>
    have he : e ≠ 'u' := by rintro rfl; cases hc
    rw [decode, ih, hc]
    · rfl
    all_goals simp [he]
  | unit hhigh hlow hs ih =>
    rw [decode_unit _ hhigh hlow, ih]
    rfl
  | pair hhigh hlow hs ih =>
    unfold IsHigh at hhigh
    unfold IsLow at hlow
    simp [decode, hhigh, hlow, ih]

theorem of_decode {s t : List Char} (hgood : SpellsString s) (h : decode s = some t) :
    Says s t := by
  -- along the branches of the reader: a pair of units, one that lacks its other half, a unit, an
  -- escape and a plain character
  fun_induction decode s generalizing t with
  | case1 =>
    cases h
    exact .nil
  | case2 a b c d e f g h' s n m hhigh hlow =>
    rename_i ih
    obtain ⟨u, hu, rfl⟩ := Option.map_eq_some_iff.mp h
    simp only [Bool.and_eq_true, decide_eq_true_eq] at hhigh hlow
    exact .pair hhigh hlow (ih hgood.of_hex.of_hex hu)
  | case3 | case4 => cases h
  | case5 a b c d e f g h' s n hhigh hlow =>
    rename_i ih
    obtain ⟨u, hu, rfl⟩ := Option.map_eq_some_iff.mp h
    simp only [Bool.and_eq_true, decide_eq_true_eq] at hhigh hlow
    exact .unit hhigh hlow (ih hgood.of_hex hu)
  | case6 => cases h
  | case7 a b c d s hne n hnot =>
    rename_i ih
    obtain ⟨u, hu, rfl⟩ := Option.map_eq_some_iff.mp h
    simp only [Bool.and_eq_true, decide_eq_true_eq] at hnot
    have hhigh : ¬IsHigh (hexWord a b c d) := fun hn => hnot ⟨hn.1, hn.2.trans (by decide)⟩
    have hlow : ¬IsLow (hexWord a b c d) := fun hn => hnot ⟨le_trans (by decide) hn.1, hn.2⟩
    exact .unit hhigh hlow (ih hgood.of_hex hu)
  | case8 e s _ hne ih =>
    simp only [Option.bind_eq_bind, Option.bind_eq_some_iff] at h
    obtain ⟨c, hc, u, hu, hcu⟩ := h
    cases hcu
    have he : e ≠ 'u' := by rintro rfl; cases hc
    exact .escape hc (ih (hgood.of_escape he) hu)
  | case9 c s _ _ hne ih =>
    obtain ⟨u, hu, rfl⟩ := Option.map_eq_some_iff.mp h
    have hc : c ≠ '\\' := by
      rintro rfl
      cases hgood with
      | plain _ _ hmark => exact hmark rfl
      | escape => exact hne _ _ rfl rfl
      | hex => exact hne _ _ rfl rfl
    exact .plain hc (ih (hgood.of_cons hc) hu)

theorem decode_eq_some_iff {s t : List Char} (hs : SpellsString s) :
    decode s = some t ↔ Says s t :=
  ⟨of_decode hs, fun h => h.decode_eq⟩

theorem Says.unique {s t u : List Char} (ht : Says s t) (hu : Says s u) : t = u :=
  Option.some.inj (ht.decode_eq.symm.trans hu.decode_eq)

/-! Natural numbers. -/

theorem exists_digitChar {c : Char} (h : c.isDigit = true) : ∃ d < 10, Nat.digitChar d = c := by
  obtain ⟨hlow, hhigh⟩ := Char.isDigit_iff_toNat.mp h
  change 48 ≤ c.toNat at hlow
  change c.toNat ≤ 57 at hhigh
  have hd : c.toNat - 48 < 10 := by omega
  refine ⟨c.toNat - 48, hd, Char.toNat_inj.mp ?_⟩
  rw [Nat.toNat_digitChar_of_lt_ten hd]
  omega

theorem SpellsWhole.append_digit {s : List Char} {c : Char} (h : SpellsWhole s) (hs : s ≠ ['0'])
    (hc : c.isDigit = true) : SpellsWhole (s ++ [c]) := by
  cases h with
  | zero => exact absurd rfl hs
  | nonzero hfirst hzero hrest =>
    refine .nonzero hfirst hzero ?_
    intro d hd
    rcases List.mem_append.mp hd with hd | hd
    · exact hrest d hd
    · rwa [List.mem_singleton.mp hd]

theorem spellsWhole_toDigits (n : Nat) : SpellsWhole (Nat.toDigits 10 n) := by
  induction n using Nat.strongRecOn with
  | ind n ih =>
    rcases Nat.lt_or_ge n 10 with hn | hn
    · rw [Nat.toDigits_of_lt_base hn]
      by_cases hzero : n = 0
      · rw [hzero]
        exact .zero
      · refine .nonzero ?_ ?_ ?_
        · simp [Nat.isDigit_digitChar, hn]
        · exact fun h => hzero (Nat.digitChar_eq_zero.mp h)
        · rintro _ ⟨⟩
    · rw [Nat.toDigits_of_base_le (by decide) hn]
      refine (ih (n / 10) (by omega)).append_digit ?_ ?_
      · intro hzero
        have hvalue := Nat.ofDigitChars_ten_toDigits (n := n / 10)
        rw [hzero] at hvalue
        change 0 = n / 10 at hvalue
        omega
      · simp [Nat.isDigit_digitChar, Nat.mod_lt]

/-- Without a zero in front the digits of a number are the only ones that say it. -/
theorem toDigits_ofDigitChars {s : List Char} (h : SpellsWhole s) :
    Nat.toDigits 10 (Nat.ofDigitChars 10 s 0) = s := by
  cases h with
  | zero => rfl
  | @nonzero c s hc hzero hs =>
    -- That the number is positive is needed for the next digit to go behind those before it.
    suffices hpos : 0 < Nat.ofDigitChars 10 (c :: s) 0 ∧
        Nat.toDigits 10 (Nat.ofDigitChars 10 (c :: s) 0) = c :: s from hpos.2
    induction s using List.reverseRecOn with
    | nil =>
      obtain ⟨d, hd, rfl⟩ := exists_digitChar hc
      have hd0 : d ≠ 0 := by
        rintro rfl
        exact hzero rfl
      rw [Nat.ofDigitChars_cons_digitChar_of_lt_ten hd, Nat.ofDigitChars_nil]
      refine ⟨by omega, ?_⟩
      rw [Nat.mul_zero, Nat.zero_add, Nat.toDigits_of_lt_base hd]
    | append_singleton s c' ih =>
      obtain ⟨hs, hc'⟩ := List.forall_mem_append.mp hs
      obtain ⟨hpos, hdigits⟩ := ih hs
      obtain ⟨d, hd, rfl⟩ := exists_digitChar (hc' c' List.mem_cons_self)
      rw [← List.cons_append, Nat.ofDigitChars_append,
        Nat.ofDigitChars_cons_digitChar_of_lt_ten hd, Nat.ofDigitChars_nil]
      refine ⟨by omega, ?_⟩
      rw [← Nat.toDigits_append_toDigits (by decide) hpos hd, hdigits, Nat.toDigits_of_lt_base hd]

/-- A number that is all digits is a whole part and nothing more. -/
theorem SpellsNumber.spellsWhole {s : List Char} (h : SpellsNumber s) (hs : AreDigits s) :
    SpellsWhole s := by
  obtain ⟨hsign, hwhole, hfraction, hexponent⟩ := h
  simp only [AreDigits, List.forall_mem_append] at hs
  obtain ⟨hs₁, -, hs₂, hs₃⟩ := hs
  simp only [List.mem_cons, List.not_mem_nil, or_false] at hsign
  rcases hsign with rfl | rfl
  · cases hfraction with
    | absent =>
      cases hexponent with
      | absent => simpa using hwhole
      | present he =>
        have he' := hs₃ _ List.mem_cons_self
        simp only [List.mem_cons, List.not_mem_nil, or_false] at he
        rcases he with rfl | rfl <;> cases he'
    | present => cases hs₂ _ List.mem_cons_self
  · cases hs₁ _ List.mem_cons_self

theorem areDigits_toDigits (n : Nat) : AreDigits (Nat.toDigits 10 n) :=
  fun _ hc => Nat.isDigit_of_mem_toDigits (by decide) (by decide) hc

theorem nat?_numberOf (n bound : Nat) :
    (numberOf n).nat? bound = if n < bound then some n else none := by
  have hvalue : (Nat.toDigits 10 n).foldl (fun n c => 10 * n + (c.toNat - '0'.toNat)) 0 = n :=
    Nat.ofDigitChars_ten_toDigits
  have hall : (Nat.toDigits 10 n).all Char.isDigit = true :=
    List.all_eq_true.mpr (areDigits_toDigits n)
  rw [numberOf, Value.nat?, if_pos hall, hvalue]

theorem nat?_eq_some_iff {v : Value} (hv : v.WellSpelled) {bound n : Nat} :
    v.nat? bound = some n ↔ v = numberOf n ∧ n < bound := by
  constructor
  · intro h
    unfold Value.nat? at h
    split at h
    · next s =>
      obtain ⟨hall, h⟩ := Option.ite_none_right_eq_some.mp h
      obtain ⟨hlt, hn⟩ := Option.ite_none_right_eq_some.mp h
      have hspells : SpellsNumber s := hv (.number s) List.mem_cons_self
      have hdigits := toDigits_ofDigitChars (hspells.spellsWhole (List.all_eq_true.mp hall))
      cases hn
      exact ⟨congrArg Value.number hdigits.symm, hlt⟩
    · cases h
  · rintro ⟨rfl, hn⟩
    rw [nat?_numberOf, if_pos hn]

theorem wellSpelled_numberOf (n : Nat) : (numberOf n).WellSpelled := by
  intro t ht
  obtain rfl := List.mem_singleton.mp ht
  have hsign : [] ∈ [[], ['-']] := by simp
  have h := SpellsNumber.mk hsign (spellsWhole_toDigits n) .absent .absent
  rwa [List.append_nil, List.append_nil, List.nil_append] at h

end Famicom.Json
