import Famicom.Json.Value
import Famicom.Proofs.Json.Token

/-! The values that texts hold. A value has its tokens, brackets and commas included, and a text
holds the value whose tokens it spells. -/

namespace Famicom.Json

theorem moreElements_eq (vs : List Value) :
    moreElements vs = vs.flatMap fun v => .comma :: v.tokens := by
  induction vs with
  | nil => rfl
  | cons v vs ih => rw [moreElements, ih, List.flatMap_cons, List.cons_append]

theorem moreMembers_eq (ms : List (List Char × Value)) :
    moreMembers ms = ms.flatMap fun m => .comma :: memberTokens m := by
  induction ms with
  | nil => rfl
  | cons m ms ih => rw [moreMembers, ih, List.flatMap_cons, List.cons_append]

/-! Reading what is spelled. -/

theorem readValue_leftBracket {stack : List Open} {ts : List Token}
    (h : ts.head? ≠ some .rightBracket) :
    readValue stack (.leftBracket :: ts) = readValue (.array [] :: stack) ts := by
  rw [readValue]
  rintro us rfl
  exact h rfl

theorem closeValue_comma {v : Value} {elements : List Value} {stack : List Open} {ts : List Token}
    (h : ∀ key us, ts ≠ .string key :: .colon :: us) :
    closeValue v (.array elements :: stack) (.comma :: ts) =
      readValue (.array (v :: elements) :: stack) ts := by
  rw [closeValue]
  exact h

theorem head?_tokens (v : Value) (rest : List Token) :
    (v.tokens ++ rest).head? ≠ some .rightBracket := by
  unfold Value.tokens
  split <;> simp

/-- A value is not the start of a member, unless a colon comes after it. -/
theorem tokens_ne_member (v : Value) {rest : List Token} (hrest : rest.head? ≠ some .colon)
    (key : List Char) (us : List Token) : v.tokens ++ rest ≠ .string key :: .colon :: us := by
  unfold Value.tokens
  split
  case h_4 =>
    intro heq
    rw [List.singleton_append, List.cons.injEq] at heq
    rw [heq.2] at hrest
    exact hrest rfl
  all_goals simp

-- The recursion is on the value, and on the elements or members that an array or object still has.
-- An open container comes with what it holds so far in reverse, as the reader keeps it.
mutual

theorem readValue_tokens (v : Value) (stack : List Open) (rest : List Token) :
    readValue stack (v.tokens ++ rest) = closeValue v stack rest := by
  match v with
  | .null | .bool _ | .number _ | .string _ | .array [] | .object [] => rfl
  | .array (v :: vs) =>
    rw [Value.tokens, List.cons_append, List.append_assoc,
      readValue_leftBracket (head?_tokens v _), readValue_tokens v, List.append_assoc]
    exact closeValue_elements vs v [] stack rest
  | .object ((key, v) :: ms) =>
    rw [Value.tokens, memberTokens]
    simp only [List.cons_append, List.append_assoc]
    rw [readValue, readValue_tokens v]
    exact closeValue_members ms v [] key stack rest

theorem closeValue_elements (vs : List Value) (v : Value) (before : List Value)
    (stack : List Open) (rest : List Token) :
    closeValue v (.array before :: stack) (moreElements vs ++ .rightBracket :: rest) =
      closeValue (.array (before.reverse ++ v :: vs)) stack rest := by
  match vs with
  | [] => simp [moreElements, closeValue]
  | w :: vs =>
    have hmore : (moreElements vs ++ .rightBracket :: rest).head? ≠ some .colon := by
      cases vs <;> simp [moreElements]
    rw [moreElements, List.cons_append, List.append_assoc,
      closeValue_comma (tokens_ne_member w hmore), readValue_tokens w, closeValue_elements vs,
      List.reverse_cons, List.append_assoc, List.singleton_append]

theorem closeValue_members (ms : List (List Char × Value)) (v : Value)
    (before : List (List Char × Value)) (last : List Char) (stack : List Open)
    (rest : List Token) :
    closeValue v (.object before last :: stack) (moreMembers ms ++ .rightBrace :: rest) =
      closeValue (.object (before.reverse ++ (last, v) :: ms)) stack rest := by
  match ms with
  | [] => simp [moreMembers, closeValue]
  | (key, w) :: ms =>
    rw [moreMembers, memberTokens]
    simp only [List.cons_append, List.append_assoc]
    rw [closeValue, readValue_tokens w, closeValue_members ms,
      List.reverse_cons, List.append_assoc, List.singleton_append]

end

/-! What is read is spelled. -/

/-- What has been read of an array or object that is still open. -/
def Open.tokens : Open → List Token
  | .array elements => .leftBracket :: elements.reverse.flatMap fun v => v.tokens ++ [.comma]
  | .object members key =>
    .leftBrace :: (members.reverse.flatMap (fun m => memberTokens m ++ [.comma]) ++
      [.string key, .colon])

def openTokens : List Open → List Token
  | [] => []
  | o :: stack => openTokens stack ++ o.tokens

/-- Commas after all parts but the last are commas before all parts but the first. -/
theorem flatMap_append_last {α β : Type} (f : α → List β) (sep : β) (as : List α) (a : α) :
    ∃ b bs, as ++ [a] = b :: bs ∧ (as.flatMap fun a => f a ++ [sep]) ++ f a =
      f b ++ bs.flatMap fun a => sep :: f a := by
  induction as with
  | nil => exact ⟨a, [], rfl, by simp⟩
  | cons c cs ih =>
    obtain ⟨b, bs, happend, hflat⟩ := ih
    refine ⟨c, cs ++ [a], rfl, ?_⟩
    rw [happend, List.flatMap_cons, List.append_assoc, hflat]
    simp

theorem tokens_close_array (v : Value) (vs : List Value) :
    (Open.array vs).tokens ++ (v.tokens ++ [.rightBracket]) =
      (Value.array (v :: vs).reverse).tokens := by
  obtain ⟨w, ws, happend, hflat⟩ := flatMap_append_last Value.tokens .comma vs.reverse v
  rw [List.reverse_cons, happend, Value.tokens, Open.tokens, List.cons_append, ← List.append_assoc,
    hflat, moreElements_eq, List.append_assoc]

theorem tokens_close_object (key : List Char) (v : Value) (ms : List (List Char × Value)) :
    (Open.object ms key).tokens ++ (v.tokens ++ [.rightBrace]) =
      (Value.object ((key, v) :: ms).reverse).tokens := by
  obtain ⟨m, ns, happend, hflat⟩ :=
    flatMap_append_last memberTokens .comma ms.reverse (key, v)
  rw [List.reverse_cons, happend, Value.tokens, moreMembers_eq,
    ← List.append_assoc (memberTokens m), ← hflat, memberTokens, Open.tokens]
  simp

-- The recursion is that of the reader, on the tokens that are left. At every step they make up the
-- tokens of the value with those that the stack stands for.
mutual

theorem of_readValue {stack : List Open} {ts : List Token} {w : Value}
    (h : readValue stack ts = some w) : openTokens stack ++ ts = w.tokens := by
  unfold readValue at h
  split at h
  · simpa [Value.tokens] using of_closeValue h
  · simpa [Value.tokens] using of_closeValue h
  · simpa [Value.tokens] using of_closeValue h
  · simpa [Value.tokens] using of_closeValue h
  · simpa [Value.tokens] using of_closeValue h
  · simpa [openTokens, Open.tokens] using of_readValue h
  · simpa [Value.tokens] using of_closeValue h
  · simpa [openTokens, Open.tokens] using of_readValue h
  · cases h

theorem of_closeValue {v : Value} {stack : List Open} {ts : List Token} {w : Value}
    (h : closeValue v stack ts = some w) : openTokens stack ++ (v.tokens ++ ts) = w.tokens := by
  unfold closeValue at h
  split at h
  · obtain ⟨hstack, hv⟩ := Option.ite_none_right_eq_some.mp h
    cases hv
    rw [List.isEmpty_iff.mp hstack]
    simp [openTokens]
  · split at h
    · simpa [openTokens, Open.tokens, memberTokens] using of_readValue h
    · cases h
  · split at h
    · simpa [openTokens, Open.tokens] using of_readValue h
    · cases h
  · split at h
    · rw [← of_closeValue h, ← tokens_close_array]
      simp [openTokens]
    · cases h
  · split at h
    · rw [← of_closeValue h, ← tokens_close_object]
      simp [openTokens]
    · cases h
  · cases h

end

/-! Texts of values. -/

/-- What may come after a value: it does not go on with a number. -/
structure MayFollow (ts : List Token) : Prop where
  apart : NumbersApart ts
  start : ∀ t ∈ ts.head?, ¬t.IsNumber

theorem mayFollow_nil : MayFollow [] := ⟨List.IsChain.nil, by simp⟩

theorem numbersApart_cons (t : Token) {ts : List Token} (h : MayFollow ts) :
    NumbersApart (t :: ts) :=
  List.isChain_cons.mpr ⟨fun u hu hboth => h.start u hu hboth.2, h.apart⟩

theorem mayFollow_cons {t : Token} (ht : ¬t.IsNumber) {ts : List Token} (h : NumbersApart ts) :
    MayFollow (t :: ts) := by
  refine ⟨List.isChain_cons.mpr ⟨fun _ _ hboth => ht hboth.1, h⟩, ?_⟩
  intro u hu
  cases hu
  exact ht

-- Only a number could run into a number, and after it comes a comma, a bracket or what may follow.
mutual

theorem numbersApart_tokens (v : Value) {rest : List Token} (h : MayFollow rest) :
    NumbersApart (v.tokens ++ rest) := by
  match v with
  | .null | .bool _ | .number _ | .string _ => exact numbersApart_cons _ h
  | .array [] => exact numbersApart_cons _ (mayFollow_cons id h.apart)
  | .array (v :: vs) =>
    simp only [Value.tokens, List.cons_append, List.append_assoc]
    have hclose : MayFollow ([.rightBracket] ++ rest) := mayFollow_cons id h.apart
    have helements := numbersApart_tokens v (mayFollow_elements vs hclose)
    exact (mayFollow_cons id helements).apart
  | .object [] => exact numbersApart_cons _ (mayFollow_cons id h.apart)
  | .object ((key, v) :: ms) =>
    simp only [Value.tokens, memberTokens, List.cons_append, List.append_assoc]
    have hclose : MayFollow ([.rightBrace] ++ rest) := mayFollow_cons id h.apart
    have hvalue := numbersApart_tokens v (mayFollow_members ms hclose)
    have hkey : MayFollow (.string key :: .colon :: _) :=
      mayFollow_cons id (mayFollow_cons id hvalue).apart
    exact (mayFollow_cons id hkey.apart).apart

theorem mayFollow_elements (vs : List Value) {rest : List Token} (h : MayFollow rest) :
    MayFollow (moreElements vs ++ rest) := by
  match vs with
  | [] => exact h
  | v :: vs =>
    rw [moreElements, List.cons_append, List.append_assoc]
    exact mayFollow_cons id (numbersApart_tokens v (mayFollow_elements vs h))

theorem mayFollow_members (ms : List (List Char × Value)) {rest : List Token}
    (h : MayFollow rest) : MayFollow (moreMembers ms ++ rest) := by
  match ms with
  | [] => exact h
  | (key, v) :: ms =>
    simp only [moreMembers, memberTokens, List.cons_append, List.append_assoc]
    have hvalue := numbersApart_tokens v (mayFollow_members ms h)
    have hkey : MayFollow (.string key :: .colon :: _) :=
      mayFollow_cons id (mayFollow_cons id hvalue).apart
    exact mayFollow_cons id hkey.apart

end

/-- Each number and each string in a value is spelled as the grammar has it. -/
def Value.WellSpelled (v : Value) : Prop := ∀ t ∈ v.tokens, t.WellSpelled

/-- A text holds a value: it spells the tokens of the value, perhaps with blanks between them. -/
structure Spells (s : List Char) (v : Value) : Prop where
  good : v.WellSpelled
  spaced : Spaced v.tokens s

theorem Spells.tokens_append {s r : List Char} {v : Value} (h : Spells s v)
    (hr : (∃ t ∈ v.tokens.getLast?, t.IsNumber) → StopsNumber r) :
    Json.tokens (s ++ r) = (Json.tokens r).map (v.tokens ++ ·) := by
  have hapart : NumbersApart v.tokens := by
    have h := numbersApart_tokens v mayFollow_nil
    rwa [List.append_nil] at h
  exact Json.tokens_append h.spaced h.good hapart hr

theorem parse_iff {s : List Char} {v : Value} : parse s = some v ↔ Spells s v := by
  unfold parse
  rw [Option.bind_eq_bind, Option.bind_eq_some_iff]
  constructor
  · rintro ⟨ts, hts, hv⟩
    obtain ⟨hspaced, hgood⟩ := of_tokens hts
    obtain rfl : ts = v.tokens := of_readValue hv
    exact ⟨hgood, hspaced⟩
  · intro h
    refine ⟨v.tokens, ?_, ?_⟩
    · have htokens := h.tokens_append (r := []) (fun _ => by rintro _ ⟨⟩)
      rw [List.append_nil] at htokens
      rw [htokens]
      simp [Json.tokens]
    · have hread := readValue_tokens v [] []
      rw [List.append_nil] at hread
      rw [hread]
      rfl

theorem Spells.unique {s : List Char} {v w : Value} (hv : Spells s v) (hw : Spells s w) : v = w :=
  Option.some.inj ((parse_iff.mpr hv).symm.trans (parse_iff.mpr hw))

theorem getLast?_tokens_array (vs : List Value) :
    (Value.array vs).tokens.getLast? = some .rightBracket := by
  cases vs with
  | nil => rfl
  | cons v vs => simp [Value.tokens, List.getLast?_cons]

theorem getLast?_tokens_object (ms : List (List Char × Value)) :
    (Value.object ms).tokens.getLast? = some .rightBrace := by
  cases ms with
  | nil => rfl
  | cons m ms => simp [Value.tokens, List.getLast?_cons]

/-- After a value that is not a number nothing but blanks may follow. -/
theorem parse_append_eq_none {s r : List Char} {v : Value} (h : Spells s v)
    (hv : ∀ t ∈ v.tokens.getLast?, ¬t.IsNumber) (hr : ∃ c ∈ r, isBlank c = false) :
    parse (s ++ r) = none := by
  unfold parse
  rw [h.tokens_append fun ⟨t, ht, hnumber⟩ => absurd hnumber (hv t ht)]
  cases hts : Json.tokens r with
  | none => rfl
  | some ts =>
    cases ts with
    | nil =>
      obtain ⟨c, hc, hnot⟩ := hr
      rw [(of_tokens hts).1.of_nil c hc] at hnot
      cases hnot
    | cons t ts =>
      change readValue [] (v.tokens ++ t :: ts) = none
      rw [readValue_tokens]
      unfold closeValue
      split <;> simp_all

/-! Parts of values. -/

theorem wellSpelled_array_iff {vs : List Value} :
    (Value.array vs).WellSpelled ↔ ∀ v ∈ vs, v.WellSpelled := by
  have hleft : Token.leftBracket.WellSpelled := trivial
  have hright : Token.rightBracket.WellSpelled := trivial
  have hcomma : Token.comma.WellSpelled := trivial
  unfold Value.WellSpelled
  cases vs with
  | nil => simp [Value.tokens, hleft, hright]
  | cons v vs =>
    rw [Value.tokens, moreElements_eq]
    simp only [List.forall_mem_cons, List.forall_mem_append, List.forall_mem_flatMap,
      List.not_mem_nil, false_implies, implies_true, and_true, hleft, hright, hcomma, true_and]

theorem forall_memberTokens_iff {m : List Char × Value} :
    (∀ t ∈ memberTokens m, t.WellSpelled) ↔ SpellsString m.1 ∧ m.2.WellSpelled := by
  have hcolon : Token.colon.WellSpelled := trivial
  obtain ⟨key, v⟩ := m
  rw [memberTokens, List.forall_mem_cons, List.forall_mem_cons, and_iff_right hcolon]
  exact Iff.rfl

theorem wellSpelled_object_iff {ms : List (List Char × Value)} :
    (Value.object ms).WellSpelled ↔ ∀ m ∈ ms, SpellsString m.1 ∧ m.2.WellSpelled := by
  have hleft : Token.leftBrace.WellSpelled := trivial
  have hright : Token.rightBrace.WellSpelled := trivial
  have hcomma : Token.comma.WellSpelled := trivial
  simp only [← forall_memberTokens_iff]
  unfold Value.WellSpelled
  cases ms with
  | nil => simp [Value.tokens, hleft, hright]
  | cons m ms =>
    rw [Value.tokens, moreMembers_eq]
    simp only [List.forall_mem_cons, List.forall_mem_append, List.forall_mem_flatMap,
      List.not_mem_nil, false_implies, implies_true, and_true, hleft, hright, hcomma, true_and]

end Famicom.Json
