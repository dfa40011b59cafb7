import Mathlib.Data.List.DropRight
import Mathlib.Tactic
import Famicom.Text.Blank
import Famicom.Text.Field

/-! What the parts of a text are: its fields, the two sides of a separator, and what is left of it
without the blanks at its ends. -/

namespace Famicom.Text

variable {sep : Char} {s t before after : List Char}

/-! Fields. -/

theorem fields_eq_splitOn (sep : Char) (s : List Char) : fields sep s = s.splitOn sep := by
  rw [List.splitOn_eq_splitOnP]
  induction s with
  | nil =>
    rw [List.splitOnP_nil]
    rfl
  | cons c s ih =>
    rw [List.splitOnP_cons_eq_if_modifyHead, ← ih]
    obtain ⟨f, fs, hfs⟩ := List.exists_cons_of_ne_nil (fields_ne_nil sep s)
    by_cases hc : c = sep
    · simp [fields, hc]
    · simp [fields, hc, hfs]

/-- A separator divides the fields before it from those after it. -/
theorem fields_append (sep : Char) (a b : List Char) :
    fields sep (a ++ sep :: b) = fields sep a ++ fields sep b := by
  simp only [fields_eq_splitOn, List.splitOn_eq_splitOnP]
  exact List.splitOnP_append_cons a b (beq_self_eq_true sep)

theorem not_mem_of_mem_fields {f : List Char} (h : f ∈ fields sep s) : sep ∉ f := by
  induction s generalizing f with
  | nil =>
    obtain rfl : f = [] := List.mem_singleton.mp h
    exact List.not_mem_nil
  | cons c s ih =>
    obtain ⟨g, gs, hgs⟩ := List.exists_cons_of_ne_nil (fields_ne_nil sep s)
    rw [hgs] at ih
    by_cases hc : c = sep
    · rw [fields, if_pos hc, hgs] at h
      rcases List.mem_cons.mp h with rfl | h
      · exact List.not_mem_nil
      · exact ih h
    · rw [fields, if_neg hc, hgs] at h
      rcases List.mem_cons.mp h with rfl | h
      · intro hsep
        rcases List.mem_cons.mp hsep with rfl | hsep
        · exact hc rfl
        · exact ih List.mem_cons_self hsep
      · exact ih (List.mem_cons_of_mem g h)

/-- The fields are the only texts without the separator that it joins to the whole. -/
theorem fields_eq_iff {fs : List (List Char)} : fields sep s = fs ↔
    fs ≠ [] ∧ (∀ f ∈ fs, sep ∉ f) ∧ [sep].intercalate fs = s := by
  constructor
  · rintro rfl
    refine ⟨fields_ne_nil sep s, fun f hf => not_mem_of_mem_fields hf, ?_⟩
    rw [fields_eq_splitOn]
    exact List.intercalate_splitOn sep
  · rintro ⟨hne, hsep, rfl⟩
    rw [fields_eq_splitOn]
    exact List.splitOn_intercalate sep hsep hne

theorem fields_of_not_mem (h : sep ∉ s) : fields sep s = [s] :=
  fields_eq_iff.mpr
    ⟨List.cons_ne_nil s [], List.forall_mem_singleton.mpr h, List.intercalate_singleton⟩

/-! The two sides of a separator. -/

theorem cut_eq_none_iff : cut sep s = none ↔ sep ∉ s := by
  induction s with
  | nil => simp [cut]
  | cons c s ih =>
    by_cases hc : c = sep
    · simp [cut, hc]
    · simp [cut, hc, ih, Ne.symm hc]

theorem cut_append (h : sep ∉ before) :
    cut sep (before ++ sep :: after) = some (before, after) := by
  induction before with
  | nil => simp [cut]
  | cons c before ih =>
    rw [List.mem_cons, not_or] at h
    simp [cut, Ne.symm h.1, ih h.2]

/-! What is left without blanks. -/

/-- One text is what is left of another when the blanks at both its ends are gone. -/
structure Trimmed (s t : List Char) : Prop where
  within : ∃ l r, s = l ++ t ++ r ∧ (∀ c ∈ l, isBlank c = true) ∧ ∀ c ∈ r, isBlank c = true
  head : ∀ c ∈ t.head?, isBlank c = false
  last : ∀ c ∈ t.getLast?, isBlank c = false

theorem trim_eq_rdropWhile (s : List Char) : trim s = (s.dropWhile isBlank).rdropWhile isBlank :=
  rfl

theorem trimmed_trim (s : List Char) : Trimmed s (trim s) := by
  rw [trim_eq_rdropWhile]
  obtain ⟨u, hu⟩ : ∃ u, u = s.dropWhile isBlank := ⟨_, rfl⟩
  have hfirst : ∀ c ∈ u.head?, isBlank c = false := by
    intro c hc
    have hnot := List.head?_dropWhile_not isBlank s
    rw [← hu, Option.mem_def.mp hc] at hnot
    exact hnot
  rw [← hu]
  refine ⟨⟨s.takeWhile isBlank, u.rtakeWhile isBlank, ?_, ?_, ?_⟩, ?_, ?_⟩
  · rw [List.append_assoc, List.rdropWhile_append_rtakeWhile, hu,
      List.takeWhile_append_dropWhile]
  · intro c hc
    exact List.mem_takeWhile_imp hc
  · intro c hc
    exact List.mem_rtakeWhile_imp hc
  · intro c hc
    obtain ⟨rest, hrest⟩ := List.rdropWhile_prefix isBlank (l := u)
    apply hfirst
    rw [← hrest, List.head?_append, Option.mem_def.mp hc]
    rfl
  · intro c hc
    have hne : u.rdropWhile isBlank ≠ [] := List.ne_nil_of_mem (List.mem_of_getLast? hc)
    have hnot := List.rdropWhile_last_not isBlank u hne
    rw [List.getLast?_eq_some_getLast hne] at hc
    cases hc
    exact Bool.eq_false_of_not_eq_true hnot

theorem dropWhile_blanks_append {l u : List Char} (hl : ∀ c ∈ l, isBlank c = true)
    (hu : ∀ c ∈ u.head?, isBlank c = false) : (l ++ u).dropWhile isBlank = u := by
  rw [List.dropWhile_append_of_pos hl]
  cases u with
  | nil => rfl
  | cons c u => exact List.dropWhile_cons_of_neg (by simp [hu c rfl])

/-- There is one way to leave the blanks out. -/
theorem trimmed_iff : Trimmed s t ↔ trim s = t := by
  constructor
  · rintro ⟨⟨l, r, rfl, hl, hr⟩, hhead, hlast⟩
    unfold trim
    -- if nothing but blanks is there, they are all in front
    cases t with
    | nil =>
      have hblank : ∀ c ∈ l ++ [] ++ r, isBlank c = true := by
        intro c hc
        rw [List.append_nil, List.mem_append] at hc
        exact hc.elim (hl c) (hr c)
      rw [List.dropWhile_eq_nil_iff.mpr hblank]
      rfl
    | cons a t =>
      have hfront : ((l ++ (a :: t) ++ r).dropWhile isBlank) = a :: t ++ r := by
        rw [List.append_assoc]
        exact dropWhile_blanks_append hl hhead
      have hback : ((r.reverse ++ (a :: t).reverse).dropWhile isBlank) = (a :: t).reverse := by
        apply dropWhile_blanks_append
        · intro c hc
          exact hr c (List.mem_reverse.mp hc)
        · rw [List.head?_reverse]
          exact hlast
      rw [hfront, List.reverse_append, hback, List.reverse_reverse]
  · rintro rfl
    exact trimmed_trim s

end Famicom.Text
