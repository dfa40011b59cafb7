import Mathlib.Data.List.Forall2
import Mathlib.Data.List.Perm.Basic
import Famicom.Frame.Json
import Famicom.Proofs.Json.Meaning

/-! Frames in JSON: the text that is written for a frame, and all the texts that are read as it. -/

namespace Famicom.Frame

open Json

variable {f : Frame}

/-! What a frame is in JSON. -/

def fieldNames : List (List Char) := ["width".toList, "height".toList, "pixels".toList]

theorem forall_mem_fields_iff {p : List Char × Value → Prop} :
    (∀ m ∈ f.fields, p m) ↔ p ("width".toList, numberOf f.width.toNat) ∧
      p ("height".toList, numberOf f.height.toNat) ∧
      p ("pixels".toList, .array (f.pixels.toList.map fun p => numberOf p.toNat)) := by
  simp only [fields, List.forall_mem_cons, List.not_mem_nil, false_implies, implies_true, and_true]

/-- The members of an object with what their keys say in place of how they are spelled. -/
def Named (members named : List (List Char × Value)) : Prop :=
  List.Forall₂ (fun m n => Says m.1 n.1 ∧ m.2 = n.2) members named

/-- A value describes a frame as the array of its fields, or as an object of them in any order
with any other members between them. -/
inductive Describes : Value → Frame → Prop
  | array {f : Frame} {vs : List Value} (hvs : f.fields.map Prod.snd = vs) :
      Describes (.array vs) f
  | object {f : Frame} {members named unknown : List (List Char × Value)}
      (hnamed : Named members named) (hunknown : ∀ m ∈ unknown, m.1 ∉ fieldNames)
      (hperm : named.Perm (f.fields ++ unknown)) : Describes (.object members) f

/-- What a library for JSON and what is derived for frames are documented to do: values are written
without blanks and read with blanks anywhere between their tokens, a frame is written as an object
of its fields in order, and it is read from an array of them in order or from an object that has
each of them once. -/
structure Codec.Documented (c : Codec) : Prop where
  print_eq (v : Value) (hv : v.WellSpelled) : (c.print v).toList = v.tokens.flatMap Token.text
  parse_iff (text : String) (v : Value) : c.parse text = some v ↔ Spells text.toList v
  toValue_eq (f : Frame) : c.toValue f = .object f.fields
  ofValue_array (vs : List Value) (hvs : (Value.array vs).WellSpelled) (f : Frame) :
    c.ofValue (.array vs) = some f ↔ vs = f.fields.map Prod.snd
  /-- Members with other names are passed over. -/
  ofValue_object (members : List (List Char × Value)) (hmembers : (Value.object members).WellSpelled)
      (f : Frame) :
    c.ofValue (.object members) = some f ↔
      ∃ named, Named members named ∧ ∀ m ∈ f.fields, named.filter (·.1 = m.1) = [m]
  ofValue_other (v : Value) (harray : ∀ vs, v ≠ .array vs) (hobject : ∀ members, v ≠ .object members) :
    c.ofValue v = none

/-- The values that fit a field. -/
inductive Fits : List Char → Value → Prop
  | size {name : List Char} {n : Nat} (hname : name ∈ ["width".toList, "height".toList])
      (hn : n < UInt32.size) : Fits name (numberOf n)
  | pixels {ns : List Nat} (hns : ∀ n ∈ ns, n < UInt8.size) :
      Fits "pixels".toList (.array (ns.map numberOf))

/-- What is wrong with the fields of an object or of an array. -/
inductive Faulty : Value → Prop
  | missing {members : List (List Char × Value)} {name : List Char} (hname : name ∈ fieldNames)
      (hmissing : ∀ m ∈ members, ¬Says m.1 name) : Faulty (.object members)
  | repeated {members : List (List Char × Value)} {name : List Char} {m n : List Char × Value}
      (hname : name ∈ fieldNames) (htwo : [m, n].Sublist members) (hm : Says m.1 name)
      (hn : Says n.1 name) : Faulty (.object members)
  | unfit {members : List (List Char × Value)} {name : List Char} {m : List Char × Value}
      (hname : name ∈ fieldNames) (hmem : m ∈ members) (hm : Says m.1 name)
      (hunfit : ¬Fits name m.2) : Faulty (.object members)
  | length {vs : List Value} (hlength : vs.length ≠ fieldNames.length) : Faulty (.array vs)
  | unfitPlace {vs : List Value} {name : List Char} {v : Value}
      (hplace : (name, v) ∈ fieldNames.zip vs) (hunfit : ¬Fits name v) : Faulty (.array vs)

/-! Fields. -/

section

variable {α β : Type} {R : α → β → Prop} {g : α → Option β} {xs xs' : List α} {ys : List β}

theorem mapM_eq_some_iff : xs.mapM g = some ys ↔ List.Forall₂ (fun x y => g x = some y) xs ys := by
  induction xs generalizing ys with
  | nil => cases ys <;> simp
  | cons x xs ih =>
    rw [List.mapM_cons, List.forall₂_cons_left_iff]
    rcases g x with _ | y
    · simp
    · rcases hxs : xs.mapM g with _ | rest
      · simp [← ih, hxs]
      · simp [← ih, hxs, eq_comm]

theorem exists_sublist_of_forall₂ (h : List.Forall₂ R xs ys) (hsub : xs'.Sublist xs) :
    ∃ ys', ys'.Sublist ys ∧ List.Forall₂ R xs' ys' := by
  induction h generalizing xs' with
  | nil => exact ⟨[], .slnil, List.sublist_nil.mp hsub ▸ .nil⟩
  | @cons x y xs ys hxy _ ih =>
    cases hsub with
    | cons _ hsub =>
      obtain ⟨ys', hys, hR⟩ := ih hsub
      exact ⟨ys', hys.cons y, hR⟩
    | cons_cons _ hsub =>
      obtain ⟨ys', hys, hR⟩ := ih hsub
      exact ⟨y :: ys', hys.cons_cons y, .cons hxy hR⟩

end

theorem mapM_nat?_iff {vs : List Value} (hvs : ∀ v ∈ vs, v.WellSpelled) {bound : Nat}
    {ns : List Nat} :
    vs.mapM (·.nat? bound) = some ns ↔ vs = ns.map numberOf ∧ ∀ n ∈ ns, n < bound := by
  rw [mapM_eq_some_iff]
  induction vs generalizing ns with
  | nil => cases ns <;> simp
  | cons v vs ih =>
    obtain ⟨hv, hvs⟩ := List.forall_mem_cons.mp hvs
    cases ns with
    | nil => simp
    | cons n ns =>
      rw [List.forall₂_cons, nat?_eq_some_iff hv, ih hvs, List.map_cons, List.cons.injEq,
        List.forall_mem_cons, and_and_and_comm]

theorem lt_of_mem_pixels (f : Frame) : ∀ n ∈ f.pixels.toList.map UInt8.toNat, n < UInt8.size := by
  intro n hn
  obtain ⟨p, -, rfl⟩ := List.mem_map.mp hn
  exact p.toNat_lt_size

theorem elements?_eq_some_iff {v : Value} {vs : List Value} :
    v.elements? = some vs ↔ v = .array vs := by
  cases v <;> simp [Value.elements?]

theorem fields_ofNat {w h : Nat} {ns : List Nat} (hw : w < UInt32.size) (hh : h < UInt32.size)
    (hns : ∀ n ∈ ns, n < UInt8.size) :
    (fields ⟨.ofNat w, .ofNat h, (ns.map UInt8.ofNat).toArray⟩).map Prod.snd =
      [numberOf w, numberOf h, .array (ns.map numberOf)] := by
  have hpixels : ((ns.map UInt8.ofNat).map fun p => numberOf p.toNat) = ns.map numberOf := by
    rw [List.map_map]
    apply List.map_congr_left
    intro n hn
    rw [Function.comp_apply, UInt8.toNat_ofNat_of_lt' (hns n hn)]
  simp only [fields, List.map_cons, List.map_nil, UInt32.toNat_ofNat_of_lt' hw,
    UInt32.toNat_ofNat_of_lt' hh, hpixels]

/-- Three values are the fields of one frame at most. -/
theorem ofFields?_eq_some_iff {width height pixels : Value} (hwidth : width.WellSpelled)
    (hheight : height.WellSpelled) (hpixels : pixels.WellSpelled) :
    ofFields? width height pixels = some f ↔ f.fields.map Prod.snd = [width, height, pixels] := by
  simp only [ofFields?, Option.bind_eq_bind, Option.bind_eq_some_iff, nat?_eq_some_iff hwidth,
    nat?_eq_some_iff hheight, elements?_eq_some_iff]
  constructor
  · rintro ⟨w, ⟨rfl, hw⟩, h, ⟨rfl, hh⟩, vs, rfl, ns, hmap, hf⟩
    obtain ⟨rfl, hns⟩ := (mapM_nat?_iff (wellSpelled_array_iff.mp hpixels)).mp hmap
    cases hf
    exact fields_ofNat hw hh hns
  · intro h
    simp only [fields, List.map_cons, List.map_nil, List.cons.injEq, and_true] at h
    obtain ⟨rfl, rfl, rfl⟩ := h
    have hgood := wellSpelled_array_iff.mp hpixels
    refine ⟨_, ⟨rfl, f.width.toNat_lt_size⟩, _, ⟨rfl, f.height.toNat_lt_size⟩, _, rfl,
      f.pixels.toList.map UInt8.toNat, (mapM_nat?_iff hgood).mpr ⟨?_, lt_of_mem_pixels f⟩, ?_⟩
    · rw [List.map_map]
      rfl
    · simp [Function.comp_def]

/-! Members. -/

theorem member?_eq_some_iff {members : List (List Char × Value)} {key : String} {v : Value} :
    member? members key = some v ↔ members.filter (·.1 = key.toList) = [(key.toList, v)] := by
  unfold member?
  split
  · next name w hfilter =>
    have hname : (name, w) ∈ members.filter (·.1 = key.toList) := by
      rw [hfilter]
      exact List.mem_singleton_self _
    have hkey : name = key.toList := by simpa using (List.mem_filter.mp hname).2
    rw [hfilter, hkey]
    simp
  · next hne =>
    simp only [reduceCtorEq, false_iff]
    exact hne _ _

theorem perm_cons_of_filter {named : List (List Char × Value)} {m : List Char × Value}
    (h : named.filter (·.1 = m.1) = [m]) : named.Perm (m :: named.filter (·.1 ≠ m.1)) := by
  have hperm := (List.filter_append_perm (fun n => decide (n.1 = m.1)) named).symm
  rw [h] at hperm
  simpa using hperm

theorem filter_filter_of_ne {named : List (List Char × Value)} {name other : List Char}
    (h : name ≠ other) :
    (named.filter (·.1 ≠ other)).filter (·.1 = name) = named.filter (·.1 = name) := by
  rw [List.filter_filter]
  apply List.filter_congr
  intro n _
  by_cases hn : n.1 = name
  · simp [hn, h]
  · simp [hn]

/-- Each of some members with different names is the only one with its name, if the rest of the
members have other names. -/
theorem filter_names_iff {known named : List (List Char × Value)}
    (hknown : (known.map Prod.fst).Nodup) :
    (∀ m ∈ known, named.filter (·.1 = m.1) = [m]) ↔
      ∃ unknown, (∀ n ∈ unknown, n.1 ∉ known.map Prod.fst) ∧ named.Perm (known ++ unknown) := by
  induction known generalizing named with
  | nil =>
    simp only [List.not_mem_nil, false_implies, implies_true, List.map_nil, not_false_eq_true,
      List.nil_append, true_and, true_iff]
    exact ⟨named, .refl _⟩
  | cons m known ih =>
    -- The first of the known members is taken out on the one side and put among the unknown ones on
    -- the other: for the rest of the names it is one of those.
    obtain ⟨hm, hrest⟩ := List.nodup_cons.mp hknown
    constructor
    · intro h
      obtain ⟨hfirst, hothers⟩ := List.forall_mem_cons.mp h
      have hfilter : ∀ n ∈ known, (named.filter (·.1 ≠ m.1)).filter (·.1 = n.1) = [n] := by
        intro n hn
        have hne : n.1 ≠ m.1 := fun heq => hm (heq ▸ List.mem_map_of_mem hn)
        rw [filter_filter_of_ne hne, hothers n hn]
      obtain ⟨unknown, hunknown, hperm⟩ := (ih hrest).mp hfilter
      refine ⟨unknown, ?_, (perm_cons_of_filter hfirst).trans (hperm.cons m)⟩
      intro n hn hmem
      rcases List.mem_cons.mp hmem with heq | hmem
      · have hne : n ∈ named.filter (·.1 ≠ m.1) :=
          hperm.mem_iff.mpr (List.mem_append_right known hn)
        simp [heq] at hne
      · exact hunknown n hn hmem
    · rintro ⟨unknown, hunknown, hperm⟩
      simp only [List.map_cons, List.mem_cons, not_or] at hunknown
      refine List.forall_mem_cons.mpr ⟨?_, (ih hrest).mpr ⟨m :: unknown, ?_, ?_⟩⟩
      · have hothers : (known ++ unknown).filter (·.1 = m.1) = [] := by
          rw [List.filter_eq_nil_iff]
          intro n hn
          simp only [decide_eq_true_eq]
          rcases List.mem_append.mp hn with hn | hn
          · exact fun heq => hm (heq ▸ List.mem_map_of_mem hn)
          · exact (hunknown n hn).1
        have hfilter := hperm.filter (·.1 = m.1)
        rw [List.cons_append, List.filter_cons_of_pos (by simp), hothers] at hfilter
        exact List.perm_singleton.mp hfilter
      · exact List.forall_mem_cons.mpr ⟨hm, fun n hn => (hunknown n hn).2⟩
      · exact hperm.trans List.perm_middle.symm

theorem map_fst_fields (f : Frame) : f.fields.map Prod.fst = fieldNames := rfl

theorem nodup_fieldNames : fieldNames.Nodup := by decide

theorem filter_fields_iff {named : List (List Char × Value)} :
    (∀ m ∈ f.fields, named.filter (·.1 = m.1) = [m]) ↔
      ∃ unknown, (∀ n ∈ unknown, n.1 ∉ fieldNames) ∧ named.Perm (f.fields ++ unknown) :=
  filter_names_iff nodup_fieldNames

theorem named_iff {members named : List (List Char × Value)}
    (h : ∀ m ∈ members, SpellsString m.1) :
    (members.mapM fun (key, v) => (decode key).map (·, v)) = some named ↔ Named members named := by
  rw [mapM_eq_some_iff]
  unfold Named
  induction members generalizing named with
  | nil => cases named <;> simp
  | cons m members ih =>
    obtain ⟨hm, hmembers⟩ := List.forall_mem_cons.mp h
    cases named with
    | nil => simp
    | cons n named =>
      rw [List.forall₂_cons, List.forall₂_cons, ih hmembers, ← decode_eq_some_iff hm]
      obtain ⟨name, v⟩ := n
      simp [and_comm]

theorem Named.exists_named {members named : List (List Char × Value)} (h : Named members named)
    {m : List Char × Value} (hm : m ∈ members) : ∃ n ∈ named, Says m.1 n.1 ∧ m.2 = n.2 := by
  obtain ⟨ns, hsub, hns⟩ := exists_sublist_of_forall₂ h (List.singleton_sublist.mpr hm)
  obtain ⟨n, _, hn, hnil, rfl⟩ := List.forall₂_cons_left_iff.mp hns
  exact ⟨n, hsub.subset List.mem_cons_self, hn⟩

theorem Named.exists_member {members named : List (List Char × Value)} (h : Named members named)
    {n : List Char × Value} (hn : n ∈ named) : ∃ m ∈ members, Says m.1 n.1 ∧ m.2 = n.2 := by
  obtain ⟨ms, hsub, hms⟩ := exists_sublist_of_forall₂ h.flip (List.singleton_sublist.mpr hn)
  obtain ⟨m, _, hm, hnil, rfl⟩ := List.forall₂_cons_left_iff.mp hms
  exact ⟨m, hsub.subset List.mem_cons_self, hm⟩

theorem describes_object_iff {members : List (List Char × Value)} :
    Describes (.object members) f ↔
      ∃ named, Named members named ∧ ∀ m ∈ f.fields, named.filter (·.1 = m.1) = [m] := by
  constructor
  · rintro (_ | ⟨hnamed, hunknown, hperm⟩)
    exact ⟨_, hnamed, filter_fields_iff.mpr ⟨_, hunknown, hperm⟩⟩
  · rintro ⟨named, hnamed, hfields⟩
    obtain ⟨unknown, hunknown, hperm⟩ := filter_fields_iff.mp hfields
    exact .object hnamed hunknown hperm

/-- The three members by the names of the fields are those of a frame. -/
theorem exists_ofFields?_iff {named : List (List Char × Value)}
    (hgood : ∀ n ∈ named, n.2.WellSpelled) :
    (∃ width, named.filter (·.1 = "width".toList) = [("width".toList, width)] ∧
      ∃ height, named.filter (·.1 = "height".toList) = [("height".toList, height)] ∧
      ∃ pixels, named.filter (·.1 = "pixels".toList) = [("pixels".toList, pixels)] ∧
      ofFields? width height pixels = some f) ↔
      ∀ m ∈ f.fields, named.filter (·.1 = m.1) = [m] := by
  have hvalue : ∀ {name : List Char} {v : Value}, named.filter (·.1 = name) = [(name, v)] →
      v.WellSpelled := by
    intro name v hfilter
    have hmem : (name, v) ∈ named.filter (·.1 = name) := by
      rw [hfilter]
      exact List.mem_cons_self
    exact hgood _ (List.mem_of_mem_filter hmem)
  rw [forall_mem_fields_iff]
  -- the values that the fields are read from are those that the frame is written with
  constructor
  · rintro ⟨width, hw, height, hh, pixels, hp, hf⟩
    have hfields := (ofFields?_eq_some_iff (hvalue hw) (hvalue hh) (hvalue hp)).mp hf
    simp only [fields, List.map_cons, List.map_nil, List.cons.injEq, and_true] at hfields
    obtain ⟨rfl, rfl, rfl⟩ := hfields
    exact ⟨hw, hh, hp⟩
  · rintro ⟨hw, hh, hp⟩
    refine ⟨_, hw, _, hh, _, hp, ?_⟩
    exact (ofFields?_eq_some_iff (hvalue hw) (hvalue hh) (hvalue hp)).mpr rfl

theorem ofValue?_array_iff {vs : List Value} (hvs : (Value.array vs).WellSpelled) :
    ofValue? (.array vs) = some f ↔ vs = f.fields.map Prod.snd := by
  unfold ofValue?
  split
  · next width height pixels heq =>
    cases heq
    obtain ⟨hw, hrest⟩ := List.forall_mem_cons.mp (wellSpelled_array_iff.mp hvs)
    obtain ⟨hh, hrest⟩ := List.forall_mem_cons.mp hrest
    rw [ofFields?_eq_some_iff hw hh (hrest pixels List.mem_cons_self), eq_comm]
  · next heq => cases heq
  · next harray _ =>
    simp only [reduceCtorEq, false_iff]
    rintro rfl
    exact harray _ _ _ rfl

theorem ofValue?_object_iff {members : List (List Char × Value)}
    (h : (Value.object members).WellSpelled) :
    ofValue? (.object members) = some f ↔
      ∃ named, Named members named ∧ ∀ m ∈ f.fields, named.filter (·.1 = m.1) = [m] := by
  have hmembers := wellSpelled_object_iff.mp h
  simp only [ofValue?, Option.bind_eq_bind, Option.bind_eq_some_iff, member?_eq_some_iff,
    named_iff fun m hm => (hmembers m hm).1]
  refine exists_congr fun named => and_congr_right fun hnamed => ?_
  apply exists_ofFields?_iff
  intro n hn
  obtain ⟨m, hm, -, hvalue⟩ := hnamed.exists_member hn
  exact hvalue ▸ (hmembers m hm).2

theorem ofValue?_eq_none {v : Value} (harray : ∀ vs, v ≠ .array vs)
    (hobject : ∀ members, v ≠ .object members) : ofValue? v = none := by
  cases v with
  | array vs => exact absurd rfl (harray vs)
  | object members => exact absurd rfl (hobject members)
  | null | bool | number | string => rfl

/-- The codec that the program is built with is one. -/
theorem documented_codec : codec.Documented where
  print_eq _ _ := String.toList_ofList
  parse_iff _ _ := Json.parse_iff
  toValue_eq _ := rfl
  ofValue_array _ hvs _ := ofValue?_array_iff hvs
  ofValue_object _ hmembers _ := ofValue?_object_iff hmembers
  ofValue_other _ harray hobject := ofValue?_eq_none harray hobject

namespace Codec.Documented

variable {c : Codec}

theorem ofValue_iff (hc : c.Documented) {v : Value} (hv : v.WellSpelled) :
    c.ofValue v = some f ↔ Describes v f := by
  cases v with
  | array vs =>
    rw [hc.ofValue_array vs hv]
    constructor
    · exact fun h => .array h.symm
    · rintro (hvs | _)
      exact hvs.symm
  | object members => rw [hc.ofValue_object members hv, describes_object_iff]
  | null | bool | number | string =>
    rw [hc.ofValue_other _ (by simp) (by simp)]
    simp only [reduceCtorEq, false_iff]
    rintro ⟨⟩

theorem decode_iff (hc : c.Documented) {text : String} :
    c.decode text = some f ↔ ∃ v, Spells text.toList v ∧ Describes v f := by
  unfold decode
  rw [Option.bind_eq_bind, Option.bind_eq_some_iff]
  refine exists_congr fun v => ?_
  rw [hc.parse_iff]
  exact and_congr_right fun h => hc.ofValue_iff h.good

end Codec.Documented

/-! Faults. -/

theorem fits_fields (f : Frame) : ∀ m ∈ f.fields, Fits m.1 m.2 := by
  have hpixels := Fits.pixels (lt_of_mem_pixels f)
  rw [List.map_map] at hpixels
  exact forall_mem_fields_iff.mpr
    ⟨.size (by simp) f.width.toNat_lt_size, .size (by simp) f.height.toNat_lt_size, hpixels⟩

/-- Each field has one member of an object that describes a frame, with a value that fits. -/
theorem Describes.exists_fits {members : List (List Char × Value)}
    (h : Describes (.object members) f) : ∃ named, Named members named ∧ ∀ name ∈ fieldNames,
      ∃ v, Fits name v ∧ named.filter (·.1 = name) = [(name, v)] := by
  obtain ⟨named, hnamed, honly⟩ := describes_object_iff.mp h
  refine ⟨named, hnamed, fun name hname => ?_⟩
  rw [← map_fst_fields f] at hname
  obtain ⟨m, hm, rfl⟩ := List.mem_map.mp hname
  exact ⟨m.2, fits_fields f m hm, honly m hm⟩

theorem Describes.not_faulty {v : Value} (h : Describes v f) : ¬Faulty v := by
  intro hfault
  cases hfault with
  | missing hname hmissing =>
    obtain ⟨named, hnamed, hfields⟩ := h.exists_fits
    obtain ⟨v, -, honly⟩ := hfields _ hname
    have hv := List.mem_of_mem_filter (honly ▸ List.mem_cons_self)
    obtain ⟨m, hmem, hm, -⟩ := hnamed.exists_member hv
    exact hmissing m hmem hm
  | @repeated members name m n hname htwo hm hn =>
    obtain ⟨named, hnamed, hfields⟩ := h.exists_fits
    obtain ⟨v, -, honly⟩ := hfields name hname
    obtain ⟨ns, hsub, hns⟩ := exists_sublist_of_forall₂ hnamed htwo
    obtain ⟨m', _, ⟨hm', -⟩, hrest, rfl⟩ := List.forall₂_cons_left_iff.mp hns
    obtain ⟨n', _, ⟨hn', -⟩, hnil, rfl⟩ := List.forall₂_cons_left_iff.mp hrest
    obtain rfl := List.forall₂_nil_left_iff.mp hnil
    -- two members of one name cannot both be the only one
    have hlength := (hsub.filter fun x => decide (x.1 = name)).length_le
    rw [honly] at hlength
    simp [hm'.unique hm, hn'.unique hn] at hlength
  | @unfit members name m hname hmem hm hunfit =>
    obtain ⟨named, hnamed, hfields⟩ := h.exists_fits
    obtain ⟨v, hfits, honly⟩ := hfields name hname
    obtain ⟨n, hn, hsaid, hvalue⟩ := hnamed.exists_named hmem
    have hn' : n ∈ named.filter (·.1 = name) :=
      List.mem_filter.mpr ⟨hn, decide_eq_true (hsaid.unique hm)⟩
    rw [honly] at hn'
    obtain rfl := List.mem_singleton.mp hn'
    exact hunfit (hvalue ▸ hfits)
  | length hlength =>
    cases h with
    | array hvs => exact hlength (hvs ▸ rfl)
  | unfitPlace hplace hunfit =>
    cases h with
    | array hvs =>
      subst hvs
      exact hunfit (fits_fields f (_, _) hplace)

/-! Written texts. -/

theorem spaced_flatMap_text (ts : List Token) : Spaced ts (ts.flatMap Token.text) := by
  induction ts with
  | nil => exact .nil
  | cons t ts ih => exact .token t ih

theorem isPlain_fieldNames : ∀ name ∈ fieldNames, IsPlain name := by
  have hall : (fieldNames.all fun name =>
      name.all fun c => ' ' ≤ c && c ≠ '\"' && c ≠ '\\') = true := by
    decide
  intro name hname c hc
  simpa [and_assoc] using List.all_eq_true.mp (List.all_eq_true.mp hall name hname) c hc

theorem wellSpelled_fields (f : Frame) : (Value.object f.fields).WellSpelled := by
  obtain ⟨hwidth, hheight, hpixels, -⟩ : _ ∧ _ ∧ _ ∧ _ := by
    simpa only [fieldNames, List.forall_mem_cons] using isPlain_fieldNames
  have harray : (Value.array (f.pixels.toList.map fun p => numberOf p.toNat)).WellSpelled := by
    refine wellSpelled_array_iff.mpr fun v hv => ?_
    obtain ⟨p, -, rfl⟩ := List.mem_map.mp hv
    exact wellSpelled_numberOf p.toNat
  rw [wellSpelled_object_iff, forall_mem_fields_iff]
  exact ⟨⟨hwidth.spellsString, wellSpelled_numberOf _⟩,
    ⟨hheight.spellsString, wellSpelled_numberOf _⟩, hpixels.spellsString, harray⟩

/-- The text that is written has no blanks: it is that of the object of the fields in order. -/
theorem Codec.Documented.toList_encode {c : Codec} (hc : c.Documented) (f : Frame) :
    (c.encode f).toList = (Value.object f.fields).tokens.flatMap Token.text := by
  unfold encode
  rw [hc.toValue_eq, hc.print_eq _ (wellSpelled_fields f)]

theorem Codec.Documented.spells_encode {c : Codec} (hc : c.Documented) (f : Frame) :
    Spells (c.encode f).toList (.object f.fields) :=
  ⟨wellSpelled_fields f, hc.toList_encode f ▸ spaced_flatMap_text _⟩

theorem describes_fields (f : Frame) : Describes (.object f.fields) f := by
  have hnamed : Named f.fields f.fields := by
    unfold Named
    rw [List.forall₂_same]
    intro m hm
    have hname : m.1 ∈ fieldNames := map_fst_fields f ▸ List.mem_map_of_mem hm
    exact ⟨(isPlain_fieldNames m.1 hname).says_self, rfl⟩
  have hunknown : ∀ m ∈ ([] : List (List Char × Value)), m.1 ∉ fieldNames := by simp
  exact .object hnamed hunknown (by rw [List.append_nil])

/-! Reading. -/

/-- A frame is read from the text that is written for it and from every other text of a value that
describes it, and from nothing else. In particular no frame is read where a field is missing, given
twice or out of its range, nor where anything but blanks comes after a frame. -/
theorem json_round_trip (c : Codec) (hc : c.Documented) (f : Frame) :
    ((c.encode f).toList = (Value.object f.fields).tokens.flatMap Token.text ∧
      c.decode (c.encode f) = some f) ∧
    (∀ text, c.decode text = some f ↔ ∃ v, Spells text.toList v ∧ Describes v f) ∧
    (∀ text v, Spells text.toList v → Faulty v → c.decode text = none) ∧
    (∀ text rest, c.decode text = some f → (∃ mark ∈ rest.toList, isBlank mark = false) →
      c.decode (text ++ rest) = none) := by
  refine ⟨⟨hc.toList_encode f, ?_⟩, fun text => hc.decode_iff, ?_, ?_⟩
  · exact hc.decode_iff.mpr ⟨_, hc.spells_encode f, describes_fields f⟩
  · intro text v hv hfaulty
    by_contra hne
    obtain ⟨g, hg⟩ := Option.ne_none_iff_exists'.mp hne
    obtain ⟨w, hw, hdescribes⟩ := hc.decode_iff.mp hg
    exact hdescribes.not_faulty (hw.unique hv ▸ hfaulty)
  · intro text rest htext hrest
    obtain ⟨v, hv, hdescribes⟩ := hc.decode_iff.mp htext
    -- the text of a frame ends with a bracket, so that nothing can make its last token longer
    have hlast : ∀ t ∈ v.tokens.getLast?, ¬t.IsNumber := by
      cases hdescribes with
      | array => simp [getLast?_tokens_array, Token.IsNumber]
      | object => simp [getLast?_tokens_object, Token.IsNumber]
    have hnone : c.parse (text ++ rest) = none := by
      by_contra hne
      obtain ⟨w, hw⟩ := Option.ne_none_iff_exists'.mp hne
      have hspells := (hc.parse_iff _ _).mp hw
      rw [String.toList_append, ← parse_iff, parse_append_eq_none hv hlast hrest] at hspells
      cases hspells
    unfold Codec.decode
    rw [hnone]
    rfl

/-- A frame of two pixels, written and read back, and read from another text for it. -/
theorem json_round_trip_of_codec : codec.Documented ∧
    codec.encode ⟨2, 1, #[7, 15]⟩ = "\x7b\"width\":2,\"height\":1,\"pixels\":[7,15]\x7d" ∧
    codec.decode (codec.encode ⟨2, 1, #[7, 15]⟩) = some ⟨2, 1, #[7, 15]⟩ ∧
    codec.decode (codec.encode ⟨2, 1, #[7, 15]⟩ ++ "]") = none := by
  obtain ⟨⟨-, hround⟩, -, -, htrailing⟩ :=
    json_round_trip codec documented_codec ⟨2, 1, #[7, 15]⟩
  have hmark : ']' ∈ "]".toList := by simp
  exact ⟨documented_codec, by cbv, hround, htrailing _ "]" hround ⟨']', hmark, rfl⟩⟩

example : codec.decode " \x7b\"pixels\": [7], \"x\": [null, \"y\"], \"height\": 1,\"width\": 2\x7d" =
    some ⟨2, 1, #[7]⟩ := by
  cbv

end Famicom.Frame
