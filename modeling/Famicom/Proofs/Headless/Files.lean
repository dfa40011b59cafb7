import Mathlib.Tactic
import Famicom.Headless.Files
import Famicom.Proofs.Text

/-! What lies where after a file has been written. The directories never change, so a path that
leads to a file to write leads to the same place at any time, and only that place is affected. -/

namespace Famicom.Headless.Files

variable {fs gs hs : Files} {place? : Option Place} {place p directory : Place}
  {name path : String} {f : Array UInt8 → Array UInt8} {bytes : Array UInt8}

theorem lookup_cons_eq_ite (q : Place) (bytes : Array UInt8) (rest : List (Place × Array UInt8)) :
    ((q, bytes) :: rest).lookup p = if p = q then some bytes else rest.lookup p := by
  by_cases h : p = q
  · simp [h]
  · have hne : (p == q) = false := beq_false_of_ne h
    simp [List.lookup_cons, h, hne]

/-- A change affects the bytes at one place; those of a file that was not there are made up from
none. -/
theorem lookup_alter (place p : Place) (f : Array UInt8 → Array UInt8)
    (contents : List (Place × Array UInt8)) : (alter place f contents).lookup p =
      if p = place then some (f ((contents.lookup place).getD #[])) else contents.lookup p := by
  induction contents with
  | nil => simp [alter, lookup_cons_eq_ite]
  | cons entry rest ih =>
    obtain ⟨q, bytes⟩ := entry
    unfold alter
    by_cases hq : q = place
    · -- the first entry is the one that changes, and it hides any other for its place
      subst hq
      simp only [if_pos, lookup_cons_eq_ite, Option.getD_some]
      split <;> rfl
    · have hplace : place ≠ q := Ne.symm hq
      simp only [if_neg hq, lookup_cons_eq_ite, ih, if_neg hplace]
      by_cases h : p = place
      · simp [h, hplace]
      · simp [h]

/-- The same directories, and the same one to work in. -/
structure SameTree (fs gs : Files) : Prop where
  directories_eq : gs.directories = fs.directories
  working_eq : gs.working = fs.working

namespace SameTree

theorem refl (fs : Files) : SameTree fs fs := ⟨rfl, rfl⟩

theorem symm (h : SameTree fs gs) : SameTree gs fs :=
  ⟨h.directories_eq.symm, h.working_eq.symm⟩

theorem trans (h : SameTree fs gs) (h' : SameTree gs hs) : SameTree fs hs :=
  ⟨h'.directories_eq.trans h.directories_eq, h'.working_eq.trans h.working_eq⟩

end SameTree

theorem node?_directory_iff : fs.node? p = some .directory ↔ p = [] ∨ p ∈ fs.directories := by
  unfold node?
  split
  next h => simp [h]
  next h => cases Device.at? p <;> simp [h]

theorem node?_device_iff {d : Device} : fs.node? p = some (.device d) ↔
    ¬(p = [] ∨ p ∈ fs.directories) ∧ Device.at? p = some d := by
  unfold node?
  split
  next h => simp [h]
  next h => cases Device.at? p <;> simp [h]

theorem node?_of_file (h : ¬(p = [] ∨ p ∈ fs.directories)) (hdevice : Device.at? p = none) :
    fs.node? p = (fs.contents.lookup p).map .file := by
  unfold node?
  rw [if_neg h, hdevice]

theorem enter_eq_ok_iff : fs.enter directory name = .ok p ↔
    follow directory name = .ok p ∧ fs.node? p = some .directory := by
  unfold enter
  rcases follow directory name with e | q
  · simp [bind, Except.bind]
  · dsimp only [bind, Except.bind]
    constructor
    · intro h
      split at h
      next hnode =>
        cases h
        exact ⟨rfl, hnode⟩
      all_goals cases h
    · rintro ⟨hq, hnode⟩
      cases hq
      rw [hnode]

/-! A path is followed through directories, so the tree alone says where it leads. -/

theorem SameTree.enter (h : SameTree fs gs) (hp : fs.enter directory name = .ok p) :
    gs.enter directory name = .ok p := by
  rw [enter_eq_ok_iff, node?_directory_iff] at hp ⊢
  rwa [h.directories_eq]

theorem SameTree.walk (h : SameTree fs gs) {names : List String}
    (hp : names.foldlM fs.enter directory = .ok p) :
    names.foldlM gs.enter directory = .ok p := by
  induction names generalizing directory with
  | nil => exact hp
  | cons name names ih =>
    rw [List.foldlM_cons] at hp ⊢
    rcases hq : fs.enter directory name with e | q
    · rw [hq] at hp
      cases hp
    · rw [hq] at hp
      rw [h.enter hq]
      exact ih hp

theorem SameTree.target (h : SameTree fs gs) {t : Target} (ht : fs.target path = .ok t) :
    gs.target path = .ok t := by
  unfold Files.target at ht ⊢
  rw [h.working_eq]
  -- the first refusals are about the path alone
  split at ht
  · cases ht
  split at ht
  · cases ht
  split at ht
  · cases ht
  dsimp only at ht ⊢
  rename_i h0 h1 h2
  rw [if_neg h0, if_neg h1, if_neg h2]
  rcases hd : (names path).dropLast.foldlM fs.enter
    (if path.toList.head? = some '/' then [] else fs.working) with e | d
  · rw [hd] at ht
    cases ht
  · rw [hd] at ht
    rw [h.walk hd]
    exact ht

/-- A path leads to a place, and no slash follows its last name. -/
def Leads (fs : Files) (path : String) (p : Place) : Prop :=
  ∃ t, fs.target path = .ok t ∧ t.slash = false ∧ follow t.directory t.name = .ok p

theorem SameTree.leads (h : SameTree fs gs) (hp : fs.Leads path p) : gs.Leads path p := by
  obtain ⟨t, ht, hslash, hfollow⟩ := hp
  exact ⟨t, h.target ht, hslash, hfollow⟩

/-- A name that is not followed any further than to what it names. -/
structure Plain (name : String) : Prop where
  slash : '/' ∉ name.toList
  zero : '\x00' ∉ name.toList
  nonempty : name ≠ ""
  dots : name ≠ "." ∧ name ≠ ".."
  size : name.utf8ByteSize ≤ nameLimit

/-- A plain name leads into the working directory. -/
theorem leads_of_plain (h : Plain name) (fs : Files) : fs.Leads name (name :: fs.working) := by
  have hnames : names name = [name] := by
    have hlist : name.toList ≠ [] := by simpa using h.nonempty
    unfold names
    rw [Text.fields_of_not_mem h.slash]
    simp [hlist]
  have hlimit : ¬pathLimit < name.utf8ByteSize := by
    have hsize := h.size
    unfold nameLimit at hsize
    unfold pathLimit
    omega
  have hfirst : name.toList.head? ≠ some '/' := fun hhead => h.slash (List.mem_of_head? hhead)
  have hlast : name.toList.getLast? ≠ some '/' :=
    fun hlast => h.slash (List.mem_of_getLast? hlast)
  refine ⟨⟨fs.working, name, false⟩, ?_, rfl, ?_⟩
  · unfold target
    rw [hnames]
    simp [h.zero, h.nonempty, hlimit, hfirst, hlast]
    rfl
  · unfold follow
    rw [if_neg h.dots.1, if_neg h.dots.2, if_neg (Nat.not_lt.mpr h.size)]

/-- A place where a file can be written. -/
def Writable (fs : Files) (p : Place) : Prop :=
  fs.node? p ≠ some .directory ∧ fs.node? p ≠ some (.device .terminal)

theorem SameTree.writable (h : SameTree fs gs) (hp : fs.Writable p) : gs.Writable p := by
  unfold Writable at hp ⊢
  simp only [ne_eq, node?_directory_iff, node?_device_iff] at hp ⊢
  rwa [h.directories_eq]

theorem placeToWrite_eq_ok_iff :
    fs.placeToWrite path = .ok p ↔ fs.Leads path p ∧ fs.Writable p := by
  unfold placeToWrite Leads
  rcases fs.target path with e | t
  · simp [bind, Except.bind]
  dsimp only [bind, Except.bind]
  cases hslash : t.slash with
  | true => simp [hslash]
  | false =>
    rcases hfollow : follow t.directory t.name with e | q
    · simp [hslash, hfollow]
    · simp only [Bool.false_eq_true, if_false, Except.ok.injEq, exists_eq_left', hslash, hfollow,
        true_and]
      -- what lies at the place refuses in two cases, and is not looked at any further
      constructor
      · intro h
        split at h
        · cases h
        · cases h
        next hdirectory hterminal =>
          cases h
          exact ⟨rfl, hdirectory, hterminal⟩
      · rintro ⟨rfl, hdirectory, hterminal⟩
        split
        · contradiction
        · contradiction
        · rfl

/-- Where a file can be written it can always be written. -/
theorem SameTree.placeToWrite (h : SameTree fs gs) (hp : fs.placeToWrite path = .ok p) :
    gs.placeToWrite path = .ok p := by
  rw [placeToWrite_eq_ok_iff] at hp ⊢
  exact ⟨h.leads hp.1, h.writable hp.2⟩

theorem SameTree.toOption_placeToWrite (h : SameTree fs gs) :
    (gs.placeToWrite path).toOption = (fs.placeToWrite path).toOption := by
  rcases hf : fs.placeToWrite path with e | p
  · rcases hg : gs.placeToWrite path with e' | q
    · rfl
    · rw [h.symm.placeToWrite hg] at hf
      cases hf
  · rw [h.placeToWrite hf]

theorem openToWrite_of_error {e : FileFault} {fresh : Bool} (h : fs.placeToWrite path = .error e) :
    openToWrite path fresh fs = (.error e, fs) := by
  unfold openToWrite
  rw [h]

theorem openToWrite_of_ok {fresh : Bool} (h : fs.placeToWrite path = .ok p) :
    openToWrite path fresh fs =
      (.ok p, fs.change p fun bytes => if fresh then #[] else bytes) := by
  unfold openToWrite
  rw [h]

/-! What is read. -/

/-- What is read from that which lies at a place. -/
def contentsOf : Option Node → Except FileFault (Array UInt8)
  | some (.file bytes) => .ok bytes
  | some (.device d) => d.read
  | some .directory => .error .isDirectory
  | none => .error .notFound

theorem read_of_leads (h : fs.Leads path p) : fs.read path = contentsOf (fs.node? p) := by
  obtain ⟨t, ht, hslash, hfollow⟩ := h
  unfold read
  rw [ht]
  dsimp only [bind, Except.bind]
  rw [hfollow]
  dsimp only
  rw [hslash]
  rcases fs.node? p with _ | _ | _ | _ <;> rfl

/-- A plain name gives the file of that name in the working directory. -/
theorem read_of_plain (h : Plain name)
    (hfile : ¬(name :: fs.working = [] ∨ name :: fs.working ∈ fs.directories))
    (hdevice : Device.at? (name :: fs.working) = none) :
    fs.read name = contentsOf ((fs.contents.lookup (name :: fs.working)).map .file) := by
  rw [read_of_leads (leads_of_plain h fs), node?_of_file hfile hdevice]

/-- Only a path without a slash after its last name can be read. -/
theorem read_eq_ok_iff : fs.read path = .ok bytes ↔
    ∃ p, fs.Leads path p ∧ contentsOf (fs.node? p) = .ok bytes := by
  constructor
  · intro h
    have hread := h
    unfold read at h
    rcases ht : fs.target path with e | t
    · rw [ht] at h
      cases h
    rw [ht] at h
    dsimp only [bind, Except.bind] at h
    rcases hfollow : follow t.directory t.name with e | p
    · rw [hfollow] at h
      cases h
    rw [hfollow] at h
    dsimp only at h
    -- with a slash after it, no name gives bytes
    cases hslash : t.slash with
    | true => rcases hnode : fs.node? p with _ | _ | _ | _ <;> simp [hnode, hslash] at h
    | false =>
      have hleads : fs.Leads path p := ⟨t, ht, hslash, hfollow⟩
      exact ⟨p, hleads, (read_of_leads hleads).symm.trans hread⟩
  · rintro ⟨p, hleads, hcontents⟩
    exact (read_of_leads hleads).trans hcontents

/-! What a change leaves as it was. -/

/-- The files are the same, but for one place perhaps. -/
structure Keeps (place? : Option Place) (fs gs : Files) : Prop extends SameTree fs gs where
  node_eq : ∀ p, place? ≠ some p → gs.node? p = fs.node? p

namespace Keeps

theorem refl (fs : Files) : Keeps place? fs fs := ⟨.refl fs, fun _ _ => rfl⟩

theorem trans (h : Keeps place? fs gs) (h' : Keeps place? gs hs) : Keeps place? fs hs :=
  ⟨h.toSameTree.trans h'.toSameTree,
    fun p hp => (h'.node_eq p hp).trans (h.node_eq p hp)⟩

/-- What a path gives is kept if it leads somewhere else. -/
theorem read_eq (h : Keeps place? fs gs) (hp : fs.Leads path p) (hne : place? ≠ some p) :
    gs.read path = fs.read path := by
  rw [read_of_leads hp, read_of_leads (h.toSameTree.leads hp), h.node_eq p hne]

end Keeps

theorem sameTree_change (place : Place) (f : Array UInt8 → Array UInt8) (fs : Files) :
    SameTree fs (fs.change place f) := by
  unfold change
  cases Device.at? place <;> exact ⟨rfl, rfl⟩

theorem contents_change (hdevice : Device.at? place = none) :
    (fs.change place f).contents = alter place f fs.contents := by
  unfold change
  rw [hdevice]

/-- A file that can be written is changed, and the rest is left as it was. -/
theorem node?_change (hplace : fs.Writable place) (hdevice : Device.at? place = none) :
    (fs.change place f).node? p = if p = place then
      some (.file (f ((fs.contents.lookup place).getD #[]))) else fs.node? p := by
  have hdirectories := (sameTree_change place f fs).directories_eq
  by_cases hp : p = place
  · subst hp
    have hfile := node?_directory_iff.not.mp hplace.1
    rw [← hdirectories] at hfile
    rw [node?_of_file hfile hdevice, contents_change hdevice, lookup_alter, if_pos rfl, if_pos rfl]
    rfl
  · unfold node?
    rw [hdirectories, contents_change hdevice, lookup_alter, if_neg hp, if_neg hp]

theorem change_of_device {d : Device} (h : Device.at? place = some d) :
    fs.change place f = fs := by
  unfold change
  rw [h]

theorem keeps_change (hplace : fs.Writable place) (f : Array UInt8 → Array UInt8) :
    Keeps (some place) fs (fs.change place f) := by
  refine ⟨sameTree_change place f fs, fun p hp => ?_⟩
  rcases hd : Device.at? place with _ | d
  · have hne : p ≠ place := fun h => hp (congrArg some h.symm)
    rw [node?_change hplace hd, if_neg hne]
  · rw [change_of_device hd]

/-- A file opened to write at its end is there as it was, or empty if it was not there. -/
theorem node?_open (hplace : fs.Writable place) (p : Place) :
    (fs.change place fun bytes => bytes).node? p = fs.node? p ∨
      fs.node? p = none ∧ (fs.change place fun bytes => bytes).node? p = some (.file #[]) := by
  rcases hd : Device.at? place with _ | d
  · rw [node?_change hplace hd]
    by_cases hp : p = place
    · subst hp
      rw [if_pos rfl, node?_of_file (node?_directory_iff.not.mp hplace.1) hd]
      rcases fs.contents.lookup p with _ | bytes
      · exact .inr ⟨rfl, rfl⟩
      · exact .inl rfl
    · exact .inl (if_neg hp)
  · exact .inl (by rw [change_of_device hd])

/-- Opening a file to write at its end does not change what another path gives, unless that led to
nothing. -/
theorem read_open (hplace : fs.Writable place) :
    (fs.read path = .ok bytes → (fs.change place fun bytes => bytes).read path = .ok bytes) ∧
      ((fs.change place fun bytes => bytes).read path = .ok bytes →
        fs.read path = .ok bytes ∨ bytes = #[]) := by
  have htree := sameTree_change place (fun bytes => bytes) fs
  simp only [read_eq_ok_iff]
  -- the path leads to the same place before and after, so that it is about what lies there
  constructor
  · rintro ⟨p, hleads, hcontents⟩
    refine ⟨p, htree.leads hleads, ?_⟩
    rcases node?_open hplace p with hsame | ⟨hnone, -⟩
    · rw [hsame]
      exact hcontents
    · rw [hnone] at hcontents
      cases hcontents
  · rintro ⟨p, hleads, hcontents⟩
    rcases node?_open hplace p with hsame | ⟨-, hempty⟩
    · rw [hsame] at hcontents
      exact .inl ⟨p, htree.symm.leads hleads, hcontents⟩
    · rw [hempty] at hcontents
      cases hcontents
      exact .inr rfl

/-- A file written from its start holds what has been written. -/
theorem read_rewritten (hpath : fs.placeToWrite path = .ok place)
    (hdevice : Device.at? place = none) (bytes : Array UInt8) :
    ((fs.change place fun _ => #[]).change place (· ++ bytes)).read path = .ok bytes := by
  obtain ⟨hleads, hplace⟩ := placeToWrite_eq_ok_iff.mp hpath
  -- neither the opening nor the writing moves the place
  have hopened := sameTree_change place (fun _ => #[]) fs
  have hwritten := sameTree_change place (· ++ bytes) (fs.change place fun _ => #[])
  rw [read_of_leads (hwritten.leads (hopened.leads hleads)),
    node?_change (hopened.writable hplace) hdevice, if_pos rfl, contents_change hdevice,
    lookup_alter, if_pos rfl]
  simp [contentsOf]

end Famicom.Headless.Files
