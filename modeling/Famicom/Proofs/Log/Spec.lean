import Mathlib.Data.List.Forall2
import Famicom.Log.Basic
import Famicom.Proofs.Action
import Famicom.Proofs.Text

/-! What a spec does to a log. Its items are what stands between commas; each of them is a setting
or spoils the whole, and of several settings for the same level the last one counts. -/

namespace Famicom

namespace Log

open Text (Trimmed trimmed_iff cut_eq_none_iff fields_eq_iff)

/-! Names. -/

def Level.names : Level → List String
  | .off => ["off", "0"]
  | .error => ["error", "err", "1"]
  | .warn => ["warn", "warning", "2"]
  | .info => ["info", "3"]
  | .debug => ["debug", "4"]
  | .trace => ["trace", "5"]

def Category.names : Category → List String
  | .cpu => ["cpu"]
  | .bus => ["bus"]
  | .ppu => ["ppu"]
  | .interrupts => ["int", "irq", "interrupts"]
  | .cartridge => ["cart", "cartridge"]
  | .input => ["input", "joy"]

/-- A text gives a name, perhaps with blanks at its ends and some ASCII letters in upper case. -/
def Gives (text : List Char) (name : String) : Prop :=
  ∃ t, Trimmed text t ∧ t.map Char.toLower = name.toList

def Level.Named (text : List Char) (level : Level) : Prop :=
  ∃ name ∈ level.names, Gives text name

def Category.Named (text : List Char) (category : Category) : Prop :=
  ∃ name ∈ category.names, Gives text name

/-! Items. -/

/-- The texts between the commas of a spec, without the blanks at their ends, so far as anything is
left of them. -/
def Items (spec : String) (items : List (List Char)) : Prop :=
  ∃ fields trimmed, fields ≠ [] ∧ (∀ f ∈ fields, ',' ∉ f) ∧
    [','].intercalate fields = spec.toList ∧ List.Forall₂ Trimmed fields trimmed ∧
    items = trimmed.filter (· ≠ [])

/-- An item is a level alone, or a category and its level around the first equals sign. -/
inductive Says : List Char → Setting → Prop
  | global {item : List Char} {level : Level} (hbare : '=' ∉ item)
      (hlevel : level.Named item) : Says item (.global level)
  | own {name text : List Char} {category : Category} {level : Level} (hfirst : '=' ∉ name)
      (hcategory : category.Named name) (hlevel : level.Named text) :
      Says (name ++ '=' :: text) (.own category level)

/-- What is wrong with an item: the category is looked at before the level. -/
inductive Spoils : List Char → SpecFault → Prop
  | bare {item : List Char} (hbare : '=' ∉ item) (hlevel : ∀ level, ¬Level.Named item level) :
      Spoils item (.unknownLevel (String.ofList item))
  | category {name text : List Char} (hfirst : '=' ∉ name)
      (hcategory : ∀ category, ¬Category.Named name category) :
      Spoils (name ++ '=' :: text) (.unknownCategory (String.ofList name))
  | level {name text : List Char} {category : Category} (hfirst : '=' ∉ name)
      (hcategory : category.Named name) (hlevel : ∀ level, ¬Level.Named text level) :
      Spoils (name ++ '=' :: text) (.unknownLevel (String.ofList text))

def Setting.global? : Setting → Option Level
  | .global level => some level
  | .own _ _ => none

/-- The level that a setting gives to a category of its own. -/
def Setting.own? (category : Category) : Setting → Option Level
  | .global _ => none
  | .own c level => if c = category then some level else none

/-- Of the settings for a level the last one counts, and without any the level stays. -/
structure Sets (log : Log) (settings : List Setting) (after : Log) : Prop where
  global : after.levels.global = (settings.filterMap Setting.global?).getLastD log.levels.global
  own (category : Category) : after.levels.own.get category =
    (settings.filterMap (Setting.own? category)).getLastD (log.levels.own.get category)
  rest : after = { log with levels := after.levels }

/-! A name is looked up in a table, an item is read around its equals sign. -/

variable {text item : List Char} {name : String} {level : Level} {category : Category}
  {fault : SpecFault} {setting : Setting}

theorem gives_iff : Gives text name ↔ key text = name := by
  unfold Gives key
  constructor
  · rintro ⟨t, ht, hname⟩
    rw [trimmed_iff.mp ht, hname, String.ofList_toList]
  · rintro rfl
    exact ⟨Text.trim text, Text.trimmed_trim text, String.toList_ofList.symm⟩

theorem Level.ofKey?_iff : Level.ofKey? name = some level ↔ name ∈ level.names := by
  constructor
  · intro h
    unfold Level.ofKey? at h
    split at h <;> cases h <;> simp [Level.names]
  · intro h
    cases level <;> simp only [Level.names, List.mem_cons, List.not_mem_nil, or_false] at h
    all_goals rcases h with rfl | rfl | rfl <;> rfl

theorem Category.ofKey?_iff : Category.ofKey? name = some category ↔ name ∈ category.names := by
  constructor
  · intro h
    unfold Category.ofKey? at h
    split at h <;> cases h <;> simp [Category.names]
  · intro h
    cases category <;> simp only [Category.names, List.mem_cons, List.not_mem_nil, or_false] at h
    all_goals rcases h with rfl | rfl | rfl <;> rfl

theorem Level.named_iff : Level.Named text level ↔ Level.ofKey? (key text) = some level := by
  simp only [Level.Named, gives_iff, exists_eq_right', Level.ofKey?_iff]

theorem Category.named_iff :
    Category.Named text category ↔ Category.ofKey? (key text) = some category := by
  simp only [Category.Named, gives_iff, exists_eq_right', Category.ofKey?_iff]

theorem Level.parse_ok_iff : Level.parse text = .ok level ↔ Level.Named text level := by
  rw [Level.named_iff]
  unfold Level.parse
  cases Level.ofKey? (key text) <;> simp

theorem Level.parse_error_iff : Level.parse text = .error fault ↔
    (∀ level, ¬Level.Named text level) ∧ fault = .unknownLevel (String.ofList text) := by
  simp only [Level.named_iff]
  unfold Level.parse
  cases Level.ofKey? (key text) <;> simp [eq_comm]

theorem Category.parse_ok_iff :
    Category.parse text = .ok category ↔ Category.Named text category := by
  rw [Category.named_iff]
  unfold Category.parse
  cases Category.ofKey? (key text) <;> simp

theorem Category.parse_error_iff : Category.parse text = .error fault ↔
    (∀ category, ¬Category.Named text category) ∧
      fault = .unknownCategory (String.ofList text) := by
  simp only [Category.named_iff]
  unfold Category.parse
  cases Category.ofKey? (key text) <;> simp [eq_comm]

theorem Setting.parse_of_bare (hbare : '=' ∉ item) :
    Setting.parse item = (Level.parse item).map .global := by
  unfold Setting.parse
  rw [cut_eq_none_iff.mpr hbare]
  cases Level.parse item <;> rfl

theorem Setting.parse_of_cut {name : List Char} (hfirst : '=' ∉ name) :
    Setting.parse (name ++ '=' :: text) =
      (Category.parse name).bind fun category => (Level.parse text).map (.own category) := by
  unfold Setting.parse
  rw [Text.cut_append hfirst]
  dsimp only
  cases Category.parse name <;> cases Level.parse text <;> rfl

theorem bare_or_cut (item : List Char) :
    '=' ∉ item ∨ ∃ name text, item = name ++ '=' :: text ∧ '=' ∉ name := by
  by_cases h : '=' ∈ item
  · exact .inr (List.eq_append_cons_of_mem h)
  · exact .inl h

theorem Setting.parse_ok_iff : Setting.parse item = .ok setting ↔ Says item setting := by
  constructor
  · intro h
    rcases bare_or_cut item with hbare | ⟨name, text, rfl, hfirst⟩
    · rw [Setting.parse_of_bare hbare] at h
      rcases hlevel : Level.parse item with _ | level
      · rw [hlevel] at h
        cases h
      · rw [hlevel] at h
        cases h
        exact .global hbare (Level.parse_ok_iff.mp hlevel)
    · rw [Setting.parse_of_cut hfirst] at h
      rcases hcategory : Category.parse name with _ | category
      · rw [hcategory] at h
        cases h
      · rcases hlevel : Level.parse text with _ | level
        · rw [hcategory, hlevel] at h
          cases h
        · rw [hcategory, hlevel] at h
          cases h
          exact .own hfirst (Category.parse_ok_iff.mp hcategory) (Level.parse_ok_iff.mp hlevel)
  · rintro (⟨hbare, hlevel⟩ | ⟨hfirst, hcategory, hlevel⟩)
    · rw [Setting.parse_of_bare hbare, Level.parse_ok_iff.mpr hlevel]
      rfl
    · rw [Setting.parse_of_cut hfirst, Category.parse_ok_iff.mpr hcategory,
        Level.parse_ok_iff.mpr hlevel]
      rfl

theorem Setting.parse_error_iff : Setting.parse item = .error fault ↔ Spoils item fault := by
  constructor
  · intro h
    rcases bare_or_cut item with hbare | ⟨name, text, rfl, hfirst⟩
    · rw [Setting.parse_of_bare hbare] at h
      rcases hlevel : Level.parse item with e | _
      · obtain ⟨hnone, rfl⟩ := Level.parse_error_iff.mp hlevel
        rw [hlevel] at h
        cases h
        exact .bare hbare hnone
      · rw [hlevel] at h
        cases h
    · rw [Setting.parse_of_cut hfirst] at h
      rcases hcategory : Category.parse name with e | category
      · -- a level behind it is not looked at
        obtain ⟨hnone, rfl⟩ := Category.parse_error_iff.mp hcategory
        rw [hcategory] at h
        cases h
        exact .category hfirst hnone
      · rcases hlevel : Level.parse text with e | _
        · obtain ⟨hnone, rfl⟩ := Level.parse_error_iff.mp hlevel
          rw [hcategory, hlevel] at h
          cases h
          exact .level hfirst (Category.parse_ok_iff.mp hcategory) hnone
        · rw [hcategory, hlevel] at h
          cases h
  · rintro (⟨hbare, hnone⟩ | ⟨hfirst, hnone⟩ | ⟨hfirst, hcategory, hnone⟩)
    · rw [Setting.parse_of_bare hbare, Level.parse_error_iff.mpr ⟨hnone, rfl⟩]
      rfl
    · rw [Setting.parse_of_cut hfirst, Category.parse_error_iff.mpr ⟨hnone, rfl⟩]
      rfl
    · rw [Setting.parse_of_cut hfirst, Category.parse_ok_iff.mpr hcategory,
        Level.parse_error_iff.mpr ⟨hnone, rfl⟩]
      rfl

/-! All items. -/

theorem items_iff {spec : String} {xs : List (List Char)} : Items spec xs ↔ xs = items spec := by
  have hfields : ∀ fields, fields = Text.fields ',' spec.toList ↔
      fields ≠ [] ∧ (∀ f ∈ fields, ',' ∉ f) ∧ [','].intercalate fields = spec.toList :=
    fun fields => eq_comm.trans fields_eq_iff
  have htrimmed : ∀ fields trimmed : List (List Char),
      List.Forall₂ Trimmed fields trimmed ↔ fields.map Text.trim = trimmed := by
    intro fields trimmed
    have htrim : Trimmed = fun s t => Text.trim s = t := by
      funext s t
      exact propext trimmed_iff
    rw [htrim, ← List.forall₂_map_left_iff, List.forall₂_eq_eq_eq]
  unfold Items items
  constructor
  · rintro ⟨fields, trimmed, hne, hcomma, hjoined, htrim, rfl⟩
    obtain rfl := (hfields fields).mpr ⟨hne, hcomma, hjoined⟩
    obtain rfl := (htrimmed _ _).mp htrim
    rfl
  · rintro rfl
    obtain ⟨hne, hcomma, hjoined⟩ := (hfields _).mp rfl
    exact ⟨_, _, hne, hcomma, hjoined, (htrimmed _ _).mpr rfl, rfl⟩

theorem items_append (spec more : String) :
    items (spec ++ "," ++ more) = items spec ++ items more := by
  have hchars : (spec ++ "," ++ more).toList = spec.toList ++ ',' :: more.toList := by
    simp [String.toList_append]
  unfold items
  rw [hchars, Text.fields_append, List.map_append, List.filter_append]

section Parsed

variable {α β ε : Type} {f : α → Except ε β} {xs : List α} {ys : List β} {e : ε}

theorem mapM_ok_iff : xs.mapM f = .ok ys ↔ List.Forall₂ (fun x y => f x = .ok y) xs ys := by
  induction xs generalizing ys with
  | nil => cases ys <;> simp [pure, Except.pure]
  | cons x xs ih =>
    rw [List.mapM_cons, List.forall₂_cons_left_iff]
    rcases f x with e | y
    · simp [bind, Except.bind]
    · rcases hxs : xs.mapM f with e | rest
      · simp [bind, Except.bind, ← ih, hxs]
      · simp [bind, Except.bind, pure, Except.pure, ← ih, hxs, eq_comm]

theorem isOk_mapM_iff : (xs.mapM f).isOk = true ↔ ∀ x ∈ xs, ∃ y, f x = .ok y := by
  induction xs with
  | nil => simp [pure, Except.pure, Except.isOk, Except.toBool]
  | cons x xs ih =>
    rw [List.mapM_cons, List.forall_mem_cons, ← ih]
    rcases f x with e | y
    · simp [bind, Except.bind, Except.isOk, Except.toBool]
    · cases xs.mapM f <;> simp [bind, Except.bind, pure, Except.pure, Except.isOk, Except.toBool]

/-- The leftmost failure is the one that counts. -/
theorem mapM_error_iff : xs.mapM f = .error e ↔
    ∃ sound x rest, xs = sound ++ x :: rest ∧ (∀ s ∈ sound, ∃ y, f s = .ok y) ∧
      f x = .error e := by
  constructor
  · intro h
    induction xs with
    | nil => cases h
    | cons x xs ih =>
      rw [List.mapM_cons] at h
      rcases hx : f x with e' | y
      · rw [hx] at h
        cases h
        exact ⟨[], x, xs, rfl, fun s hs => absurd hs List.not_mem_nil, hx⟩
      · rcases hxs : xs.mapM f with e' | rest
        · rw [hx, hxs] at h
          cases h
          obtain ⟨sound, x', rest, rfl, hsound, hx'⟩ := ih hxs
          refine ⟨x :: sound, x', rest, rfl, ?_, hx'⟩
          intro s hs
          rcases List.mem_cons.mp hs with rfl | hs
          · exact ⟨y, hx⟩
          · exact hsound s hs
        · rw [hx, hxs] at h
          cases h
  · rintro ⟨sound, x, rest, rfl, hsound, hx⟩
    -- on what is sound before the failure, which is passed over
    induction sound with
    | nil =>
      rw [List.nil_append, List.mapM_cons, hx]
      rfl
    | cons s sound ih =>
      obtain ⟨y, hy⟩ := hsound s List.mem_cons_self
      have hrest := ih fun s' hs' => hsound s' (List.mem_cons_of_mem s hs')
      rw [List.cons_append, List.mapM_cons, hy, hrest]
      rfl

end Parsed

/-! All settings. -/

theorem global_foldl_set (changes : List Setting) (l : Levels) :
    (changes.foldl Levels.set l).global =
      (changes.filterMap Setting.global?).getLastD l.global := by
  induction changes generalizing l with
  | nil => rfl
  | cons change changes ih =>
    rw [List.foldl_cons, ih]
    cases change with
    | global level =>
      simp only [List.filterMap_cons, Setting.global?, List.getLastD_cons]
      rfl
    | own c level =>
      simp only [List.filterMap_cons, Setting.global?]
      rfl

theorem own_foldl_set (category : Category) (changes : List Setting) (l : Levels) :
    (changes.foldl Levels.set l).own.get category =
      (changes.filterMap (Setting.own? category)).getLastD (l.own.get category) := by
  induction changes generalizing l with
  | nil => rfl
  | cons change changes ih =>
    rw [List.foldl_cons, ih]
    cases change with
    | global level =>
      simp only [List.filterMap_cons, Setting.own?]
      rfl
    | own c level =>
      by_cases hc : c = category
      · subst hc
        simp only [List.filterMap_cons, Setting.own?, if_true, List.getLastD_cons]
        exact congrArg _ (PerCategory.get_set_self l.own c level)
      · simp only [List.filterMap_cons, Setting.own?, if_neg hc]
        exact congrArg _ (PerCategory.get_set_ne l.own level (Ne.symm hc))

theorem PerCategory.ext_get {α : Type} {s t : PerCategory α} (h : ∀ c, s.get c = t.get c) :
    s = t := by
  cases s
  cases t
  have hall := And.intro (h .cpu) (And.intro (h .bus) (And.intro (h .ppu)
    (And.intro (h .interrupts) (And.intro (h .cartridge) (h .input)))))
  simpa [PerCategory.get] using hall

theorem sets_iff {log after : Log} {changes : List Setting} : Sets log changes after ↔
    after = { log with levels := changes.foldl Levels.set log.levels } := by
  constructor
  · rintro ⟨hglobal, hown, hrest⟩
    have hlevels : after.levels = changes.foldl Levels.set log.levels := by
      rcases hl : after.levels with ⟨g, o⟩
      rcases hr : changes.foldl Levels.set log.levels with ⟨g', o'⟩
      have hg := hglobal.trans (global_foldl_set changes log.levels).symm
      have ho : ∀ c, after.levels.own.get c = (changes.foldl Levels.set log.levels).own.get c :=
        fun c => (hown c).trans (own_foldl_set c changes log.levels).symm
      rw [hl, hr] at hg ho
      obtain rfl : o = o' := PerCategory.ext_get ho
      obtain rfl : g = g' := hg
      rfl
    rw [hrest, hlevels]
  · rintro rfl
    exact ⟨global_foldl_set changes log.levels,
      fun c => own_foldl_set c changes log.levels, rfl⟩

/-- The settings of a spec, or what is wrong with the leftmost item that is none. -/
def settings (spec : String) : Except SpecFault (List Setting) := (items spec).mapM Setting.parse

theorem settings_ok_iff {spec : String} {changes : List Setting} :
    settings spec = .ok changes ↔ List.Forall₂ Says (items spec) changes := by
  unfold settings
  rw [mapM_ok_iff]
  simp only [Setting.parse_ok_iff]

theorem settings_error_iff {spec : String} : settings spec = .error fault ↔
    ∃ sound item rest, items spec = sound ++ item :: rest ∧
      (∀ i ∈ sound, ∃ setting, Says i setting) ∧ Spoils item fault := by
  unfold settings
  rw [mapM_error_iff]
  simp only [Setting.parse_ok_iff, Setting.parse_error_iff]

theorem settings_append (spec more : String) : settings (spec ++ "," ++ more) =
    (settings spec).bind fun changes => (settings more).map (changes ++ ·) := by
  unfold settings
  rw [items_append, List.mapM_append]
  cases (items spec).mapM Setting.parse <;> cases (items more).mapM Setting.parse <;> rfl

/-! What is gathered is committed as if it had been set item by item. -/

theorem foldlM_add (xs : List (List Char)) (changes : Changes) :
    xs.foldlM (fun changes item => return changes.add (← Setting.parse item)) changes =
      (xs.mapM Setting.parse).map (·.foldl Changes.add changes) := by
  induction xs generalizing changes with
  | nil => rfl
  | cons x xs ih =>
    rw [List.foldlM_cons, List.mapM_cons]
    rcases Setting.parse x with e | setting
    · rfl
    · change xs.foldlM _ (changes.add setting) = _
      rw [ih]
      cases xs.mapM Setting.parse <;> rfl

theorem gather_eq (spec : String) :
    gather spec = (settings spec).map (·.foldl Changes.add {}) := foldlM_add (items spec) {}

/-- A log with everything set that has been gathered. -/
def Changes.commit (changes : Changes) (log : Log) : Log :=
  changes.own.foldl (fun log own => log.setLevel own.1 own.2)
    (changes.global.elim log log.setGlobal)

theorem applySpec_eq (spec : String) (log : Log) : applySpec spec log =
    match settings spec with
    | .ok changes => ⟨.ok (), (changes.foldl Changes.add {}).commit log, []⟩
    | .error e => ⟨.error e, log, []⟩ := by
  unfold applySpec
  rcases hsettings : settings spec with e | changes
  · exact Action.bind_of_error (by rw [Action.inspect_apply, gather_eq, hsettings]; rfl)
  · rw [Action.inspect_bind (by rw [gather_eq, hsettings]; rfl)]
    dsimp only [Changes.commit]
    cases (changes.foldl Changes.add {}).global with
    | none => exact Action.forM_update _ _ log
    | some level => exact Action.forM_update _ _ (log.setGlobal level)

theorem foldl_setLevel_setGlobal (own : List (Category × Level)) (level : Level) (log : Log) :
    own.foldl (fun log own => log.setLevel own.1 own.2) (log.setGlobal level) =
      (own.foldl (fun log own => log.setLevel own.1 own.2) log).setGlobal
        level := by
  induction own generalizing log with
  | nil => rfl
  | cons change own ih => exact ih (log.setLevel change.1 change.2)

theorem commit_add (changes : Changes) (setting : Setting) (log : Log) :
    (changes.add setting).commit log =
      { changes.commit log with levels := (changes.commit log).levels.set setting } := by
  cases setting with
  | global level =>
    -- a global level goes before those of categories, and hides the global level before it
    refine (foldl_setLevel_setGlobal changes.own level log).trans ?_
    unfold Changes.commit
    cases changes.global with
    | none => rfl
    | some before =>
      rw [Option.elim, foldl_setLevel_setGlobal]
      rfl
  | own category level =>
    unfold Changes.commit Changes.add
    rw [List.foldl_append]
    rfl

theorem commit_foldl (settings : List Setting) (changes : Changes) (log : Log) :
    (settings.foldl Changes.add changes).commit log =
      { changes.commit log with
        levels := settings.foldl Levels.set (changes.commit log).levels } := by
  induction settings generalizing changes with
  | nil => rfl
  | cons setting settings ih =>
    rw [List.foldl_cons, ih, commit_add]
    rfl

/-- A spec is applied as a whole or not at all. -/
theorem applySpec_of_ok {spec : String} {changes : List Setting} (h : settings spec = .ok changes)
    (log : Log) : applySpec spec log =
      ⟨.ok (), { log with levels := changes.foldl Levels.set log.levels }, []⟩ := by
  rw [applySpec_eq, h]
  dsimp only
  rw [commit_foldl]
  rfl

theorem applySpec_of_error {spec : String} (h : settings spec = .error fault) (log : Log) :
    applySpec spec log = ⟨.error fault, log, []⟩ := by
  rw [applySpec_eq, h]

/-- Two specs in one are applied one after the other, unless the second spoils the first. -/
theorem applySpec_append {more : String} (log : Log) (hmore : (applySpec more log).answer.isOk)
    (spec : String) : applySpec (spec ++ "," ++ more) log =
      (do applySpec spec; applySpec more : Action SpecFault Log Unit) log := by
  rcases hrest : settings more with e | rest
  · rw [applySpec_of_error hrest] at hmore
    cases hmore
  have hsettings := settings_append spec more
  rcases hspec : settings spec with e | changes
  · rw [hspec] at hsettings
    rw [applySpec_of_error hsettings, Action.bind_of_error (applySpec_of_error hspec log)]
  · rw [hspec, hrest] at hsettings
    rw [applySpec_of_ok hsettings, Action.bind_of_quiet (applySpec_of_ok hspec log),
      applySpec_of_ok hrest, List.foldl_append]

/-- A spec is applied if each of its items is a setting, and then the last setting for a level
counts; otherwise the leftmost item that is not a setting is the fault, and the log stays as it is.
What is put together with a comma is applied one after the other. -/
theorem levels_of_items (log : Log) (spec : String) : ∃ items,
    (∀ xs, Items spec xs ↔ xs = items) ∧
    ((applySpec spec log).answer.isOk = true ↔ ∀ item ∈ items, ∃ setting, Says item setting) ∧
    (∀ after events, applySpec spec log = ⟨.ok (), after, events⟩ ↔
      (∃ changes, List.Forall₂ Says items changes ∧ Sets log changes after) ∧ events = []) ∧
    (∀ fault after events, applySpec spec log = ⟨.error fault, after, events⟩ ↔
      (∃ sound item rest, items = sound ++ item :: rest ∧
        (∀ i ∈ sound, ∃ setting, Says i setting) ∧ Spoils item fault) ∧
      after = log ∧ events = []) ∧
    ∀ more, (applySpec more log).answer.isOk = true →
      applySpec (spec ++ "," ++ more) log =
        (do applySpec spec; applySpec more : Action SpecFault Log Unit) log := by
  refine ⟨items spec, fun xs => items_iff, ?_, ?_, ?_, fun more hmore =>
    applySpec_append log hmore spec⟩
  · have hok : (applySpec spec log).answer.isOk = (settings spec).isOk := by
      rw [applySpec_eq]
      cases settings spec <;> rfl
    rw [hok]
    unfold settings
    rw [isOk_mapM_iff]
    simp only [Setting.parse_ok_iff]
  · intro after events
    simp only [sets_iff, ← settings_ok_iff]
    rcases hsettings : settings spec with e | changes
    · simp [applySpec_of_error hsettings]
    · simp [applySpec_of_ok hsettings, eq_comm]
  · intro fault after events
    rw [← settings_error_iff]
    rcases hsettings : settings spec with e | changes
    · simp [applySpec_of_error hsettings, eq_comm]
    · simp [applySpec_of_ok hsettings]

end Log

end Famicom
