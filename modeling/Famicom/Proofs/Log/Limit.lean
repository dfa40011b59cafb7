import Famicom.Proofs.Log.Request

/-! The limit on messages in one instant. What becomes of a message is told by what has become of
the ones of its category before it, what builds it is run only if it is admitted, and no message is
lost without being counted. -/

namespace Famicom.Log

/-- What is written for a category: a message, or a report of messages that have been dropped. -/
inductive Entry
  | message
  | report (count : Nat)
deriving DecidableEq

/-- How many dropped messages are reported. -/
def Entry.reported : Entry → Nat
  | message => 0
  | report count => count

variable {α : Type}

/-- Whether a request asks for a message of a category that is enabled. -/
def Request.asks (category : Category) (log : Log) : Request α → Bool
  | .write c level _ => c = category && log.levels.enabled c level
  | _ => false

/-- Whether a request is about a category: messages of the others are not. -/
def Request.concerns (category : Category) : Request α → Bool
  | .write c _ _ => c = category
  | _ => true

/-- The log after the requests of a past, the last request first. -/
def after (now : Nat) (start : Log) : List (Request α) → Log
  | [] => start
  | r :: past => r.next now (after now start past)

/-- What has become of the enabled messages of a category, the last one first. One is admitted if
fewer than the limit of that time have been admitted before it. -/
def outcomes (now : Nat) (start : Log) (category : Category) : List (Request α) → List Bool
  | [] => []
  | r :: past =>
    let before := outcomes now start category past
    if r.asks category (after now start past) then
      decide (before.count true < (after now start past).limit) :: before
    else before

/-- The dropped messages that no report has counted: those since the last message that was admitted,
but not the first one ever dropped, which is reported at once. -/
def held (outcomes : List Bool) : Nat :=
  min (outcomes.takeWhile (!·)).length (outcomes.count false - 1)

/-- What is written when one more message is enabled. -/
def entriesOf (before : List Bool) (limit : Nat) : List Entry :=
  if before.count true < limit then
    (if held before = 0 then [] else [.report (held before)]) ++ [.message]
  else if false ∈ before then []
  else [.report 1]

/-- What a request writes for a category. -/
def Request.entries (category : Category) (log : Log) (before : List Bool) (r : Request α) :
    List Entry :=
  if r.asks category log then entriesOf before log.limit else []

/-- All that has been written for a category, the first entry first. -/
def transcript (now : Nat) (start : Log) (category : Category) : List (Request α) → List Entry
  | [] => []
  | r :: past => transcript now start category past ++
    r.entries category (after now start past) (outcomes now start category past)

/-! What is done. -/

section

variable {m : Type → Type} [Monad m] [System m]

/-- Writes an entry. A message is built first. -/
def Entry.put (log : Log) (category : Category) (message : m String) : Entry → m Unit
  | .message => do
    let text ← message
    System.emit ⟨log.sink, s!"[{category.tag}] {text}"⟩
  | .report count =>
    System.emit ⟨log.sink, s!"[{category.tag}] rate limit exceeded, {count} message(s) dropped"⟩

/-- Writes the entries that a request makes. -/
def Request.effect (log : Log) (before : Category → List Bool) : Request (m String) → m Unit
  | .write c level message =>
    ((Request.write c level message).entries c log (before c)).forM (Entry.put log c message)
  | _ => pure ()

/-- Writes the entries that the requests of a past make. -/
def effects (now : Nat) (start : Log) : List (Request (m String)) → m Unit
  | [] => pure ()
  | r :: past => do
    effects now start past
    r.effect (after now start past) fun c => outcomes now start c past

/-- Serves the requests of a past. -/
def serve (start : Log) : List (Request (m String)) → m Log
  | [] => pure start
  | r :: past => do r.run id (← serve start past)

end

/-! Messages held back. -/

variable {before : List Bool}

theorem held_admitted (before : List Bool) : held (true :: before) = 0 := by
  simp [held]

/-- The first message that is dropped is not held back, all later ones are. -/
theorem held_dropped (before : List Bool) :
    held (false :: before) = if false ∈ before then held before + 1 else 0 := by
  have hrecent : ((false :: before).takeWhile (!·)).length =
      (before.takeWhile (!·)).length + 1 := rfl
  have hcount : (false :: before).count false = before.count false + 1 := List.count_cons_self
  unfold held
  rw [hrecent, hcount]
  split
  next hmem =>
    have hpos := List.count_pos_iff.mpr hmem
    omega
  next hmem =>
    rw [List.count_eq_zero.mpr hmem]
    omega

theorem mem_of_held (h : held before ≠ 0) : false ∈ before := by
  rw [← List.count_pos_iff]
  unfold held at h
  omega

/-! The window of a category tells of its outcomes. -/

variable {now : Nat} {start log : Log} {category : Category} {past : List (Request α)}

/-- What a window keeps of the outcomes in one instant. -/
def windowOf (now : Nat) (before : List Bool) : Window :=
  ⟨List.replicate (before.count true) now, held before, if false ∈ before then some now else none⟩

/-- The verdict on one more message. -/
def verdictOf (before : List Bool) (limit : Nat) : Verdict :=
  if before.count true < limit then ⟨true, if held before = 0 then none else some (held before)⟩
  else ⟨false, if false ∈ before then none else some 1⟩

theorem judge_windowOf (before : List Bool) (limit now : Nat) :
    (windowOf now before).judge limit now =
      (verdictOf before limit,
        windowOf now (decide (before.count true < limit) :: before)) := by
  -- in the same instant no message is old, and no report is a second ago
  have hstamps : (List.replicate (before.count true) now).dropWhile
      (fun stamp => now - stamp > second) = List.replicate (before.count true) now := by
    cases before.count true <;> simp [List.replicate_succ]
  have hrecent : ¬second ≤ 0 := by decide
  unfold Window.judge windowOf verdictOf
  simp only [hstamps, List.length_replicate]
  by_cases hlimit : before.count true < limit
  · have hheld := held_admitted before
    by_cases hzero : held before = 0
    · simp [hlimit, hzero, hheld, List.replicate_succ']
    · have hmem := mem_of_held hzero
      simp [hlimit, hzero, hheld, hmem, Nat.pos_of_ne_zero hzero, List.replicate_succ']
  · have hheld := held_dropped before
    by_cases hmem : false ∈ before
    · simp [hlimit, hmem, hheld, hrecent]
    · have hzero : held before = 0 := by
        by_contra hne
        exact hmem (mem_of_held hne)
      simp [hlimit, hmem, hheld, hzero]

/-! One request after a past. -/

theorem outcomes_of_asked {r : Request α} (h : r.asks category (after now start past) = true) :
    outcomes now start category (r :: past) =
      decide ((outcomes now start category past).count true < (after now start past).limit) ::
        outcomes now start category past := if_pos h

theorem outcomes_of_unasked {r : Request α} (h : r.asks category (after now start past) = false) :
    outcomes now start category (r :: past) = outcomes now start category past :=
  if_neg (by rw [h]; decide)

theorem transcript_cons (now : Nat) (start : Log) (category : Category) (r : Request α)
    (past : List (Request α)) :
    transcript now start category (r :: past) = transcript now start category past ++
      r.entries category (after now start past) (outcomes now start category past) := rfl

theorem asks_write (category : Category) (log : Log) (level : Level) (message : α) :
    (Request.write category level message).asks category log =
      log.levels.enabled category level := by
  simp [Request.asks]

theorem windows_of_asked {r : Request α} (h : r.asks category log = true) :
    (r.next now log).windows.get category =
      ((log.windows.get category).judge log.limit now).2 := by
  cases r with
  | write c level message =>
    obtain ⟨hc, henabled⟩ := (Bool.and_eq_true _ _).mp h
    obtain rfl : c = category := of_decide_eq_true hc
    simp only [Request.next, henabled, if_true, judge_eq, PerCategory.get_set_self]
  | setGlobal | setLevel | applySpec | reset | setLimit => cases h

theorem windows_of_unasked (now : Nat) {r : Request α} (h : r.asks category log = false) :
    (r.next now log).windows.get category = log.windows.get category := by
  cases r with
  | write c level message =>
    by_cases hc : c = category
    · subst hc
      rw [asks_write] at h
      simp [Request.next, h]
    · obtain ⟨windows, hnext, hkept⟩ := exists_windows_next now log c level message
      rw [hnext]
      exact hkept category (Ne.symm hc)
  | applySpec spec =>
    obtain ⟨levels, hlevels⟩ := exists_levels_applySpec spec log
    change (applySpec spec log).state.windows.get category = _
    rw [hlevels]
  | setGlobal | setLevel | reset | setLimit => rfl

/-- The outcomes of a category decide what its window is. -/
theorem windows_after (hfresh : start.windows = .const {}) (category : Category)
    (past : List (Request α)) : (after now start past).windows.get category =
      windowOf now (outcomes now start category past) := by
  -- a request that asks for nothing leaves both the window and the outcomes
  induction past with
  | nil =>
    change start.windows.get category = _
    rw [hfresh]
    exact PerCategory.get_const _ category
  | cons r past ih =>
    change (r.next now (after now start past)).windows.get category = _
    cases h : r.asks category (after now start past) with
    | true => rw [windows_of_asked h, outcomes_of_asked h, ih, judge_windowOf]
    | false => rw [windows_of_unasked _ h, outcomes_of_unasked h, ih]

theorem entries_of_asked (before : List Bool) {r : Request α} (h : r.asks category log = true) :
    r.entries category log before = entriesOf before log.limit := if_pos h

theorem entries_of_unasked (before : List Bool) {r : Request α} (h : r.asks category log = false) :
    r.entries category log before = [] := if_neg (by rw [h]; decide)

theorem count_message_entriesOf (before : List Bool) (limit : Nat) :
    (entriesOf before limit).count .message = if before.count true < limit then 1 else 0 := by
  unfold entriesOf
  by_cases hlimit : before.count true < limit
  · by_cases hzero : held before = 0 <;> simp [hlimit, hzero]
  · by_cases hmem : false ∈ before <;> simp [hlimit, hmem]

/-! What is done tells of the outcomes. -/

section

variable {m : Type → Type} [Monad m] [System m] [LawfulMonad m]

omit [LawfulMonad m] in
theorem emit_reportText (log : Log) (category : Category) (message : m String) (count : Nat) :
    (log.emit category (reportText count) : m Unit) =
      Entry.put log category message (.report count) := by
  have hjoin : ∀ text : String,
      "] " ++ ("rate limit exceeded, " ++ text) = "] rate limit exceeded, " ++ text := by
    intro text
    rw [← String.append_assoc]
    rfl
  unfold emit reportText Entry.put
  congr 2
  simp only [String.append_assoc]
  exact congrArg _ (congrArg _ (hjoin _))

theorem carryOut_verdictOf (before : List Bool) (limit : Nat) (log : Log) (category : Category)
    (message : m String) : (verdictOf before limit).carryOut log category message =
      (entriesOf before limit).forM (Entry.put log category message) := by
  have hmessage : (do log.emit category (← message) : m Unit) =
      Entry.put log category message .message := rfl
  unfold verdictOf entriesOf Verdict.carryOut
  by_cases hlimit : before.count true < limit
  · by_cases hzero : held before = 0
    · simp [hlimit, hzero, hmessage]
    · simp [hlimit, hzero, hmessage, emit_reportText log category message]
  · by_cases hmem : false ∈ before
    · simp [hlimit, hmem]
    · simp [hlimit, hmem, emit_reportText log category message]

variable {before : Category → List Bool}

/-- The entries of a message are told by the outcomes before it. -/
theorem write_eq (hnow : (System.now : m Nat) = pure now) {before : List Bool}
    (h : log.windows.get category = windowOf now before) (level : Level) (message : m String) :
    log.write category level message = (do
      ((Request.write category level message).entries category log before).forM
        (Entry.put log category message)
      return (Request.write category level message).next now log) := by
  cases henabled : log.levels.enabled category level with
  | false =>
    rw [write_of_disabled henabled,
      entries_of_unasked _ ((asks_write category log level message).trans henabled)]
    simp [Request.next, henabled]
  | true =>
    rw [write_of_enabled henabled,
      entries_of_asked _ ((asks_write category log level message).trans henabled), hnow,
      pure_bind, judge_eq, h, judge_windowOf, ← carryOut_verdictOf]
    simp [Request.next, henabled, judge_eq, h, judge_windowOf]

theorem run_eq_effect (hnow : (System.now : m Nat) = pure now)
    (h : ∀ c, log.windows.get c = windowOf now (before c)) (r : Request (m String)) :
    r.run id log = (do r.effect log before; return r.next now log) := by
  cases r with
  | write c level message => exact write_eq hnow (h c) level message
  | setGlobal | setLevel | applySpec | reset | setLimit =>
    exact (pure_bind () fun _ => pure _).symm

theorem serve_eq_effects (hnow : (System.now : m Nat) = pure now)
    (hfresh : start.windows = .const {}) (past : List (Request (m String))) :
    serve start past = (do effects now start past; return after now start past) := by
  induction past with
  | nil => exact (pure_bind () fun _ => pure start).symm
  | cons r past ih =>
    have hrun := run_eq_effect hnow (fun c => windows_after hfresh c past) r
    rw [serve, ih, effects, after]
    simp only [bind_assoc, pure_bind, hrun]

end

/-! Every enabled message is accounted for. -/

/-- The messages that are written, reported as dropped, or held back. -/
def accounted (entries : List Entry) (before : List Bool) : Nat :=
  entries.count .message + (entries.map Entry.reported).sum + held before

theorem accounted_entriesOf (before : List Bool) (limit : Nat) (entries : List Entry) :
    accounted (entries ++ entriesOf before limit)
      (decide (before.count true < limit) :: before) = accounted entries before + 1 := by
  unfold accounted entriesOf
  -- a message that is admitted is written and takes all that is held with it; one that is not is
  -- held, unless it is the first
  by_cases hlimit : before.count true < limit
  · rw [decide_eq_true hlimit, held_admitted]
    by_cases hzero : held before = 0
    · simp [hlimit, hzero, Entry.reported]
      omega
    · simp [hlimit, hzero, Entry.reported]
      omega
  · rw [decide_eq_false hlimit, held_dropped]
    by_cases hmem : false ∈ before
    · simp [hlimit, hmem]
      omega
    · have hzero : held before = 0 := by
        by_contra hne
        exact hmem (mem_of_held hne)
      simp [hlimit, hmem, hzero, Entry.reported]
      omega

theorem length_outcomes (now : Nat) (start : Log) (category : Category)
    (past : List (Request α)) : (outcomes now start category past).length =
      accounted (transcript now start category past) (outcomes now start category past) := by
  induction past with
  | nil => rfl
  | cons r past ih =>
    rw [transcript_cons]
    cases h : r.asks category (after now start past) with
    | true =>
      rw [outcomes_of_asked h, entries_of_asked _ h, accounted_entriesOf, List.length_cons, ih]
    | false => rw [outcomes_of_unasked h, entries_of_unasked _ h, List.append_nil, ih]

/-! The other categories have no influence. -/

/-- Two logs are the same for one category. -/
structure Agree (category : Category) (log other : Log) : Prop where
  levels : other.levels = log.levels
  limit : other.limit = log.limit
  sink : other.sink = log.sink
  window : other.windows.get category = log.windows.get category

variable {other : Log}

theorem asks_congr (h : other.levels = log.levels) (r : Request α) :
    r.asks category other = r.asks category log := by
  cases r with
  | write c level message =>
    unfold Request.asks
    rw [h]
  | setGlobal | setLevel | applySpec | reset | setLimit => rfl

theorem settings_write (now : Nat) (log : Log) (c : Category) (level : Level) (message : α) :
    ((Request.write c level message).next now log).levels = log.levels ∧
      ((Request.write c level message).next now log).limit = log.limit := by
  obtain ⟨_, hnext, -⟩ := exists_windows_next now log c level message
  rw [hnext]
  exact ⟨rfl, rfl⟩

theorem limit_applySpec (spec : String) (log : Log) :
    (applySpec spec log).state.limit = log.limit := by
  obtain ⟨_, hspec⟩ := exists_levels_applySpec spec log
  rw [hspec]

theorem levels_applySpec (spec : String) (h : other.levels = log.levels) :
    (applySpec spec other).state.levels = (applySpec spec log).state.levels := by
  rcases hsettings : settings spec with e | changes
  · rw [applySpec_of_error hsettings, applySpec_of_error hsettings, h]
  · rw [applySpec_of_ok hsettings, applySpec_of_ok hsettings, h]

theorem levels_next (hlevels : other.levels = log.levels) (r : Request α) :
    (r.next now other).levels = (r.next now log).levels := by
  cases r with
  | write c level message =>
    calc
      ((Request.write c level message).next now other).levels = other.levels :=
        (settings_write ..).1
      _ = log.levels := hlevels
      _ = ((Request.write c level message).next now log).levels := (settings_write ..).1.symm
  | applySpec spec => exact levels_applySpec spec hlevels
  | setGlobal level => exact congrArg (·.set (.global level)) hlevels
  | setLevel c level => exact congrArg (·.set (.own c level)) hlevels
  | reset => rfl
  | setLimit limit => exact hlevels

theorem limit_next (hlimit : other.limit = log.limit) (r : Request α) :
    (r.next now other).limit = (r.next now log).limit := by
  cases r with
  | write c level message =>
    calc
      ((Request.write c level message).next now other).limit = other.limit :=
        (settings_write ..).2
      _ = log.limit := hlimit
      _ = ((Request.write c level message).next now log).limit := (settings_write ..).2.symm
  | applySpec spec =>
    calc
      (applySpec spec other).state.limit = other.limit := limit_applySpec spec other
      _ = log.limit := hlimit
      _ = (applySpec spec log).state.limit := (limit_applySpec spec log).symm
  | setGlobal level | setLevel c level | reset => exact hlimit
  | setLimit limit => rfl

theorem Agree.next (h : Agree category log other) (r : Request α) :
    Agree category (r.next now log) (r.next now other) := by
  refine ⟨levels_next h.levels r, limit_next h.limit r, ?_, ?_⟩
  · rw [sink_next, sink_next, h.sink]
  · cases hasks : r.asks category log with
    | true =>
      rw [windows_of_asked hasks, windows_of_asked ((asks_congr h.levels r).trans hasks),
        h.window, h.limit]
    | false =>
      rw [windows_of_unasked _ hasks, windows_of_unasked _ ((asks_congr h.levels r).trans hasks),
        h.window]

theorem eq_write_of_unconcerned {r : Request α} (h : r.concerns category = false) :
    ∃ c level message, r = .write c level message ∧ c ≠ category := by
  cases r with
  | write c level message => exact ⟨c, level, message, rfl, of_decide_eq_false h⟩
  | setGlobal | setLevel | applySpec | reset | setLimit => cases h

theorem asks_of_unconcerned {r : Request α} (h : r.concerns category = false) (log : Log) :
    r.asks category log = false := by
  obtain ⟨c, level, message, rfl, hc⟩ := eq_write_of_unconcerned h
  simp [Request.asks, hc]

theorem agree_of_unconcerned {r : Request α} (h : r.concerns category = false) (log : Log) :
    Agree category (r.next now log) log := by
  have hwindow := windows_of_unasked now (asks_of_unconcerned h log)
  obtain ⟨c, level, message, rfl, hc⟩ := eq_write_of_unconcerned h
  obtain ⟨hlevels, hlimit⟩ := settings_write now log c level message
  exact ⟨hlevels.symm, hlimit.symm, (sink_next _ log).symm, hwindow.symm⟩

theorem Agree.trans {log₁ log₂ log₃ : Log} (h : Agree category log₁ log₂)
    (h' : Agree category log₂ log₃) : Agree category log₁ log₃ :=
  ⟨h'.levels.trans h.levels, h'.limit.trans h.limit, h'.sink.trans h.sink,
    h'.window.trans h.window⟩

theorem agree_filter (now : Nat) (start : Log) (category : Category) (past : List (Request α)) :
    Agree category (after now start past)
      (after now start (past.filter (·.concerns category))) := by
  induction past with
  | nil => exact ⟨rfl, rfl, rfl, rfl⟩
  | cons r past ih =>
    cases h : r.concerns category with
    | true =>
      rw [List.filter_cons_of_pos h]
      exact ih.next r
    | false =>
      rw [List.filter_cons_of_neg (by rw [h]; decide)]
      exact (agree_of_unconcerned h _).trans ih

theorem outcomes_filter (now : Nat) (start : Log) (category : Category)
    (past : List (Request α)) :
    outcomes now start category (past.filter (·.concerns category)) =
      outcomes now start category past := by
  induction past with
  | nil => rfl
  | cons r past ih =>
    have hagree := agree_filter now start category past
    cases h : r.concerns category with
    | true =>
      rw [List.filter_cons_of_pos h]
      unfold outcomes
      rw [ih, asks_congr hagree.levels, hagree.limit]
    | false =>
      rw [List.filter_cons_of_neg (by rw [h]; decide), ih,
        outcomes_of_unasked (asks_of_unconcerned h _)]

theorem entries_congr (hlevels : other.levels = log.levels) (hlimit : other.limit = log.limit)
    (r : Request α) (before : List Bool) :
    r.entries category other before = r.entries category log before := by
  unfold Request.entries
  rw [asks_congr hlevels, hlimit]

theorem transcript_filter (now : Nat) (start : Log) (category : Category)
    (past : List (Request α)) :
    transcript now start category (past.filter (·.concerns category)) =
      transcript now start category past := by
  induction past with
  | nil => rfl
  | cons r past ih =>
    have hagree := agree_filter now start category past
    cases h : r.concerns category with
    | true =>
      rw [List.filter_cons_of_pos h, transcript_cons, transcript_cons, ih, outcomes_filter,
        entries_congr hagree.levels hagree.limit]
    | false =>
      rw [List.filter_cons_of_neg (by rw [h]; decide), ih, transcript_cons,
        entries_of_unasked _ (asks_of_unconcerned h _), List.append_nil]

/-- What a message comes to is told by the messages of its category before it in the same instant.
If it is enabled and fewer than the limit have been admitted, what builds it is run once and its
line is written, after a report of those held back; the first one that is dropped is reported at
once. If it is not enabled, nothing is done and nothing counts. All that are enabled are written,
reported or still held back, and the other categories do not matter. -/
theorem messages_of_history {m : Type → Type} [Monad m] [LawfulMonad m] [System m] {now : Nat}
    (hnow : (System.now : m Nat) = pure now) (levels : Levels) (limit : Nat) (sink : Sink)
    (past : List (Request (m String))) (category : Category) :
    let start : Log := { levels, limit, sink }
    let log := after now start past
    let before := outcomes now start category past
    let entries := transcript now start category past
    serve start past = (do effects now start past; return log) ∧
    (∀ level (message : m String),
      let own := (Request.write category level message).entries category log before
      log.write category level message = (do
        own.forM (Entry.put log category message)
        return (Request.write category level message).next now log) ∧
      own.count .message =
        if log.levels.enabled category level = true ∧ before.count true < log.limit then 1
        else 0) ∧
    (∀ level (message : m String), log.levels.enabled category level = false →
      log.write category level message = pure log) ∧
    before.length = entries.count .message + (entries.map Entry.reported).sum + held before ∧
    (log.windows.get category).dropped = held before ∧
    (let own := past.filter (·.concerns category)
     outcomes now start category own = before ∧ transcript now start category own = entries ∧
       Agree category log (after now start own)) := by
  intro start log before entries
  have hwindow : log.windows.get category = windowOf now before := windows_after rfl category past
  refine ⟨serve_eq_effects hnow rfl past, ?_, fun level message h => write_of_disabled h message,
    length_outcomes now start category past, congrArg Window.dropped hwindow,
    outcomes_filter now start category past, transcript_filter now start category past,
    agree_filter now start category past⟩
  intro level message own
  refine ⟨write_eq hnow hwindow level message, ?_⟩
  have hasks := asks_write category log level message
  cases henabled : log.levels.enabled category level with
  | false =>
    have hown : own = [] := entries_of_unasked before (hasks.trans henabled)
    simp [hown]
  | true =>
    have hown : own = entriesOf before log.limit := entries_of_asked before (hasks.trans henabled)
    rw [hown, count_message_entriesOf]
    simp

/-- What is seen of a log. -/
inductive Happening
  | built (text : String)
  | line (text : String)
deriving DecidableEq

/-- A system whose clock stands still, and which notes what happens. -/
instance : System (StateM (List Happening)) where
  now := pure 0
  emit line := modify (· ++ [.line line.text])

/-- A message that is seen to be built. -/
def noted (text : String) : StateM (List Happening) String := do
  modify (· ++ [.built text])
  return text

/-- With a limit of one, which is then raised to three, a second message is dropped and reported, a
third is dropped and held back, and neither is built. The fourth is built, after a report. -/
theorem messages_of_noted :
    let start : Log := { levels := { global := .info }, limit := 1, sink := .standardError }
    let past := [.setLimit 3, .write .cpu .info (noted "c"), .write .bus .info (noted "x"),
      .write .cpu .info (noted "b"), .write .cpu .debug (noted "y"), .write .cpu .info (noted "a")]
    (serve start past []).2 = [.built "a", .line "[CPU] a",
      .line "[CPU] rate limit exceeded, 1 message(s) dropped", .built "x", .line "[BUS] x"] ∧
    ((after 0 start past).write .cpu .info (noted "d") []).2 =
      [.line "[CPU] rate limit exceeded, 1 message(s) dropped", .built "d", .line "[CPU] d"] := by
  intro start past
  obtain ⟨hserve, hwrite, -⟩ :=
    messages_of_history (m := StateM (List Happening)) rfl start.levels 1 .standardError past .cpu
  constructor
  · rw [hserve]
    decide +kernel
  · rw [(hwrite .info (noted "d")).1]
    decide +kernel

end Famicom.Log
