import Famicom.Proofs.Log.Spec

/-! What can be asked of a log, what becomes of the log then, and what is done on the way. -/

namespace Famicom.Log

/-- A request, with the messages given in one form or another. -/
inductive Request (α : Type)
  | write (category : Category) (level : Level) (message : α)
  | setGlobal (level : Level)
  | setLevel (category : Category) (level : Level)
  | applySpec (spec : String)
  | reset
  | setLimit (limit : Nat)

variable {α : Type} {log : Log} {category : Category} {level : Level} {now : Nat}

namespace Request

/-- Whether a request asks for a message that is enabled. -/
def enables (log : Log) : Request α → Bool
  | write category level _ => log.levels.enabled category level
  | _ => false

/-- The log after a request, if the clock shows `now`. -/
def next (now : Nat) : Request α → Log → Log
  | write category level _, log =>
    if log.levels.enabled category level then (log.judge category now).2 else log
  | setGlobal level, log => log.setGlobal level
  | setLevel category level, log => log.setLevel category level
  | applySpec spec, log => (Log.applySpec spec log).state
  | reset, log => log.reset
  | setLimit limit, log => log.setLimit limit

end Request

/-! A message leaves everything but the window of its category. -/

theorem judge_eq (log : Log) (category : Category) (now : Nat) : log.judge category now =
    (((log.windows.get category).judge log.limit now).1, { log with
      windows := log.windows.set category
        ((log.windows.get category).judge log.limit now).2 }) := rfl

@[simp] theorem sink_judge (log : Log) (category : Category) (now : Nat) :
    (log.judge category now).2.sink = log.sink := rfl

theorem exists_windows_next (now : Nat) (log : Log) (category : Category) (level : Level)
    (message : α) :
    ∃ windows, (Request.write category level message).next now log = { log with windows } ∧
      ∀ c, c ≠ category → windows.get c = log.windows.get c := by
  dsimp only [Request.next]
  cases log.levels.enabled category level with
  | false => exact ⟨log.windows, rfl, fun _ _ => rfl⟩
  | true => exact ⟨_, rfl, fun c hc => PerCategory.get_set_ne log.windows _ hc⟩

/-! A spec leaves everything but the levels. -/

theorem exists_levels_applySpec (spec : String) (log : Log) :
    ∃ levels, (applySpec spec log).state = { log with levels } := by
  rcases hsettings : settings spec with e | changes
  · exact ⟨log.levels, by rw [applySpec_of_error hsettings]⟩
  · exact ⟨_, by rw [applySpec_of_ok hsettings]⟩

theorem sink_applySpec (spec : String) (log : Log) : (applySpec spec log).state.sink = log.sink := by
  obtain ⟨levels, h⟩ := exists_levels_applySpec spec log
  rw [h]

/-- No request changes the sink. -/
@[simp] theorem sink_next (r : Request α) (log : Log) : (r.next now log).sink = log.sink := by
  cases r with
  | write category level message =>
    obtain ⟨windows, h, -⟩ := exists_windows_next now log category level message
    rw [h]
  | applySpec spec => exact sink_applySpec spec log
  | setGlobal | setLevel | reset | setLimit => rfl

/-! What is done. -/

section

variable {m : Type → Type} [Monad m] [System m]

/-- Serves a request. What a message is built from becomes an operation that builds it. -/
def Request.run (build : α → m String) : Request α → Log → m Log
  | write category level message, log => log.write category level (build message)
  | setGlobal level, log => pure (log.setGlobal level)
  | setLevel category level, log => pure (log.setLevel category level)
  | applySpec spec, log => pure (Log.applySpec spec log).state
  | reset, log => pure log.reset
  | setLimit limit, log => pure (log.setLimit limit)

/-- Does what a verdict on a message comes to: a report first, and the message after it. -/
def Verdict.carryOut (v : Verdict) (log : Log) (category : Category) (message : m String) :
    m Unit := do
  if let some n := v.overdue then
    log.emit category (reportText n)
  if v.admitted then
    log.emit category (← message)

theorem write_of_disabled (h : log.levels.enabled category level = false) (message : m String) :
    log.write category level message = pure log := by
  unfold write
  rw [if_neg (by rw [h]; decide)]

theorem run_of_disabled (now : Nat) {r : Request α} (h : r.enables log = false)
    (build : α → m String) :
    r.run build log = pure (r.next now log) := by
  cases r with
  | write category level message =>
    have hdisabled : log.levels.enabled category level = false := h
    simp [Request.run, Request.next, write_of_disabled hdisabled, hdisabled]
  | setGlobal | setLevel | applySpec | reset | setLimit => rfl

variable [LawfulMonad m]

theorem write_of_enabled (h : log.levels.enabled category level = true) (message : m String) :
    log.write category level message = (do
      let now ← System.now
      (log.judge category now).1.carryOut log category message
      return (log.judge category now).2) := by
  unfold write
  rw [if_pos h]
  apply bind_congr
  intro now
  unfold Verdict.carryOut
  rcases log.judge category now with ⟨⟨_ | _, _ | _⟩, after⟩ <;> simp

/-! Messages that are texts. -/

/-- The lines of a message and of the report before it. -/
def Verdict.lines (v : Verdict) (log : Log) (category : Category) (text : String) : List Line :=
  ((v.overdue.map reportText).toList ++ if v.admitted then [text] else []).map fun text =>
    ⟨log.sink, s!"[{category.tag}] {text}"⟩

/-- The lines of a request, if the clock shows `now`. -/
def Request.lines (now : Nat) (log : Log) : Request String → List Line
  | write category level text =>
    if log.levels.enabled category level then
      (log.judge category now).1.lines log category text
    else []
  | _ => []

theorem lines_of_disabled {r : Request String} (h : r.enables log = false) :
    r.lines now log = [] := by
  cases r with
  | write category level text =>
    have hdisabled : log.levels.enabled category level = false := h
    exact if_neg (by rw [hdisabled]; decide)
  | setGlobal | setLevel | applySpec | reset | setLimit => rfl

theorem sink_lines (now : Nat) (r : Request String) (log : Log) :
    ∀ line ∈ r.lines now log, line.sink = log.sink := by
  intro line hline
  unfold Request.lines at hline
  split at hline
  · split at hline
    · obtain ⟨text, -, rfl⟩ := List.mem_map.mp hline
      rfl
    · cases hline
  · cases hline

theorem carryOut_pure (v : Verdict) (log : Log) (category : Category) (text : String) :
    (v.carryOut log category (pure text) : m Unit) =
      (v.lines log category text).forM System.emit := by
  unfold Verdict.carryOut Verdict.lines
  cases v.overdue <;> cases v.admitted <;> simp [emit]

/-- A request for a text reads the clock once, and emits its lines. -/
theorem run_of_enabled {r : Request String} (h : r.enables log = true) :
    (r.run pure log : m Log) = (do
      let now ← System.now
      (r.lines now log).forM System.emit
      return r.next now log) := by
  cases r with
  | write category level text =>
    have henabled : log.levels.enabled category level = true := h
    simp only [Request.run, Request.lines, Request.next, write_of_enabled henabled, carryOut_pure,
      henabled, if_true]
  | setGlobal | setLevel | applySpec | reset | setLimit => cases h

end

end Famicom.Log
