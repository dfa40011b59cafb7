import Famicom.Action
import Famicom.Log.Spec

/-!
The log. A message is written if its category and level are enabled and its category has not used
up the limit of the last second; messages over the limit are counted, and the count is reported in
their place. Each line goes to the sink that is current when it is written.
-/

namespace Famicom

namespace Log

/-- The nanoseconds for which a message counts. -/
def second : Nat := 1000000000

/-- What a category has used of the limit. All times are in nanoseconds. -/
structure Window where
  /-- When messages have been admitted, the first one first. -/
  stamps : List Nat := []
  /-- Messages dropped since the last report. -/
  dropped : Nat := 0
  lastReport : Option Nat := none
deriving DecidableEq, Repr

/-- The verdict on a message: whether it is written, and how many dropped ones are reported. -/
structure Verdict where
  admitted : Bool
  overdue : Option Nat
deriving DecidableEq, Repr

/-- Dropped messages are reported with the next message that is admitted, and at once if there has
been no report for a second. -/
def Window.judge (w : Window) (limit now : Nat) : Verdict × Window :=
  let stamps := w.stamps.dropWhile fun stamp => now - stamp > second
  if stamps.length < limit then
    let stamps := stamps ++ [now]
    if w.dropped > 0 then (⟨true, some w.dropped⟩, ⟨stamps, 0, some now⟩)
    else (⟨true, none⟩, { w with stamps })
  else
    let dropped := w.dropped + 1
    if w.lastReport.all fun last => now - last ≥ second then
      (⟨false, some dropped⟩, ⟨stamps, 0, some now⟩)
    else (⟨false, none⟩, { w with stamps, dropped })

/-- Where lines go. -/
inductive Sink
  | standardError
  | file (name : String)
deriving DecidableEq, Repr

structure Line where
  sink : Sink
  text : String
deriving DecidableEq, Repr

/-- The pieces in which a line is written, one after the other. -/
def Line.pieces (line : Line) : List String := [line.text, "\n"]

/-- What logging needs of the system that it runs on. -/
class System (m : Type → Type) where
  /-- Reads the clock. -/
  now : m Nat
  emit : Line → m Unit

def defaultLimit : Nat := 60

end Log

open Log in
structure Log where
  levels : Levels := {}
  limit : Nat := defaultLimit
  windows : PerCategory Window := .const {}
  sink : Sink := .standardError
deriving DecidableEq, Repr

namespace Log

/-- Turns all levels off; the limit and the sink stay. -/
def reset (log : Log) : Log := { log with levels := {} }

def setGlobal (log : Log) (level : Level) : Log :=
  { log with levels := log.levels.set (.global level) }

def setLevel (log : Log) (category : Category) (level : Level) : Log :=
  { log with levels := log.levels.set (.own category level) }

def setLimit (log : Log) (limit : Nat) : Log := { log with limit }

def setSink (log : Log) (sink : Sink) : Log := { log with sink }

/-- Applies a spec. All its items are gathered before a level is set. -/
def applySpec (spec : String) : Action SpecFault Log Unit := do
  let changes ← Action.inspect fun _ => gather spec
  if let some level := changes.global then
    Action.update (·.setGlobal level)
  changes.own.forM fun own => Action.update (·.setLevel own.1 own.2)

/-- The verdict on a message that is enabled. -/
def judge (log : Log) (category : Category) (now : Nat) : Verdict × Log :=
  let (verdict, window) := (log.windows.get category).judge log.limit now
  (verdict, { log with windows := log.windows.set category window })

/-- The report of messages that have been dropped. -/
def reportText (count : Nat) : String := s!"rate limit exceeded, {count} message(s) dropped"

variable {m : Type → Type} [Monad m] [System m]

def emit (log : Log) (category : Category) (text : String) : m Unit :=
  System.emit ⟨log.sink, s!"[{category.tag}] {text}"⟩

/-- Logs a message and answers the log after it. What builds the message is run only if it is
admitted. -/
def write (log : Log) (category : Category) (level : Level) (message : m String) : m Log := do
  if log.levels.enabled category level then
    let now ← System.now
    let (verdict, after) := log.judge category now
    if let some n := verdict.overdue then
      log.emit category (reportText n)
    if verdict.admitted then
      log.emit category (← message)
    return after
  else
    return log

def record (log : Log) (e : Event) : m Log := log.write e.category e.level (pure e.message)

/-- Logs what a device has reported. -/
def recordAll (log : Log) (es : List Event) : m Log := es.foldlM record log

end Log

end Famicom
