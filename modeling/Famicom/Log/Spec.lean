import Famicom.Log.Level
import Famicom.Text.Blank
import Famicom.Text.Field

/-!
The compact text from which log levels are set, such as warn,cpu=debug,ppu=trace. Each item sets
the global level or that of one category; items that are blank are passed over.
-/

namespace Famicom.Log

inductive SpecFault
  | unknownLevel (name : String)
  | unknownCategory (name : String)
deriving DecidableEq, Repr

def SpecFault.message : SpecFault → String
  | .unknownLevel name => s!"unknown log level '{name}'"
  | .unknownCategory name => s!"unknown log category '{name}'"

/-- A name as it is looked up: blanks at its ends and the case of ASCII letters do not count. -/
def key (name : List Char) : String := String.ofList ((Text.trim name).map Char.toLower)

def Level.ofKey? : String → Option Level
  | "off" | "0" => some .off
  | "error" | "err" | "1" => some .error
  | "warn" | "warning" | "2" => some .warn
  | "info" | "3" => some .info
  | "debug" | "4" => some .debug
  | "trace" | "5" => some .trace
  | _ => none

def Category.ofKey? : String → Option Category
  | "cpu" => some .cpu
  | "bus" => some .bus
  | "ppu" => some .ppu
  | "int" | "irq" | "interrupts" => some .interrupts
  | "cart" | "cartridge" => some .cartridge
  | "input" | "joy" => some .input
  | _ => none

def Level.parse (name : List Char) : Except SpecFault Level :=
  match ofKey? (key name) with
  | some level => .ok level
  | none => .error (.unknownLevel (String.ofList name))

def Category.parse (name : List Char) : Except SpecFault Category :=
  match ofKey? (key name) with
  | some category => .ok category
  | none => .error (.unknownCategory (String.ofList name))

/-- One setting of a spec. -/
inductive Setting
  | global (level : Level)
  | own (category : Category) (level : Level)
deriving DecidableEq, Repr

/-- A level alone, or a category and its level around the first equals sign. -/
def Setting.parse (item : List Char) : Except SpecFault Setting :=
  match Text.cut '=' item with
  | none => do
    let level ← Level.parse item
    return .global level
  | some (name, level) => do
    let category ← Category.parse name
    let level ← Level.parse level
    return .own category level

/-- The items of a spec that are not blank. -/
def items (spec : String) : List (List Char) :=
  ((Text.fields ',' spec.toList).map Text.trim).filter (· ≠ [])

/-- What the items of a spec ask for: the global level by the last of them that names one, and
levels of categories in their order. -/
structure Changes where
  global : Option Level := none
  own : List (Category × Level) := []
deriving DecidableEq, Repr

def Changes.add (changes : Changes) : Setting → Changes
  | .global level => { changes with global := some level }
  | .own category level => { changes with own := changes.own ++ [(category, level)] }

/-- Gathers what the items ask for, up to the first one that is not a setting. -/
def gather (spec : String) : Except SpecFault Changes :=
  (items spec).foldlM (fun changes item => return changes.add (← Setting.parse item)) {}

/-- The global level, and the level of each category. -/
structure Levels where
  global : Level := .off
  own : PerCategory Level := .const .off
deriving DecidableEq, Repr

namespace Levels

/-- A category without a level of its own has the global one, and nothing is logged at `off`. -/
def enabled (l : Levels) (category : Category) (level : Level) : Bool :=
  level ≠ .off ∧ level ≤ if l.own.get category = .off then l.global else l.own.get category

def set (l : Levels) : Setting → Levels
  | .global level => { l with global := level }
  | .own category level => { l with own := l.own.set category level }

end Levels

end Famicom.Log
