import Famicom.Headless.Libraries
import Famicom.Text.Hex

/-!
The libraries that the headless runner is built with. On the command line an option is given once at
most; its value follows it, or follows an equals sign. After two hyphens every argument is a file.
-/

namespace Famicom.Headless

inductive UsageFault
  | unknownOption (arg : String)
  | missingValue (option : String)
  | badValue (option value : String)
  | repeated (option : String)
  | unexpectedValue (option : String)
  | unexpectedArgument (arg : String)
  | missingRom
deriving DecidableEq, Repr

def UsageFault.message : UsageFault → String
  | .unknownOption arg => s!"unexpected argument '{arg}' found"
  | .missingValue option => s!"a value is required for '--{option}' but none was supplied"
  | .badValue option value => s!"invalid value '{value}' for '--{option}'"
  | .repeated option => s!"the argument '--{option}' cannot be used multiple times"
  | .unexpectedValue option => s!"unexpected value for '--{option}'"
  | .unexpectedArgument arg => s!"unexpected argument '{arg}' found"
  | .missingRom => "the following required arguments were not provided: <ROM>"

/-- The options that take a value. -/
inductive Valued
  | frames | spec | logFile | dump
deriving DecidableEq, Repr

def Valued.name : Valued → String
  | .frames => "frames"
  | .spec => "log"
  | .logFile => "log-file"
  | .dump => "dump"

def Valued.all : List Valued := [.frames, .spec, .logFile, .dump]

/-- The options as far as they have been read. -/
structure Draft where
  rom : Option String := none
  frames : Option Nat := none
  spec : Option String := none
  logFile : Option String := none
  dump : Option String := none
  quiet : Bool := false
  help : Bool := false
deriving DecidableEq, Repr

def defaultFrames : Nat := 60

/-- A count of frames: decimal digits after an optional sign, within 32 bits. -/
def parseFrames (value : String) : Option Nat :=
  let (negative, digits) := match value.toList with
    | '+' :: ds => (false, ds)
    | '-' :: ds => (true, ds)
    | ds => (false, ds)
  if digits ≠ [] ∧ digits.all Char.isDigit then
    let n := digits.foldl (fun n c => 10 * n + (c.toNat - '0'.toNat)) 0
    if n < UInt32.size ∧ (negative → n = 0) then some n else none
  else none

namespace Draft

/-- Fills a slot that is still free. -/
def fill {α : Type} (option : String) (slot : Option α) (v : α) : Except UsageFault (Option α) :=
  if slot.isSome then .error (.repeated option) else .ok (some v)

/-- A path has at least one character. -/
def path (option value : String) : Except UsageFault String :=
  if value = "" then .error (.badValue option value) else .ok value

def set (d : Draft) (option : Valued) (value : String) : Except UsageFault Draft := do
  match option with
  | .frames =>
    match parseFrames value with
    | none => .error (.badValue option.name value)
    | some n => return { d with frames := ← fill option.name d.frames n }
  | .spec => return { d with spec := ← fill option.name d.spec value }
  | .logFile => return { d with logFile := ← fill option.name d.logFile (← path option.name value) }
  | .dump => return { d with dump := ← fill option.name d.dump (← path option.name value) }

def setQuiet (d : Draft) : Except UsageFault Draft :=
  if d.quiet then .error (.repeated "quiet") else .ok { d with quiet := true }

def file (d : Draft) (arg : String) : Except UsageFault Draft := do
  if d.rom.isSome then .error (.unexpectedArgument arg)
  else return { d with rom := some (← path "rom" arg) }

def finish (d : Draft) : Except UsageFault Options :=
  match d.rom with
  | none => .error .missingRom
  | some rom => .ok {
      rom
      frames := d.frames.getD defaultFrames
      spec := d.spec
      logFile := d.logFile
      dump := d.dump
      quiet := d.quiet }

end Draft

/-- Two hyphens before a name, and perhaps an equals sign and a value after it. -/
def longOption? (arg : String) : Option (String × Option String) :=
  match arg.toList with
  | '-' :: '-' :: name =>
    if name.contains '=' then
      some (String.ofList (name.takeWhile (· ≠ '=')),
        some (String.ofList ((name.dropWhile (· ≠ '=')).drop 1)))
    else some (String.ofList name, none)
  | _ => none

/-- Whether an argument reads as options: a hyphen and more. -/
def isOption (arg : String) : Bool := arg.startsWith "-" && arg ≠ "-"

/-- Reads arguments up to a request for help, if there is one. -/
def readArguments (d : Draft) : List String → Except UsageFault Draft
  | [] => .ok d
  | arg :: args =>
    if arg = "--" then args.foldlM Draft.file d
    else
      match longOption? arg with
      | some ("quiet", none) => do readArguments (← d.setQuiet) args
      | some ("quiet", some _) => .error (.unexpectedValue "quiet")
      | some ("help", none) => .ok { d with help := true }
      | some (name, value) =>
        match Valued.all.find? (·.name = name), value, args with
        | none, _, _ => .error (.unknownOption arg)
        | some option, some value, args => do readArguments (← d.set option value) args
        | some option, none, value :: args =>
          if isOption value then .error (.missingValue option.name)
          else do readArguments (← d.set option value) args
        | some option, none, [] => .error (.missingValue option.name)
      | none =>
        if arg.startsWith "-h" then .ok { d with help := true }
        else if isOption arg then .error (.unknownOption arg)
        else do readArguments (← d.file arg) args

def usage : String := "\n".intercalate [
  "Run an NROM cartridge without a display",
  "",
  "Usage: headless [OPTIONS] <ROM>",
  "",
  "Arguments:",
  "  <ROM>  iNES image to load",
  "",
  "Options:",
  "      --frames <FRAMES>      Number of frames to run [default: 60]",
  "      --log <LOG>            Core log spec, e.g. \"warn,cpu=debug,ppu=trace\"",
  "      --log-file <LOG_FILE>  Send core logs to this file instead of stderr",
  "      --dump <DUMP>          Write the last frame (palette indices) to this file as JSON",
  "      --quiet                No per-frame output",
  "  -h, --help                 Print help"]

/-- What the command line asks for. A request for help is met first. -/
def readCommand (args : List String) : Except UsageFault Command := do
  let d ← readArguments {} args
  if d.help then return .exit 0 (usage ++ "\n") ""
  return .run (← d.finish)

/-- A command line that cannot be read is reported. -/
def commandOf (args : List String) : Command :=
  match readCommand args with
  | .ok command => command
  | .error e => .exit 2 "" s!"error: {e.message}\n"

namespace Failure

/-- The lines of a cause, those after the first under it. -/
def indent (first next : String) (cause : String) : String :=
  first ++ (("\n" ++ next).intercalate (cause.splitOn "\n"))

/-- A single cause is indented, several are numbered. -/
def causeLines : List String → List String
  | [] => []
  | [cause] => [indent "    " "    " cause]
  | causes => causes.mapIdx fun i cause => indent s!"{Text.column 5 i}: " "       " cause

def message (f : Failure) : String :=
  "\n".intercalate ((s!"Error: {f.context}" :: if f.causes = [] then [] else ["", "Caused by:"]) ++
    causeLines f.causes) ++ "\n"

end Failure

/-- The libraries as the program has them. -/
def standard : Libraries := ⟨commandOf, Failure.message, Frame.codec⟩

end Famicom.Headless
