import Famicom.Console
import Famicom.Headless.Host
import Famicom.Headless.Libraries

/-!
The headless runner: it loads a cartridge, runs it for some frames with a line for each, and
writes the last one to a file if asked to.
-/

namespace Famicom.Headless

/-- The causes that a fault of the console is printed with. -/
def causes : Console.Fault → List String
  | .unreadable reason => [(Console.Fault.unreadable reason).message, reason]
  | fault => [fault.message]

def frameLine (count : Nat) (f : Frame) : String :=
  s!"frame {Text.column 4 count}: {f.width.toNat}x{f.height.toNat}, " ++
    s!"backdrop {Text.hexByte ((f.pixel? 0 0).getD 0)}\n"

variable {m : Type → Type} [Monad m] [Host m]

/-- Runs an operation of the console and logs what it reports. -/
def perform {α : Type} (x : Action Console.Fault Console α) (log : Log) (c : Console) :
    m (Except Console.Fault α × Log × Console) :=
  match x c with
  | ⟨answer, c, es⟩ => do
    let log ← log.recordAll es
    return (answer, log, c)

/-- The log that the options ask for. -/
def openLog (o : Options) : m (Except Failure Log) := do
  let spec := o.spec.getD ""
  match Log.applySpec spec {} with
  | ⟨.error e, _, _⟩ => return .error ⟨s!"bad --log spec {Text.quote spec}", [e.message]⟩
  | ⟨.ok (), log, _⟩ =>
    match o.logFile with
    | none => return .ok log
    | some path =>
      match ← logToFile log path with
      | .error e => return .error ⟨s!"opening log file {path}", [e.message]⟩
      | .ok log => return .ok log

/-- Shows `left` more frames after the first `count`, and answers the last one. -/
def showFrames (quiet : Bool) :
    Nat → Nat → Option Frame → Log → Console → m (Except Failure (Option Frame))
  | 0, _, last, _, _ => return .ok last
  | left + 1, count, _, log, c => do
    match ← perform Console.runFrame log c with
    | (.error e, _, _) => return .error ⟨s!"emulation stopped after {count} frames", causes e⟩
    | (.ok frame, log, c) =>
      unless quiet do
        Host.print (frameLine (count + 1) frame)
      showFrames quiet left (count + 1) (some frame) log c

/-- Powers up and shows the frames that the options ask for; if they ask for none, the console
stays off. -/
def runFrames (o : Options) (log : Log) (c : Console) : m (Except Failure (Option Frame)) := do
  if o.frames = 0 then
    return .ok none
  match ← perform Console.powerUp log c with
  | (.error e, _, _) => return .error ⟨"emulation stopped after 0 frames", causes e⟩
  | (.ok (), log, c) => showFrames o.quiet o.frames 0 none log c

def dump (lib : Libraries) (o : Options) (last : Option Frame) : m (Except Failure Unit) := do
  match o.dump, last with
  | none, _ => return .ok ()
  | some _, none => return .error ⟨"no frame to dump; --frames was 0", []⟩
  | some path, some frame =>
    match ← Host.writeFile path (lib.codec.encode frame) with
    | .error (.creating e) => return .error ⟨s!"creating {path}", [e.message]⟩
    | .error (.writing e) => return .error ⟨s!"writing {path}", [e.message]⟩
    | .ok () => return .ok ()

def runOptions (lib : Libraries) (o : Options) : m (Except Failure Unit) := do
  match ← openLog o with
  | .error e => return .error e
  | .ok log =>
    let image ← Host.readFile o.rom
    match ← perform (Console.insertFile (image.mapError FileFault.message)) log {} with
    | (.error e, _, _) => return .error ⟨s!"loading {o.rom}", causes e⟩
    | (.ok (), log, c) =>
      match ← runFrames o log c with
      | .error e => return .error e
      | .ok last => dump lib o last

/-- Runs a command line and answers the exit code. -/
def runCommandLine (lib : Libraries) (args : List String) : m UInt32 := do
  match lib.command args with
  | .exit code output errors =>
    Host.print output
    Host.printError errors
    return code
  | .run o =>
    match ← runOptions lib o with
    | .ok () => return 0
    | .error e =>
      Host.printError (lib.report e)
      return 1

end Famicom.Headless
