import Famicom.Frame.Json

/-!
What the headless runner leaves to libraries: reading the command line, reporting a failure and
writing a frame as text.
-/

namespace Famicom.Headless

structure Options where
  rom : String
  frames : Nat
  spec : Option String
  logFile : Option String
  dump : Option String
  quiet : Bool
deriving DecidableEq, Repr

/-- What a command line asks for: a run, or only some text and an exit code. -/
inductive Command
  | run (options : Options)
  | exit (code : UInt32) (output errors : String)
deriving DecidableEq, Repr

/-- Why a run stops: what was being done, and the causes from the nearest to the last. -/
structure Failure where
  context : String
  causes : List String := []
deriving DecidableEq, Repr

structure Libraries where
  command : List String → Command
  report : Failure → String
  codec : Frame.Codec

end Famicom.Headless
