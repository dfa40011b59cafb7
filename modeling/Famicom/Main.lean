import Famicom.Headless.Run
import Famicom.Headless.Standard

/-!
The headless runner as a program.
-/

namespace Famicom.Headless

/-- The reason that the system gives for a failure, and its number. -/
def fileFault : IO.Error → FileFault
  | .noFileOrDirectory _ code reason | .permissionDenied _ code reason
  | .inappropriateType _ code reason | .alreadyExists _ code reason
  | .invalidArgument _ code reason | .resourceExhausted _ code reason
  | .noSuchThing _ code reason | .interrupted _ code reason | .resourceBusy code reason
  | .resourceVanished code reason | .unsupportedOperation code reason | .hardwareFault code reason
  | .unsatisfiedConstraints code reason | .illegalOperation code reason
  | .protocolError code reason | .timeExpired code reason | .otherError code reason =>
    ⟨reason, some code.toNat⟩
  | e => ⟨toString e, none⟩

def attempt {α : Type} (x : IO α) : IO (Except FileFault α) := do
  match ← x.toBaseIO with
  | .ok a => return .ok a
  | .error e => return .error (fileFault e)

instance : Host IO where
  now := IO.monoNanosNow
  emit line :=
    match line.sink with
    | .standardError => line.pieces.forM IO.eprint
    | .file path => discard <| attempt do
      IO.FS.withFile path .append fun file => line.pieces.forM file.putStr
  readFile path := attempt do
    return (← IO.FS.withFile path .read (·.readBinToEnd)).data
  openLog path := attempt do
    IO.FS.withFile path .append fun _ => return
  -- each line is written where it is emitted, and needs no thread
  startWriter := return .ok ()
  writeFile path text := do
    match ← attempt (IO.FS.Handle.mk path .write) with
    | .error e => return .error (.creating e)
    | .ok file =>
      let answer ← attempt do
        file.putStr text
        file.flush
      return answer.mapError .writing
  print text := IO.print text
  printError text := IO.eprint text

end Famicom.Headless

def main (args : List String) : IO UInt32 :=
  Famicom.Headless.runCommandLine Famicom.Headless.standard args
