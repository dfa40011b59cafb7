import Famicom.Log.Basic

/-!
What the headless runner needs of the system it runs on: files, threads, a clock and two streams of
text.
-/

namespace Famicom.Headless

/-- Why a file cannot be opened or written, with the number that the system gives to the reason. -/
structure FileFault where
  reason : String
  code : Option Nat
deriving DecidableEq, Repr

namespace FileFault

def message (f : FileFault) : String :=
  match f.code with
  | some code => s!"{f.reason} (os error {code})"
  | none => f.reason

def notFound : FileFault := ⟨"No such file or directory", some 2⟩

def notDirectory : FileFault := ⟨"Not a directory", some 20⟩

def isDirectory : FileFault := ⟨"Is a directory", some 21⟩

def noDevice : FileFault := ⟨"No such device or address", some 6⟩

def noSpace : FileFault := ⟨"No space left on device", some 28⟩

def nameTooLong : FileFault := ⟨"File name too long", some 36⟩

/-- A path with a zero in it never reaches the system. -/
def zeroInPath : FileFault := ⟨"file name contained an unexpected NUL byte", none⟩

/-- There is no room for all the bytes of a file. -/
def outOfMemory : FileFault := ⟨"out of memory", none⟩

end FileFault

/-- Why a text is not written: its file cannot be created, or does not take it. -/
inductive WriteFault
  | creating (reason : FileFault)
  | writing (reason : FileFault)
deriving DecidableEq, Repr

class Host (m : Type → Type) extends Log.System m where
  readFile : String → m (Except FileFault (Array UInt8))
  /-- Opens a file for log lines, after what it holds already. -/
  openLog : String → m (Except FileFault Unit)
  /-- Starts a thread that writes log lines to an open file. -/
  startWriter : m (Except FileFault Unit)
  /-- Writes a file from its start. -/
  writeFile : String → String → m (Except WriteFault Unit)
  print : String → m Unit
  printError : String → m Unit

variable {m : Type → Type} [Monad m] [Host m]

/-- Sends the log to a file from now on, if the file can be opened and has a writer. -/
def logToFile (log : Log) (path : String) : m (Except FileFault Log) := do
  match ← Host.openLog path with
  | .error e => return .error e
  | .ok () =>
    match ← Host.startWriter with
    | .error e => return .error e
    | .ok () => return .ok (log.setSink (.file path))

end Famicom.Headless
