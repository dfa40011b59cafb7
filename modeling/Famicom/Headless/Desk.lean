import Famicom.Headless.Files

/-!
A desk on which the headless runner can run without a system: files in memory, the text that has
been printed, a clock, and threads that start or do not.
-/

namespace Famicom.Headless

structure Desk where
  files : Files := {}
  output : String := ""
  errors : String := ""
  /-- What the clock shows each time it is read. -/
  clock : Nat → Nat := fun _ => 0
  readings : Nat := 0
  /-- What comes of starting each thread. -/
  threads : Nat → Except FileFault Unit := fun _ => .ok ()
  starts : Nat := 0

namespace Desk

def onFiles {α : Type} (x : StateM Files α) : StateM Desk α :=
  fun ⟨files, output, errors, clock, readings, threads, starts⟩ =>
    match x files with
    | (answer, files) => (answer, ⟨files, output, errors, clock, readings, threads, starts⟩)

/-- Writes text to an open file. -/
def deliver (place : Place) (text : String) : StateM Desk (Except FileFault Unit) :=
  fun ⟨files, output, errors, clock, readings, threads, starts⟩ =>
    match Device.at? place with
    | none => (.ok (), ⟨files.change place (· ++ text.toUTF8.data), output, errors, clock, readings,
        threads, starts⟩)
    | some .output => (.ok (), ⟨files, output ++ text, errors, clock, readings, threads, starts⟩)
    | some .errors => (.ok (), ⟨files, output, errors ++ text, clock, readings, threads, starts⟩)
    | some .full => (if text = "" then .ok () else .error .noSpace,
        ⟨files, output, errors, clock, readings, threads, starts⟩)
    | some _ => (.ok (), ⟨files, output, errors, clock, readings, threads, starts⟩)

/-- Writes text to the end of a file, or from its start if the file is to be fresh. -/
def write (path text : String) (fresh : Bool) : StateM Desk (Except WriteFault Unit) := do
  match ← onFiles (Files.openToWrite path fresh) with
  | .error e => return .error (.creating e)
  | .ok place => return (← deliver place text).mapError .writing

/-- Writes text to a sink; what the sink does not take is lost. -/
def put (sink : Log.Sink) (text : String) : StateM Desk Unit :=
  match sink with
  | .standardError => modify fun w => { w with errors := w.errors ++ text }
  | .file path => discard <| write path text false

instance : Host (StateM Desk) where
  now := fun w => (w.clock w.readings, { w with readings := w.readings + 1 })
  emit line := line.pieces.forM (put line.sink)
  readFile path := fun w => (w.files.read path, w)
  openLog path := return (← onFiles (Files.openToWrite path false)).map fun _ => ()
  startWriter := fun w => (w.threads w.starts, { w with starts := w.starts + 1 })
  writeFile path text := write path text true
  print text := modify fun w => { w with output := w.output ++ text }
  printError text := modify fun w => { w with errors := w.errors ++ text }

end Desk

end Famicom.Headless
