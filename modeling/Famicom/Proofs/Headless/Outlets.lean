import Famicom.Proofs.Headless.Desk

/-! Where the text that is written to a sink is kept. -/

namespace Famicom.Headless

open Famicom.Log

/-- Where text can be kept. -/
inductive Outlet
  | file (place : Place)
  | output
  | errors
deriving DecidableEq

/-- Where the text written to a place is kept; some devices keep nothing. -/
def placeOutlet? (place : Place) : Option Outlet :=
  match Device.at? place with
  | none => some (.file place)
  | some .output => some .output
  | some .errors => some .errors
  | some _ => none

def outlet? (files : Files) : Sink → Option Outlet
  | .standardError => some .errors
  | .file path => (files.placeToWrite path).toOption.bind placeOutlet?

def Desk.bytes (d : Desk) : Outlet → List UInt8
  | .file place => ((d.files.contents.lookup place).getD #[]).toList
  | .output => d.output.toUTF8.data.toList
  | .errors => d.errors.toUTF8.data.toList

variable {files : Files} {d : Desk} {path : String}

theorem outlet?_of_sameTree {gs : Files} (h : Files.SameTree files gs) (sink : Sink) :
    outlet? gs sink = outlet? files sink := by
  cases sink with
  | standardError => rfl
  | file path => exact congrArg (Option.bind · placeOutlet?) h.toOption_placeToWrite

theorem bytes_change (place p : Place) (f : Array UInt8 → Array UInt8) (d : Desk)
    (hdevice : Device.at? place = none) :
    Desk.bytes { d with files := d.files.change place f } (.file p) =
      if p = place then (f ((d.files.contents.lookup p).getD #[])).toList
      else d.bytes (.file p) := by
  change (((d.files.change place f).contents.lookup p).getD #[]).toList = _
  rw [Files.contents_change hdevice, Files.lookup_alter]
  split
  next h =>
    subst h
    rfl
  next => rfl

/-- Opening a file changes nothing that is kept. -/
theorem bytes_open (place : Place) (d : Desk) (outlet : Outlet) :
    Desk.bytes { d with files := d.files.change place fun bytes => bytes } outlet =
      d.bytes outlet := by
  cases outlet with
  | output | errors => rfl
  | file p =>
    cases hdevice : Device.at? place with
    | none =>
      rw [bytes_change place p _ d hdevice]
      exact ite_self _
    | some device => rw [Files.change_of_device hdevice]

/-- Text is kept at the end of what its place keeps already. -/
theorem bytes_deliver (place : Place) (text : String) (d : Desk) (outlet : Outlet) :
    (Desk.deliver place text d).2.bytes outlet = d.bytes outlet ++
      if placeOutlet? place = some outlet then text.toUTF8.data.toList else [] := by
  unfold Desk.deliver placeOutlet?
  cases hdevice : Device.at? place with
  | none =>
    dsimp only
    cases outlet with
    | output | errors => simp [Desk.bytes]
    | file p =>
      have hchange := bytes_change place p (· ++ text.toUTF8.data) d hdevice
      by_cases hp : p = place
      · subst hp
        rw [if_pos rfl] at hchange
        simpa [Desk.bytes] using hchange
      · rw [if_neg hp] at hchange
        simpa [Desk.bytes, Ne.symm hp] using hchange
  | some device =>
    cases device with
    | output | errors => cases outlet <;> simp [Desk.bytes]
    | null | endless | full | terminal => cases outlet <;> simp [Desk.bytes]

/-- A desk has the directories, the clock and the threads that it had. -/
structure SameSystem (d w : Desk) : Prop where
  tree : Files.SameTree d.files w.files
  clock : w.clock = d.clock
  readings : w.readings = d.readings
  threads : w.threads = d.threads
  starts : w.starts = d.starts

theorem SameSystem.refl (d : Desk) : SameSystem d d := ⟨.refl d.files, rfl, rfl, rfl, rfl⟩

theorem SameSystem.trans {v w : Desk} (h : SameSystem d v) (h' : SameSystem v w) :
    SameSystem d w :=
  ⟨h.tree.trans h'.tree, h'.clock.trans h.clock, h'.readings.trans h.readings,
    h'.threads.trans h.threads, h'.starts.trans h.starts⟩

theorem sameSystem_deliver (place : Place) (text : String) (d : Desk) :
    SameSystem d (Desk.deliver place text d).2 := by
  unfold Desk.deliver
  cases hdevice : Device.at? place with
  | none => exact ⟨Files.sameTree_change place _ d.files, rfl, rfl, rfl, rfl⟩
  | some device => cases device <;> exact ⟨.refl d.files, rfl, rfl, rfl, rfl⟩

theorem state_write_of_ok {place : Place} {text : String}
    (h : d.files.placeToWrite path = .ok place) : (Desk.write path text false d).2 =
      (Desk.deliver place text
        { d with files := d.files.change place fun bytes => bytes }).2 := by
  rw [Desk.write_of_ok h]
  rfl

theorem sameSystem_put (sink : Sink) (text : String) (d : Desk) :
    SameSystem d (Desk.put sink text d).2 := by
  cases sink with
  | standardError => exact ⟨.refl d.files, rfl, rfl, rfl, rfl⟩
  | file path =>
    change SameSystem d (Desk.write path text false d).2
    rcases h : d.files.placeToWrite path with e | place
    · rw [Desk.write_of_error h]
      exact .refl d
    · rw [state_write_of_ok h]
      have hopened : SameSystem d { d with files := d.files.change place fun bytes => bytes } :=
        ⟨Files.sameTree_change place (fun bytes => bytes) d.files, rfl, rfl, rfl, rfl⟩
      exact hopened.trans (sameSystem_deliver place text _)

/-- Text that is written is kept where its sink leads. -/
theorem bytes_put (sink : Sink) (text : String) (d : Desk) (outlet : Outlet) :
    (Desk.put sink text d).2.bytes outlet = d.bytes outlet ++
      if outlet? d.files sink = some outlet then text.toUTF8.data.toList else [] := by
  cases sink with
  | standardError =>
    change Desk.bytes { d with errors := d.errors ++ text } outlet = _
    cases outlet with
    | file p | output => simp [Desk.bytes, outlet?]
    | errors => simp [Desk.bytes, outlet?]
  | file path =>
    change (Desk.write path text false d).2.bytes outlet = _
    rcases h : d.files.placeToWrite path with e | place
    · rw [Desk.write_of_error h]
      simp [outlet?, h, Except.toOption]
    · rw [state_write_of_ok h, bytes_deliver, bytes_open]
      simp [outlet?, h, Except.toOption]

end Famicom.Headless
