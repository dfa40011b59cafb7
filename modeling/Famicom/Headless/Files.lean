import Famicom.Headless.Host
import Famicom.Text.Field

/-!
A file system in memory. A path is followed name by name, from the root or from the working
directory, and every name but the last must be that of a directory. A device keeps
nothing of what is written to it.
-/

namespace Famicom.Headless

/-- The names on the way from a place up to the root. -/
abbrev Place := List String

/-- A file that the system makes up. -/
inductive Device
  /-- Has nothing to read and takes everything. -/
  | null
  /-- Never comes to an end and takes everything. -/
  | endless
  /-- Never comes to an end and takes nothing. -/
  | full
  /-- Takes text for the stream that is printed to. -/
  | output
  /-- Takes text for the stream that errors are printed to. -/
  | errors
  /-- The terminal, which cannot be opened where there is none. -/
  | terminal
deriving DecidableEq, Repr

namespace Device

def names : List (String × Device) := [("null", .null), ("zero", .endless), ("random", .endless),
  ("urandom", .endless), ("full", .full), ("stdin", .null), ("stdout", .output),
  ("stderr", .errors), ("tty", .terminal)]

/-- The streams by their numbers. -/
def numbers : List (String × Device) := [("0", .null), ("1", .output), ("2", .errors)]

def at? : Place → Option Device
  | [name, "dev"] => names.lookup name
  | [name, "fd", "dev"] => numbers.lookup name
  | _ => none

def read : Device → Except FileFault (Array UInt8)
  | .null | .output | .errors => .ok #[]
  | .endless | .full => .error .outOfMemory
  | .terminal => .error .noDevice

end Device

/-- The directories do not change; the root is always one of them. The working directory has the
empty name, which is in no path, so it is reached only from itself. -/
structure Files where
  directories : List Place := ["", "tmp"] :: ["fd", "dev"] :: ["pts", "dev"] :: ["shm", "dev"] ::
    ["bin", "boot", "dev", "etc", "home", "lib", "lib64", "media", "mnt", "opt", "proc", "root",
      "run", "sbin", "srv", "sys", "tmp", "usr", "var"].map ([·])
  working : Place := ["", "tmp"]
  contents : List (Place × Array UInt8) := []
deriving DecidableEq, Repr

/-- What can lie at a place. -/
inductive Node
  | file (bytes : Array UInt8)
  | device (d : Device)
  | directory
deriving DecidableEq, Repr

namespace Files

/-- The most bytes that a name may have. -/
def nameLimit : Nat := 255

/-- The most bytes that a path may have. -/
def pathLimit : Nat := 4095

def node? (fs : Files) (place : Place) : Option Node :=
  if place = [] ∨ place ∈ fs.directories then some .directory
  else
    match Device.at? place with
    | some d => some (.device d)
    | none => (fs.contents.lookup place).map .file

/-- Changes the bytes of the file at a place; a file that is not there yet starts empty. -/
def alter (place : Place) (change : Array UInt8 → Array UInt8) :
    List (Place × Array UInt8) → List (Place × Array UInt8)
  | [] => [(place, change #[])]
  | (p, bytes) :: rest =>
    if p = place then (p, change bytes) :: rest else (p, bytes) :: alter place change rest

/-- Changes the bytes of the file at a place; a device has none. -/
def change (place : Place) (f : Array UInt8 → Array UInt8) : Files → Files
  | ⟨directories, working, contents⟩ =>
    match Device.at? place with
    | some _ => ⟨directories, working, contents⟩
    | none => ⟨directories, working, alter place f contents⟩

def put (place : Place) (bytes : Array UInt8) : Files → Files := change place fun _ => bytes

/-- Where a name leads from a directory. -/
def follow (directory : Place) (name : String) : Except FileFault Place :=
  if name = "." then .ok directory
  else if name = ".." then .ok directory.tail
  else if nameLimit < name.utf8ByteSize then .error .nameTooLong
  else .ok (name :: directory)

/-- Follows a name into a directory. -/
def enter (fs : Files) (directory : Place) (name : String) : Except FileFault Place := do
  let place ← follow directory name
  match fs.node? place with
  | some .directory => .ok place
  | some (.file _) | some (.device _) => .error .notDirectory
  | none => .error .notFound

/-- The names in a path; slashes may be doubled. -/
def names (path : String) : List String :=
  ((Text.fields '/' path.toList).filter (· ≠ [])).map String.ofList

/-- What is left of a path when all names but the last have been followed. -/
structure Target where
  directory : Place
  name : String
  /-- Whether a slash follows the name. -/
  slash : Bool
deriving DecidableEq, Repr

def target (fs : Files) (path : String) : Except FileFault Target := do
  if path.toList.contains '\x00' then .error .zeroInPath
  else if path = "" then .error .notFound
  else if pathLimit < path.utf8ByteSize then .error .nameTooLong
  else
    let start := if path.toList.head? = some '/' then [] else fs.working
    let directory ← (names path).dropLast.foldlM fs.enter start
    return {
      directory
      name := (names path).getLastD "."
      slash := path.toList.getLast? = some '/' }

def read (fs : Files) (path : String) : Except FileFault (Array UInt8) := do
  let t ← fs.target path
  let place ← follow t.directory t.name
  match fs.node? place with
  | some (.file bytes) => if t.slash then .error .notDirectory else .ok bytes
  | some (.device d) => if t.slash then .error .notDirectory else d.read
  | some .directory => .error .isDirectory
  | none => .error .notFound

/-- The place of a file to write, which need not be there yet. A slash after its name asks for a
directory, and that is refused before the name is looked up. -/
def placeToWrite (fs : Files) (path : String) : Except FileFault Place := do
  let t ← fs.target path
  if t.slash then .error .isDirectory
  else
    let place ← follow t.directory t.name
    match fs.node? place with
    | some .directory => .error .isDirectory
    | some (.device .terminal) => .error .noDevice
    | _ => .ok place

/-- Opens a file to write at its end, or from its start if it is to be fresh, and answers its place.
The file is there afterwards, even if nothing is written. -/
def openToWrite (path : String) (fresh : Bool) : StateM Files (Except FileFault Place) := fun fs =>
  match fs.placeToWrite path with
  | .error e => (.error e, fs)
  | .ok place => (.ok place, fs.change place fun bytes => if fresh then #[] else bytes)

end Files

end Famicom.Headless
