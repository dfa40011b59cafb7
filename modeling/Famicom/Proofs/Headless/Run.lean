import Famicom.Headless.Standard
import Famicom.Proofs.Console.Idle
import Famicom.Proofs.Console.Jam
import Famicom.Proofs.Console.Kept
import Famicom.Proofs.Headless.Desk

/-! What the headless runner prints and writes. It is compared with a console whose steps return the
frames one by one: the runner prints a line for each as long as they succeed, and only when all that
were asked for have does it touch the file for the last one. -/

namespace Famicom

open Famicom.Action

namespace Console

variable {c d u : Console} {f : Frame} {frames : List Frame} {es : List Event}

/-- Steps that return a frame each. -/
inductive Steps : Console → List Frame → Console → Prop
  | nil {c : Console} : Steps c [] c
  | cons {c d u : Console} {f : Frame} {frames : List Frame} {es : List Event} :
      stepFrame c = ⟨.ok f, d, es⟩ → Steps d frames u → Steps c (f :: frames) u

/-- Steps return a frame each until one of them fails, if one does. -/
theorem steps_or_fails (c : Console) (n : Nat) :
    (∃ frames u, frames.length = n ∧ Steps c frames u) ∨
      ∃ frames u e, frames.length < n ∧ Steps c frames u ∧ (stepFrame u).answer = .error e := by
  induction n generalizing c with
  | zero => exact .inl ⟨[], c, rfl, .nil⟩
  | succ n ih =>
    rcases hstep : stepFrame c with ⟨e | f, d, es⟩
    · exact .inr ⟨[], c, e, Nat.succ_pos n, .nil, by rw [hstep]⟩
    · rcases ih d with ⟨frames, u, hlength, hsteps⟩ | ⟨frames, u, e, hlength, hsteps, herror⟩
      · exact .inl ⟨f :: frames, u, congrArg (· + 1) hlength, .cons hstep hsteps⟩
      · exact .inr ⟨f :: frames, u, e, Nat.succ_lt_succ hlength, .cons hstep hsteps, herror⟩

theorem powered_runFrame (hp : c.powered = true) : (runFrame c).state.powered = true := by
  have hkeeps : Bus.MemoryKeeps fun _ => True := fun _ =>
    { refused := fun _ _ => trivial
      readRegister := fun _ _ _ => ⟨trivial, fun _ _ => trivial⟩
      writeRegister := fun _ _ _ _ => ⟨trivial, fun _ _ => trivial⟩
      writeOamAll := fun _ _ _ => trivial
      readCartridge := fun _ _ _ _ _ _ => trivial
      writeCartridge := fun _ _ _ _ _ => ⟨trivial, fun _ _ => trivial⟩ }
  exact (keepsOn_runFrame hkeeps c ⟨hp, trivial⟩).1.1

/-- A step of a console that is off is one of the console powered up. -/
theorem stepFrame_of_powerUp (hc : c.powered = false) (hpower : powerUp c = ⟨.ok (), d, es⟩)
    (hd : d.powered = true) : (stepFrame c).answer = (stepFrame d).answer ∧
      (stepFrame c).state = (stepFrame d).state := by
  rw [stepFrame_of_off hc, bind_of_ok hpower, stepFrame_of_powered hd]
  exact ⟨rfl, rfl⟩

theorem Steps.powerUp (h : Steps c frames u) (hc : c.powered = false)
    (hpower : Console.powerUp c = ⟨.ok (), d, es⟩) (hd : d.powered = true) :
    ∃ v, Steps d frames v ∧ (stepFrame v).answer = (stepFrame u).answer := by
  obtain ⟨hanswer, hstate⟩ := stepFrame_of_powerUp hc hpower hd
  -- the power is on after the first step, so that only this one can differ
  cases h with
  | nil => exact ⟨d, .nil, hanswer.symm⟩
  | cons hstep hrest =>
    rw [hstep] at hanswer hstate
    rcases hd' : stepFrame d with ⟨answer, v, es'⟩
    rw [hd'] at hanswer hstate
    cases hanswer
    cases hstate
    exact ⟨u, .cons hd' hrest, rfl⟩

end Console

namespace Headless

open Famicom.Console

variable {place? : Option Place} {log : Log} {d v w : Desk} {c u : Console} {f : Frame}
  {frames : List Frame} {es : List Event} {left : Nat}

/-- A number in four columns, with blanks before it. -/
def numberText (n : Nat) : String :=
  String.ofList (.replicate (4 - (toString n).length) ' ') ++ toString n

/-- A byte in two digits of base sixteen. -/
def byteText (v : UInt8) : String :=
  let digits := "0123456789ABCDEF".toList
  String.ofList [digits.getD (v.toNat / 16) '?', digits.getD (v.toNat % 16) '?']

/-- The first pixel of a frame, or colour 0 if it has none. -/
def backdrop (f : Frame) : UInt8 :=
  if f.width = 0 ∨ f.height = 0 then 0 else f.pixels.toList.headD 0

/-- The lines of frames after the first `count`: the number of each, its size and its first
pixel. -/
def frameLines (count : Nat) : List Frame → String
  | [] => ""
  | f :: frames =>
    "frame " ++ numberText (count + 1) ++ ": " ++ toString f.width.toNat ++ "x" ++
      toString f.height.toNat ++ ", backdrop " ++ byteText (backdrop f) ++ "\n" ++
      frameLines (count + 1) frames

theorem column_eq (n : Nat) : Text.column 4 n = numberText n := by
  have hdigits : (toString n).toList = Nat.toDigits 10 n := by
    rw [Nat.toString_eq_repr, Nat.toList_repr]
  apply String.toList_inj.mp
  rw [numberText, String.toList_append, String.toList_ofList, ← String.length_toList, hdigits,
    Text.column, String.toList_ofList, List.leftpad]

theorem hexByte_eq (v : UInt8) : Text.hexByte v = byteText v := by
  have hall : ∀ n < 256, ((Nat.toDigits 16 n).map Char.toUpper).leftpad 2 '0' =
      ["0123456789ABCDEF".toList.getD (n / 16) '?',
        "0123456789ABCDEF".toList.getD (n % 16) '?'] := by
    decide +kernel
  exact congrArg String.ofList (hall v.toNat v.toNat_lt)

theorem getD_pixel? (f : Frame) : (f.pixel? 0 0).getD 0 = backdrop f := by
  have hsize : (0 < f.width ∧ 0 < f.height) ↔ ¬(f.width = 0 ∨ f.height = 0) := by
    rw [UInt32.pos_iff_ne_zero, UInt32.pos_iff_ne_zero, not_or]
  unfold Frame.pixel? backdrop
  by_cases h : f.width = 0 ∨ f.height = 0
  · rw [if_neg (hsize.not.mpr (not_not.mpr h)), if_pos h]
    rfl
  · rw [if_pos (hsize.mpr h), if_neg h, List.headD_eq_head?_getD, List.head?_eq_getElem?]
    simp

/-- The runner's line of a frame. -/
theorem frameLines_cons (count : Nat) (f : Frame) (frames : List Frame) :
    frameLines count (f :: frames) = frameLine (count + 1) f ++ frameLines (count + 1) frames := by
  have hjoin : ∀ text : String, ", " ++ ("backdrop " ++ text) = ", backdrop " ++ text := by
    intro text
    rw [← String.append_assoc]
    rfl
  unfold frameLine
  rw [column_eq, hexByte_eq, getD_pixel?, frameLines]
  simp only [String.append_assoc, ← hjoin]
  rfl

/-- What is printed of frames after the first `count`. -/
def shown (quiet : Bool) (count : Nat) (frames : List Frame) : String :=
  if quiet then "" else frameLines count frames

theorem shown_nil (quiet : Bool) (count : Nat) : shown quiet count [] = "" := by
  cases quiet <;> rfl

theorem shown_cons (quiet : Bool) (count : Nat) (f : Frame) (frames : List Frame) :
    shown quiet count (f :: frames) =
      shown quiet count [f] ++ shown quiet (count + 1) frames := by
  cases quiet with
  | true => rfl
  | false =>
    change frameLines count (f :: frames) = frameLines count [f] ++ frameLines (count + 1) frames
    rw [frameLines_cons, frameLines_cons, frameLines, String.append_empty]

theorem shown_singleton (count : Nat) (f : Frame) :
    shown false count [f] = frameLine (count + 1) f :=
  (frameLines_cons count f []).trans String.append_empty

namespace Desk

theorem Logs.step (h : Logs place? log d) (hrun : runFrame c = ⟨.ok f, u, es⟩) (quiet : Bool)
    (left count : Nat) (last : Option Frame) : ∃ after w,
      (showFrames quiet (left + 1) count last log c : StateM Desk _) d =
        (showFrames quiet left (count + 1) (some f) after u : StateM Desk _) w ∧
      Logs place? after w ∧ Printed place? (shown quiet count [f]) d w := by
  obtain ⟨after, v, hperform, hlogs, hprinted⟩ := h.perform hrun
  have hstep : (showFrames quiet (left + 1) count last log c : StateM Desk _) d =
      (do
        unless quiet do Host.print (frameLine (count + 1) f)
        showFrames quiet left (count + 1) (some f) after u : StateM Desk _) v := by
    rw [showFrames, bind_of_eq hperform]
  -- what is left of the step is the line, which has nothing to do with the files
  rw [hstep]
  cases quiet with
  | true => exact ⟨after, v, rfl, hlogs, hprinted⟩
  | false =>
    have hline : Printed place? (shown false count [f]) v
        { v with output := v.output ++ frameLine (count + 1) f } :=
      ⟨by rw [shown_singleton], .refl v.files⟩
    exact ⟨after, _, rfl, hlogs.after hline, hprinted.after hline⟩

/-- As long as the steps return frames their lines are printed, and the rest goes on from there. -/
theorem Logs.steps (h : Logs place? log d) (hsteps : Steps c frames u)
    (hc : c.powered = true) (quiet : Bool) (left count : Nat) (last : Option Frame) :
    ∃ after w, (showFrames quiet (frames.length + left) count last log c : StateM Desk _) d =
        (showFrames quiet left (count + frames.length) (frames.getLast?.or last) after u :
          StateM Desk _) w ∧
      u.powered = true ∧ Logs place? after w ∧ Printed place? (shown quiet count frames) d w := by
  -- the count and the last frame are what the steps before have made of them
  induction hsteps generalizing log d count last with
  | nil =>
    rw [shown_nil]
    exact ⟨log, d, by simp, hc, h, .refl d⟩
  | @cons c b u f frames es hstep _ ih =>
    rw [stepFrame_of_powered hc] at hstep
    have hb := powered_runFrame hc
    rw [hstep] at hb
    obtain ⟨after, v, hfirst, hlogs, hprinted⟩ :=
      h.step hstep quiet (frames.length + left) count last
    obtain ⟨after', w, hrest, hu, hlogs', hprinted'⟩ := ih hlogs hb (count + 1) (some f)
    have hlength : (f :: frames).length + left = frames.length + left + 1 := by
      rw [List.length_cons]
      omega
    have hcount : count + (f :: frames).length = count + 1 + frames.length := by
      rw [List.length_cons]
      omega
    have hlast : (f :: frames).getLast?.or last = frames.getLast?.or (some f) := by
      rw [List.getLast?_cons]
      cases frames.getLast? <;> rfl
    refine ⟨after', w, ?_, hu, hlogs', ?_⟩
    · rw [hlength, hcount, hlast, hfirst, hrest]
    · rw [shown_cons]
      exact hprinted.trans hprinted'

/-- The frames that the steps of a new console return are shown, up to where the steps have come. -/
theorem Logs.run (h : Logs place? log d) {o : Options} (ho : o.frames ≠ 0)
    (hsteps : Steps c frames u) (hlength : frames.length + left = o.frames)
    (hc : c.powered = false) {b : Console} (hpower : powerUp c = ⟨.ok (), b, es⟩)
    (hb : b.powered = true) : ∃ v after w, (runFrames o log c : StateM Desk _) d =
        (showFrames o.quiet left frames.length frames.getLast? after v : StateM Desk _) w ∧
      v.powered = true ∧ (stepFrame v).answer = (stepFrame u).answer ∧
      Logs place? after w ∧ Printed place? (shown o.quiet 0 frames) d w := by
  -- the runner powers up by itself, the first step of the console does so on the way
  obtain ⟨v, hsteps', hanswer⟩ := hsteps.powerUp hc hpower hb
  obtain ⟨after, w, hperform, hlogs, hprinted⟩ := h.perform hpower
  obtain ⟨after', w', hshow, hv, hlogs', hprinted'⟩ :=
    hlogs.steps hsteps' hb o.quiet left 0 none
  refine ⟨v, after', w', ?_, hv, hanswer, hlogs', hprinted.after hprinted'⟩
  rw [Nat.zero_add, Option.or_none, hlength] at hshow
  rw [← hshow]
  unfold runFrames
  rw [if_neg ho, bind_of_eq hperform]

end Desk

/-! The stages of a run. -/

/-- The place of the log file that the options ask for. -/
def Options.logPlace? (o : Options) (fs : Files) : Option Place :=
  o.logFile.bind fun path => (fs.placeToWrite path).toOption

/-- The options can be met: the spec is one, the log file can be opened, has a writer and is not
what the runner prints to, and the file for the last frame can be written, keeps what is written to
it and is not that of the log. -/
structure Options.Usable (o : Options) (d : Desk) : Prop where
  spec : (Log.applySpec (o.spec.getD "") {}).answer.isOk
  logFile : ∀ path, o.logFile = some path → d.threads d.starts = .ok () ∧
    ∃ p, d.files.placeToWrite path = .ok p ∧ Device.at? p ≠ some .output
  dump : ∀ path, o.dump = some path → ∃ p, d.files.placeToWrite path = .ok p ∧
    Device.at? p = none ∧ o.logPlace? d.files ≠ some p

/-- A new console with the cartridge whose image is in a file. -/
def Loads (fs : Files) (rom : String) (c : Console) : Prop :=
  ∃ image k, fs.read rom = .ok image ∧ Cartridge.ofImage image = .ok k ∧
    c = (Console.insert image {}).state

variable {lib : Libraries} {o : Options}

/-- The log file is opened where its lines will go, and hides nothing that could be read before. -/
theorem openLog_of_usable (h : o.Usable d) : ∃ log v,
    (openLog o : StateM Desk _) d = (.ok log, v) ∧ Desk.Logs (o.logPlace? d.files) log v ∧
      Desk.Printed (o.logPlace? d.files) "" d v ∧
      ∀ path bytes, (d.files.read path = .ok bytes → v.files.read path = .ok bytes) ∧
        (v.files.read path = .ok bytes → d.files.read path = .ok bytes ∨ bytes = #[]) := by
  have hok := h.spec
  have hsink := Log.sink_applySpec (o.spec.getD "") {}
  unfold openLog
  rcases hspec : Log.applySpec (o.spec.getD "") {} with ⟨_ | _, log, _⟩
  · rw [hspec] at hok
    cases hok
  rw [hspec] at hsink
  change log.sink = .standardError at hsink
  cases hfile : o.logFile with
  | none =>
    have hplace : o.logPlace? d.files = none := by
      unfold Options.logPlace?
      rw [hfile]
      rfl
    rw [hplace]
    refine ⟨log, d, rfl, ⟨by rw [hsink]; rfl, fun p hp => by cases hp⟩, .refl d, ?_⟩
    exact fun path bytes => ⟨id, .inl⟩
  | some path =>
    obtain ⟨hstarts, p, hp, hdevice⟩ := h.logFile path hfile
    have hplace : o.logPlace? d.files = some p := by
      unfold Options.logPlace?
      rw [hfile]
      exact congrArg Except.toOption hp
    have hwritable := (Files.placeToWrite_eq_ok_iff.mp hp).2
    have hkeeps := Files.keeps_change hwritable fun bytes => bytes
    have hprinted : Desk.Printed (some p) "" d { d with
        files := d.files.change p fun bytes => bytes
        starts := d.starts + 1 } :=
      ⟨String.append_empty.symm, hkeeps⟩
    -- nothing is logged before the sink is set, so the log may be taken to have had it before
    have hlogs : Desk.Logs (some p) (log.setSink (.file path)) d :=
      ⟨congrArg Except.toOption hp, fun q hq => by cases hq; exact hdevice⟩
    rw [hplace]
    refine ⟨_, _, ?_, hlogs.after hprinted, hprinted,
      fun path bytes => Files.read_open hwritable⟩
    dsimp only
    rw [bind_of_eq (Desk.logToFile_of_ok hp), hstarts]
    rfl

theorem insertFile_of_ok {image : Array UInt8} {k : Cartridge}
    (h : Cartridge.ofImage image = .ok k) : Console.insertFile (.ok image) {} =
      ⟨.ok (), (Console.insert image {}).state, Cartridge.loadEvents image⟩ := by
  change Console.insert image {} = _
  rw [insert_of_ok h]

theorem powerUp_of_loads {fs : Files} {rom : String} (h : Loads fs rom c) :
    c.powered = false ∧ ∃ b es, powerUp c = ⟨.ok (), b, es⟩ ∧ b.powered = true := by
  obtain ⟨image, k, -, himage, rfl⟩ := h
  have hcartridge := cartridge_insert (c := {}) himage
  have hsound := sound_insert sound_new image
  have hoff : (Console.insert image {}).state.powered = false := by
    rw [insert_of_ok himage]
    rfl
  obtain ⟨b, es, hpower, hb⟩ := powerUp_of_inserted hsound (by rw [hcartridge]; rfl)
  exact ⟨hoff, b, es, hpower, hb.powered⟩

/-- Once an image is loaded, frames are run and the last one is written. -/
theorem runOptions_of_loads (h : o.Usable d) (hc : Loads d.files o.rom c) : ∃ log v,
    (runOptions lib o : StateM Desk _) d = (do
      match ← runFrames o log c with
      | .error e => return .error e
      | .ok last => dump lib o last : StateM Desk (Except Failure Unit)) v ∧
    Desk.Logs (o.logPlace? d.files) log v ∧ Desk.Printed (o.logPlace? d.files) "" d v := by
  obtain ⟨log, v, hopen, hlogs, hprinted, hread⟩ := openLog_of_usable h
  obtain ⟨image, k, hrom, himage, rfl⟩ := hc
  obtain ⟨after, w, hperform, hlogs', hprinted'⟩ := hlogs.perform (insertFile_of_ok himage)
  refine ⟨after, w, ?_, hlogs', hprinted.after hprinted'⟩
  have hfile : (Host.readFile o.rom : StateM Desk _) v = (.ok image, v) :=
    congrArg (·, v) ((hread o.rom image).1 hrom)
  unfold runOptions
  rw [bind_of_eq hopen]
  dsimp only
  rw [bind_of_eq hfile]
  dsimp only [Except.mapError]
  exact bind_of_eq hperform

/-- An image that cannot be loaded ends the run. -/
theorem runOptions_of_refused (h : o.Usable d) (hc : ∀ c, ¬Loads d.files o.rom c) :
    ∃ e w, (runOptions lib o : StateM Desk (Except Failure Unit)) d = (.error e, w) ∧
      Desk.Printed (o.logPlace? d.files) "" d w := by
  obtain ⟨log, v, hopen, hlogs, hprinted, hread⟩ := openLog_of_usable h
  have hfails : ∃ e es, Console.insertFile ((v.files.read o.rom).mapError FileFault.message) {} =
      ⟨.error e, {}, es⟩ := by
    rcases hrom : v.files.read o.rom with reason | image
    · exact ⟨_, _, rfl⟩
    rcases himage : Cartridge.ofImage image with e | k
    · exact ⟨_, _, insert_of_error himage {}⟩
    -- the image was there before the log file, unless it is that file
    · exfalso
      rcases (hread o.rom image).2 hrom with hbefore | hempty
      · exact hc _ ⟨image, k, hbefore, himage, rfl⟩
      · rw [hempty] at himage
        cases himage
  obtain ⟨e, es, hinsert⟩ := hfails
  obtain ⟨after, w, hperform, -, hprinted'⟩ := hlogs.perform hinsert
  refine ⟨⟨s!"loading {o.rom}", causes e⟩, w, ?_, hprinted.after hprinted'⟩
  have hfile : (Host.readFile o.rom : StateM Desk _) v = (v.files.read o.rom, v) := rfl
  unfold runOptions
  rw [bind_of_eq hopen]
  dsimp only
  rw [bind_of_eq hfile, bind_of_eq hperform]
  rfl

theorem dump_of_some {path : String} {p : Place} (hpath : o.dump = some path)
    (hp : d.files.placeToWrite path = .ok p) (hdevice : Device.at? p = none) (f : Frame) :
    ∃ w, (dump lib o (some f) : StateM Desk _) d = (.ok (), w) ∧ w.output = d.output ∧
      w.files.read path = .ok (lib.codec.encode f).toUTF8.data := by
  let bytes := (lib.codec.encode f).toUTF8.data
  have hwrite : (Host.writeFile path (lib.codec.encode f) : StateM Desk _) d = (.ok (),
      { d with files := (d.files.change p fun _ => #[]).change p (· ++ bytes) }) := by
    change Desk.write path (lib.codec.encode f) true d = _
    rw [Desk.write_of_ok hp]
    unfold Desk.deliver
    dsimp only [if_true]
    rw [hdevice]
    rfl
  have hdump : (dump lib o (some f) : StateM Desk _) d = (.ok (),
      { d with files := (d.files.change p fun _ => #[]).change p (· ++ bytes) }) := by
    unfold dump
    rw [hpath]
    dsimp only
    rw [bind_of_eq hwrite]
    rfl
  exact ⟨_, hdump, rfl, Files.read_rewritten hp hdevice bytes⟩

/-- The exit code tells whether the run has failed, and the reason is not printed among the
lines. -/
theorem runCommandLine_of_ok {args : List String} (hargs : lib.command args = .run o)
    (h : (runOptions lib o : StateM Desk _) d = (.ok (), w)) :
    (runCommandLine lib args : StateM Desk UInt32) d = (0, w) := by
  unfold runCommandLine
  rw [hargs]
  dsimp only
  rw [bind_of_eq h]
  rfl

theorem runCommandLine_of_error {args : List String} {e : Failure}
    (hargs : lib.command args = .run o)
    (h : (runOptions lib o : StateM Desk _) d = (.error e, w)) :
    (runCommandLine lib args : StateM Desk UInt32) d =
      (1, { w with errors := w.errors ++ lib.report e }) := by
  unfold runCommandLine
  rw [hargs]
  dsimp only
  rw [bind_of_eq h]
  rfl

/-- Nothing but the lines of the frames is printed, and no file is written but that of the log: what
the path of the dump gives is what it gave before. -/
structure Options.Shows (o : Options) (frames : List Frame) (d w : Desk) : Prop where
  output_eq : w.output = d.output ++ if o.quiet then "" else frameLines 0 frames
  node_eq : ∀ p, o.logPlace? d.files ≠ some p → w.files.node? p = d.files.node? p
  read_eq : ∀ path, o.dump = some path → w.files.read path = d.files.read path

theorem Options.Usable.shows (h : o.Usable d)
    (hw : Desk.Printed (o.logPlace? d.files) (shown o.quiet 0 frames) d w) :
    o.Shows frames d w := by
  refine ⟨hw.output_eq, hw.files.node_eq, fun path hpath => ?_⟩
  obtain ⟨p, hp, -, hlog⟩ := h.dump path hpath
  exact hw.files.read_eq (Files.placeToWrite_eq_ok_iff.mp hp).1 hlog

theorem runFrames_of_none (ho : o.frames = 0) (log : Log) (c : Console) (d : Desk) :
    (runFrames o log c : StateM Desk _) d = (.ok none, d) := by
  unfold runFrames
  rw [if_pos ho]
  rfl

section

variable {args : List String} {code : UInt32} (hargs : lib.command args = .run o)
  (hd : o.Usable d) (hrun : (runCommandLine lib args : StateM Desk UInt32) d = (code, w))

include hargs hd hrun

/-- A run that fails leaves everything as its last stage has left it. -/
theorem shows_of_error {e : Failure} (herror : (runOptions lib o : StateM Desk _) d = (.error e, v))
    (hv : Desk.Printed (o.logPlace? d.files) (shown o.quiet 0 frames) d v) :
    code = 1 ∧ o.Shows frames d w := by
  rw [runCommandLine_of_error hargs herror] at hrun
  cases hrun
  exact ⟨rfl, hd.shows ⟨hv.output_eq, hv.files⟩⟩

theorem succeeds_of_steps {last : Frame} (hc : Loads d.files o.rom c)
    (hsteps : Steps c (frames ++ [last]) u) (hlength : frames.length + 1 = o.frames) :
    code = 0 ∧
      w.output = d.output ++ (if o.quiet then "" else frameLines 0 (frames ++ [last])) ∧
      ∀ path, o.dump = some path → w.files.read path = .ok (lib.codec.encode last).toUTF8.data := by
  obtain ⟨log, v, hload, hlogs, hprinted⟩ := runOptions_of_loads hd hc
  obtain ⟨hoff, b, es, hpower, hb⟩ := powerUp_of_loads hc
  have hlength' : (frames ++ [last]).length + 0 = o.frames := by
    rw [List.length_append]
    exact hlength
  have hlast : (frames ++ [last]).getLast? = some last := List.getLast?_concat
  obtain ⟨x, after, z, hframes, -, -, -, hprinted'⟩ :=
    hlogs.run (by omega) hsteps hlength' hoff hpower hb
  rw [hlast, showFrames] at hframes
  have hshown := hprinted.after hprinted'
  have hdump : (runOptions lib o : StateM Desk _) d = (dump lib o (some last) : StateM Desk _) z := by
    rw [hload, bind_of_eq hframes]
  cases hpath : o.dump with
  | none =>
    have hend : (dump lib o (some last) : StateM Desk _) z = (.ok (), z) := by
      unfold dump
      rw [hpath]
      rfl
    rw [runCommandLine_of_ok hargs (hdump.trans hend)] at hrun
    cases hrun
    exact ⟨rfl, hshown.output_eq, fun path hpath' => by cases hpath'⟩
  | some path =>
    obtain ⟨p, hp, hdevice, -⟩ := hd.dump path hpath
    -- the files that have been opened since then have not changed where the path leads
    have hp' := hshown.files.toSameTree.placeToWrite hp
    obtain ⟨w', hend, houtput, hread⟩ := dump_of_some hpath hp' hdevice last
    rw [runCommandLine_of_ok hargs (hdump.trans hend)] at hrun
    cases hrun
    refine ⟨rfl, houtput.trans hshown.output_eq, fun path' hpath' => ?_⟩
    cases hpath'
    exact hread

theorem fails_of_step {e : Console.Fault} (hc : Loads d.files o.rom c)
    (hsteps : Steps c frames u) (hlength : frames.length < o.frames)
    (herror : (stepFrame u).answer = .error e) : code = 1 ∧ o.Shows frames d w := by
  obtain ⟨log, v, hload, hlogs, hprinted⟩ := runOptions_of_loads hd hc
  obtain ⟨hoff, b, es, hpower, hb⟩ := powerUp_of_loads hc
  have hlength' : frames.length + (o.frames - frames.length - 1 + 1) = o.frames := by omega
  obtain ⟨x, after, z, hframes, hx, hanswer, hlogs', hprinted'⟩ :=
    hlogs.run (by omega) hsteps hlength' hoff hpower hb
  -- the runner meets the fault that the step does
  rw [stepFrame_of_powered hx, herror] at hanswer
  rcases hfault : Console.runFrame x with ⟨answer, y, es'⟩
  rw [hfault] at hanswer
  cases hanswer
  obtain ⟨after', w', hperform, -, hprinted''⟩ := hlogs'.perform hfault
  have hstops : ∃ reason, (runFrames o log c : StateM Desk _) v = (.error reason, w') := by
    refine ⟨⟨s!"emulation stopped after {frames.length} frames", causes e⟩, ?_⟩
    rw [hframes, showFrames, bind_of_eq hperform]
    rfl
  obtain ⟨reason, hstops⟩ := hstops
  have hends : (runOptions lib o : StateM Desk _) d = (.error reason, w') := by
    rw [hload, bind_of_eq hstops]
    rfl
  have hshown := hprinted'.trans hprinted''
  rw [String.append_empty] at hshown
  exact shows_of_error hargs hd hrun hends (hprinted.after hshown)

theorem shows_of_none (hc : Loads d.files o.rom c) (ho : o.frames = 0) :
    code = (if o.dump.isSome then 1 else 0) ∧ o.Shows [] d w := by
  obtain ⟨log, v, hload, -, hprinted⟩ := runOptions_of_loads hd hc
  rw [bind_of_eq (runFrames_of_none ho log c v)] at hload
  dsimp only at hload
  rw [← shown_nil o.quiet 0] at hprinted
  unfold dump at hload
  cases hpath : o.dump with
  | none =>
    rw [hpath] at hload
    rw [runCommandLine_of_ok hargs hload] at hrun
    cases hrun
    exact ⟨rfl, hd.shows hprinted⟩
  | some path =>
    rw [hpath] at hload
    exact shows_of_error hargs hd hrun hload hprinted

end

/-- For options that can be met, with any libraries that read them from the command line. If all the
frames asked for are returned by the steps of a new console with the cartridge, the runner succeeds,
prints their lines and writes the text of the last one. If loading fails or a step does, it fails,
having printed the lines of the frames before that and left the path of the dump as it was. Without
any frames to run nothing is done with the console, and a dump cannot be had. There is no other way
for the steps to go. -/
theorem runner_follows_steps {lib : Libraries} {args : List String} {o : Options} {d w : Desk}
    {code : UInt32} (hargs : lib.command args = .run o) (hd : o.Usable d)
    (hrun : (runCommandLine lib args : StateM Desk UInt32) d = (code, w)) :
    (∀ c frames last u, Loads d.files o.rom c → Steps c (frames ++ [last]) u →
      frames.length + 1 = o.frames → code = 0 ∧
        w.output = d.output ++ (if o.quiet then "" else frameLines 0 (frames ++ [last])) ∧
        ∀ path, o.dump = some path → w.files.read path = .ok (lib.codec.encode last).toUTF8.data) ∧
    ((∀ c, ¬Loads d.files o.rom c) → code = 1 ∧ o.Shows [] d w) ∧
    (∀ c frames u e, Loads d.files o.rom c → Steps c frames u → frames.length < o.frames →
      (stepFrame u).answer = .error e → code = 1 ∧ o.Shows frames d w) ∧
    (o.frames = 0 → (∀ log c v, (runFrames o log c : StateM Desk _) v = (.ok none, v)) ∧
      (o.dump.isSome → code = 1) ∧ o.Shows [] d w ∧
      ∀ c, Loads d.files o.rom c → o.dump = none → code = 0) ∧
    ∀ c, (∃ frames u, frames.length = o.frames ∧ Steps c frames u) ∨
      ∃ frames u e, frames.length < o.frames ∧ Steps c frames u ∧
        (stepFrame u).answer = .error e := by
  have hrefused : (∀ c, ¬Loads d.files o.rom c) → code = 1 ∧ o.Shows [] d w := by
    intro hc
    obtain ⟨e, v, hfails, hprinted⟩ := runOptions_of_refused hd hc
    rw [← shown_nil o.quiet 0] at hprinted
    exact shows_of_error hargs hd hrun hfails hprinted
  refine ⟨?_, hrefused, ?_, ?_, fun c => steps_or_fails c o.frames⟩
  · intro c frames last u hc hsteps hlength
    exact succeeds_of_steps hargs hd hrun hc hsteps hlength
  · intro c frames u e hc hsteps hlength herror
    exact fails_of_step hargs hd hrun hc hsteps hlength herror
  · intro ho
    refine ⟨runFrames_of_none ho, ?_⟩
    by_cases hload : ∃ c, Loads d.files o.rom c
    · obtain ⟨c, hc⟩ := hload
      obtain ⟨hcode, hshows⟩ := shows_of_none hargs hd hrun hc ho
      refine ⟨fun hdump => by rw [hcode, if_pos hdump], hshows, fun _ _ hdump => ?_⟩
      rw [hcode, hdump]
      rfl
    · obtain ⟨hcode, hshows⟩ := hrefused (not_exists.mp hload)
      exact ⟨fun _ => hcode, hshows, fun c hc => absurd ⟨c, hc⟩ hload⟩

/-! Two desks, with an image in the working directory. -/

def Desk.holding (image : Array UInt8) (rest : List (Place × Array UInt8)) : Desk :=
  { files := { contents := (["rom.nes", "", "tmp"], image) :: rest } }

theorem read_holding (image : Array UInt8) (rest : List (Place × Array UInt8)) :
    (Desk.holding image rest).files.read "rom.nes" = .ok image := by
  have hplain : Files.Plain "rom.nes" := ⟨by simp, by simp, by simp, by simp, by decide⟩
  have hfile : ¬(["rom.nes", "", "tmp"] = [] ∨
      ["rom.nes", "", "tmp"] ∈ ({} : Files).directories) := by
    decide
  have hdevice : Device.at? ["rom.nes", "", "tmp"] = none := by decide
  exact Files.read_of_plain hplain hfile hdevice

theorem plain_dump : Files.Plain "out.json" :=
  ⟨by simp, by simp, by simp, by simp, by decide⟩

theorem dump_not_directory : ¬(["out.json", "", "tmp"] = [] ∨
    ["out.json", "", "tmp"] ∈ ({} : Files).directories) := by
  decide

theorem read_dump_holding (image : Array UInt8) (rest : List (Place × Array UInt8)) :
    (Desk.holding image rest).files.read "out.json" =
      Files.contentsOf ((rest.lookup ["out.json", "", "tmp"]).map .file) := by
  have hdevice : Device.at? ["out.json", "", "tmp"] = none := by decide
  exact Files.read_of_plain plain_dump dump_not_directory hdevice

theorem usable_holding (image : Array UInt8) (rest : List (Place × Array UInt8)) :
    Options.Usable ⟨"rom.nes", 2, none, none, some "out.json", false⟩
      (Desk.holding image rest) := by
  refine ⟨by decide +kernel, nofun, fun path hpath => ?_⟩
  cases hpath
  refine ⟨["out.json", "", "tmp"], ?_, by decide, nofun⟩
  rw [Files.placeToWrite_eq_ok_iff]
  refine ⟨Files.leads_of_plain plain_dump _,
    Files.node?_directory_iff.not.mpr dump_not_directory, ?_⟩
  rw [ne_eq, Files.node?_device_iff]
  exact fun h => absurd h.2 (by decide)

theorem steps_of_waiting {image : Array UInt8} {k : Cartridge} {a : UInt16}
    (himage : Cartridge.ofImage image = .ok k) (hk : k.Waits a) :
    ∃ f g u, Steps (Console.insert image {}).state [f, g] u := by
  have hsound := sound_insert sound_new image
  have hcartridge := cartridge_insert (c := {}) himage
  have hoff := (powerUp_of_loads ⟨image, k, read_holding image [], himage, rfl⟩).1
  obtain ⟨b, es, hpower, hb⟩ :=
    powerUp_of_waits hk hcartridge (hsound.steady (by rw [hcartridge]; rfl))
  obtain ⟨f, u, es₁, y, l, hfirst, hu, hready⟩ := runFrame_of_waits hk hb hsound.frameReady_eq
  obtain ⟨g, z, es₂, -, -, hsecond, -⟩ := runFrame_of_waits hk hu hready
  have hstep : stepFrame (Console.insert image {}).state = ⟨.ok f, u, es ++ es₁⟩ := by
    rw [stepFrame_of_off hoff, bind_of_ok hpower, hfirst]
  exact ⟨f, g, z, .cons hstep (.cons ((stepFrame_of_powered hu.powered).trans hsecond) .nil)⟩

theorem stepFrame_of_jamming {image : Array UInt8} {k : Cartridge}
    (himage : Cartridge.ofImage image = .ok k) (hk : k.Jams) :
    ∃ e, (stepFrame (Console.insert image {}).state).answer = .error e := by
  have hoff := (powerUp_of_loads ⟨image, k, read_holding image [], himage, rfl⟩).1
  obtain ⟨b, es, hpower, hb⟩ := powerUp_of_jams hk (sound_insert sound_new image).wired
    (cartridge_insert himage)
  obtain ⟨es', hfault⟩ := hb.stepFrame
  refine ⟨.processor (.jammed 0x02 0x8000), ?_⟩
  rw [(stepFrame_of_powerUp hoff hpower hb.powered).1, hfault]

/-- Two frames of a program that waits are shown and the second is written. One that locks the
processor up shows none, and the dump that is there already stays as it is. -/
theorem runner_follows_steps_of_waiting :
    ∃ (waiting jamming : Array UInt8) (w v : Desk) (f g : Frame),
      let args := ["--frames=2", "--dump=out.json", "rom.nes"]
      (runCommandLine standard args : StateM Desk UInt32) (.holding waiting []) = (0, w) ∧
        w.output = frameLines 0 [f, g] ∧
        w.files.read "out.json" = .ok (Frame.codec.encode g).toUTF8.data ∧
      (runCommandLine standard args : StateM Desk UInt32)
          (.holding jamming [(["out.json", "", "tmp"], #[1, 2, 3])]) = (1, v) ∧
        v.output = "" ∧ v.files.read "out.json" = .ok #[1, 2, 3] := by
  have hargs : standard.command ["--frames=2", "--dump=out.json", "rom.nes"] =
      .run ⟨"rom.nes", 2, none, none, some "out.json", false⟩ := by
    decide +kernel
  obtain ⟨waiting, k, a, hwaiting, hk⟩ := Cartridge.exists_waits
  obtain ⟨f, g, u, hsteps⟩ := steps_of_waiting hwaiting hk
  obtain ⟨jamming, k', hjamming, hk'⟩ := Cartridge.exists_jams
  obtain ⟨e, herror⟩ := stepFrame_of_jamming hjamming hk'
  rcases hrun : (runCommandLine standard ["--frames=2", "--dump=out.json", "rom.nes"] :
    StateM Desk UInt32) (.holding waiting []) with ⟨code, w⟩
  rcases hrun' : (runCommandLine standard ["--frames=2", "--dump=out.json", "rom.nes"] :
    StateM Desk UInt32) (.holding jamming [(["out.json", "", "tmp"], #[1, 2, 3])]) with ⟨code', v⟩
  obtain ⟨hall, -⟩ := runner_follows_steps hargs (usable_holding _ _) hrun
  obtain ⟨-, -, hsome, -⟩ := runner_follows_steps hargs (usable_holding _ _) hrun'
  obtain ⟨rfl, houtput, hdump⟩ :=
    hall _ [f] g u ⟨waiting, k, read_holding _ _, hwaiting, rfl⟩ hsteps rfl
  obtain ⟨rfl, hshows⟩ := hsome _ [] _ e ⟨jamming, k', read_holding _ _, hjamming, rfl⟩ .nil
    (by decide) herror
  refine ⟨waiting, jamming, w, v, f, g, hrun, houtput, hdump "out.json" rfl, hrun', ?_, ?_⟩
  · exact hshows.output_eq
  · exact (hshows.read_eq "out.json" rfl).trans (read_dump_holding _ _)

end Headless

end Famicom
