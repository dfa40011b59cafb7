import Famicom.Headless.Run
import Famicom.Headless.Desk
import Famicom.Proofs.Headless.Files
import Famicom.Proofs.Log.Request

/-! What the headless runner does to a desk while it logs: nothing is printed, and at most the file
of the log is written. -/

namespace Famicom

namespace Headless

open Famicom.Log

variable {α β : Type} {place? : Option Place} {log : Log} {d v w : Desk} {path text : String}

theorem bind_of_eq {x : StateM Desk α} {f : α → StateM Desk β} {a : α} (h : x d = (a, v)) :
    (x >>= f) d = f a v := by
  change StateT.bind x f d = _
  unfold StateT.bind
  rw [h]
  rfl

/-- The place of the file that log lines are sent to. -/
def sinkPlace? (fs : Files) : Sink → Option Place
  | .standardError => none
  | .file path => (fs.placeToWrite path).toOption

/-- The text has been printed, and no file has been written but perhaps the one at a place. -/
structure Desk.Printed (place? : Option Place) (text : String) (d w : Desk) : Prop where
  output_eq : w.output = d.output ++ text
  files : Files.Keeps place? d.files w.files

/-- Log lines go to a place that does not pass them on to where the runner prints. -/
structure Desk.Logs (place? : Option Place) (log : Log) (d : Desk) : Prop where
  place_eq : sinkPlace? d.files log.sink = place?
  device_ne : ∀ p, place? = some p → Device.at? p ≠ some .output

namespace Desk

theorem Printed.refl (d : Desk) : Printed place? "" d d :=
  ⟨(String.append_empty).symm, .refl d.files⟩

theorem Printed.trans {more : String} (h : Printed place? text d v)
    (h' : Printed place? more v w) : Printed place? (text ++ more) d w := by
  refine ⟨?_, h.files.trans h'.files⟩
  rw [h'.output_eq, h.output_eq, String.append_assoc]

/-- What goes before a text without anything printed can be left out. -/
theorem Printed.after (h : Printed place? "" d v) (h' : Printed place? text v w) :
    Printed place? text d w := by
  have htrans := h.trans h'
  rwa [String.empty_append] at htrans

theorem sinkPlace?_of_printed (h : Printed place? text d w) (sink : Sink) :
    sinkPlace? w.files sink = sinkPlace? d.files sink := by
  cases sink with
  | standardError => rfl
  | file path => exact h.files.toSameTree.toOption_placeToWrite

theorem Logs.after (h : Logs place? log d) (hw : Printed place? text d w) :
    Logs place? log w :=
  ⟨(sinkPlace?_of_printed hw log.sink).trans h.place_eq, h.device_ne⟩

theorem Logs.congr {after : Log} (h : Logs place? log d) (hsink : after.sink = log.sink) :
    Logs place? after d :=
  ⟨by rw [hsink]; exact h.place_eq, h.device_ne⟩

theorem onFiles_of_eq {x : StateM Files α} {a : α} {fs : Files} (h : x d.files = (a, fs)) :
    onFiles x d = (a, { d with files := fs }) := by
  unfold onFiles
  dsimp only
  rw [h]

theorem write_of_error {e : FileFault} {fresh : Bool} (h : d.files.placeToWrite path = .error e) :
    write path text fresh d = (.error (.creating e), d) := by
  unfold write
  rw [bind_of_eq (onFiles_of_eq (Files.openToWrite_of_error h))]
  rfl

theorem write_of_ok {p : Place} {fresh : Bool} (h : d.files.placeToWrite path = .ok p) :
    write path text fresh d =
      (let opened := d.files.change p fun bytes => if fresh then #[] else bytes
       match deliver p text { d with files := opened } with
       | (answer, w) => (answer.mapError .writing, w)) := by
  unfold write
  rw [bind_of_eq (onFiles_of_eq (Files.openToWrite_of_ok h))]
  rfl

theorem logToFile_of_error {e : FileFault} (h : d.files.placeToWrite path = .error e) :
    (logToFile log path : StateM Desk _) d = (.error e, d) := by
  have hopen : (Host.openLog path : StateM Desk _) d = (.error e, d) :=
    bind_of_eq (onFiles_of_eq (Files.openToWrite_of_error h))
  unfold logToFile
  rw [bind_of_eq hopen]
  rfl

/-- A file that can be opened is there from then on, even if its writer does not start. -/
theorem logToFile_of_ok {p : Place} (h : d.files.placeToWrite path = .ok p) :
    (logToFile log path : StateM Desk _) d =
      ((d.threads d.starts).map fun _ => log.setSink (.file path),
        { d with
          files := d.files.change p fun bytes => bytes
          starts := d.starts + 1 }) := by
  have hopen : (Host.openLog path : StateM Desk _) d =
      (.ok (), { d with files := d.files.change p fun bytes => bytes }) :=
    bind_of_eq (onFiles_of_eq (Files.openToWrite_of_ok h))
  have hstart : (Host.startWriter : StateM Desk _)
      { d with files := d.files.change p fun bytes => bytes } = (d.threads d.starts, { d with
        files := d.files.change p fun bytes => bytes
        starts := d.starts + 1 }) := rfl
  unfold logToFile
  rw [bind_of_eq hopen]
  dsimp only
  rw [bind_of_eq hstart]
  cases d.threads d.starts <;> rfl

/-- Text for the end of a file is not printed, unless the file is what the runner prints to. -/
theorem printed_write (hplace : (d.files.placeToWrite path).toOption = place?)
    (hdevice : ∀ p, place? = some p → Device.at? p ≠ some .output) :
    Printed place? "" d (write path text false d).2 := by
  rcases h : d.files.placeToWrite path with e | p
  · rw [write_of_error h]
    exact .refl d
  rw [h] at hplace
  subst hplace
  have hwritable := (Files.placeToWrite_eq_ok_iff.mp h).2
  -- the file is opened first, which already makes it be there
  have hopened := Files.keeps_change hwritable fun bytes => bytes
  rw [write_of_ok h]
  dsimp only [Bool.false_eq_true, if_false]
  unfold deliver
  rcases hd : Device.at? p with _ | device
  · have hwritable' := hopened.toSameTree.writable hwritable
    exact ⟨String.append_empty.symm, hopened.trans (Files.keeps_change hwritable' _)⟩
  -- a device keeps nothing, and all but one take the text away from what is printed
  · cases device with
    | output => exact absurd hd (hdevice p rfl)
    | _ => exact ⟨String.append_empty.symm, hopened⟩

theorem Logs.put (h : Logs place? log d) (text : String) :
    Printed place? "" d (Desk.put log.sink text d).2 := by
  have hplace := h.place_eq
  cases hsink : log.sink with
  | standardError => exact ⟨String.append_empty.symm, .refl d.files⟩
  | file path =>
    rw [hsink] at hplace
    exact printed_write hplace h.device_ne

theorem Logs.line (h : Logs place? log d) {line : Line} (hline : line.sink = log.sink) :
    Printed place? "" d ((System.emit line : StateM Desk Unit) d).2 := by
  have htext := h.put line.text
  have hend := (h.after htext).put "\n"
  rw [← hline] at htext hend
  exact htext.after hend

theorem Logs.lines (h : Logs place? log d) {lines : List Line}
    (hlines : ∀ line ∈ lines, line.sink = log.sink) :
    Printed place? "" d ((lines.forM System.emit : StateM Desk Unit) d).2 := by
  -- the place of the log is looked up anew for every line, and found where it was
  induction lines generalizing d with
  | nil => exact .refl d
  | cons line lines ih =>
    have hfirst := h.line (hlines line List.mem_cons_self)
    have hrest := ih (h.after hfirst) fun l hl => hlines l (List.mem_cons_of_mem line hl)
    exact hfirst.after hrest

/-- Reading the clock prints nothing. -/
theorem printed_now (place? : Option Place) (d : Desk) :
    Printed place? "" d { d with readings := d.readings + 1 } :=
  ⟨String.append_empty.symm, .refl d.files⟩

theorem Logs.record (h : Logs place? log d) (e : Event) : ∃ after w,
    (log.record e : StateM Desk Log) d = (after, w) ∧ Logs place? after w ∧
      Printed place? "" d w := by
  have hrun : (log.record e : StateM Desk Log) =
      (Request.write e.category e.level e.message).run pure log := rfl
  rw [hrun]
  cases henabled : (Request.write e.category e.level e.message).enables log with
  | false =>
    rw [run_of_disabled 0 henabled]
    exact ⟨_, d, rfl, h.congr (sink_next _ log), .refl d⟩
  | true =>
    rw [run_of_enabled henabled]
    have hprinted := printed_now place? d
    have hlines := (h.after hprinted).lines
      (sink_lines (d.clock d.readings) (.write e.category e.level e.message) log)
    exact ⟨_, _, rfl, ((h.after hprinted).after hlines).congr (sink_next _ log),
      hprinted.after hlines⟩

/-- Whatever a device reports, it is only logged. -/
theorem Logs.events (h : Logs place? log d) (es : List Event) : ∃ after w,
    (log.recordAll es : StateM Desk Log) d = (after, w) ∧ Logs place? after w ∧
      Printed place? "" d w := by
  induction es generalizing log d with
  | nil => exact ⟨log, d, rfl, h, .refl d⟩
  | cons e es ih =>
    obtain ⟨after, v, hrecord, hlogs, hprinted⟩ := h.record e
    obtain ⟨after', w, hrest, hlogs', hprinted'⟩ := ih hlogs
    refine ⟨after', w, ?_, hlogs', hprinted.after hprinted'⟩
    rw [← hrest]
    exact bind_of_eq hrecord

/-- An operation of the console does nothing to the desk but log. -/
theorem Logs.perform (h : Logs place? log d) {x : Action Console.Fault Console α}
    {c u : Console} {answer : Except Console.Fault α} {es : List Event}
    (hx : x c = ⟨answer, u, es⟩) : ∃ after w,
      (perform x log c : StateM Desk _) d = ((answer, after, u), w) ∧ Logs place? after w ∧
        Printed place? "" d w := by
  obtain ⟨after, w, hevents, hlogs, hprinted⟩ := h.events es
  refine ⟨after, w, ?_, hlogs, hprinted⟩
  unfold Headless.perform
  rw [hx]
  dsimp only
  rw [bind_of_eq hevents]
  rfl

end Desk

end Headless

end Famicom
