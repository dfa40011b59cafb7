import Famicom.Proofs.Headless.Outlets

/-! Where log lines end up. The sink of a log is changed between messages, and each file has a
writer of its own, which takes the lines that were sent to it one by one, writes each in two pieces
and may be late. Each line is written exactly once, where the sink of its time leads. -/

namespace Famicom.Headless

open Famicom.Log

/-- What can be asked of a log and its sink. -/
inductive Call
  | request (r : Log.Request String)
  | setFile (path : String)
  | clearFile

/-- A line and the period in which it was emitted. -/
structure Emission where
  period : Nat
  line : Line
deriving DecidableEq

/-- A piece of a line on its way to a sink. -/
structure Piece where
  period : Nat
  sink : Sink
  text : String
deriving DecidableEq

def Emission.pieces (e : Emission) : List Piece :=
  e.line.pieces.map fun text => ⟨e.period, e.line.sink, text⟩

/-- A log whose lines are written piece by piece. A new period begins whenever the sink is set, and
has a channel and a writer of its own. -/
structure Office where
  log : Log
  desk : Desk
  period : Nat := 0
  /-- The pieces of each period that are still to be written. -/
  channel : Nat → List Piece := fun _ => []
  /-- All lines that have been emitted, and all pieces that have been written. -/
  sent : List Emission := []
  written : List Piece := []

namespace Office

def send (o : Office) (line : Line) : Office :=
  let e : Emission := ⟨o.period, line⟩
  { o with
    sent := o.sent ++ [e]
    channel := Function.update o.channel o.period (o.channel o.period ++ e.pieces) }

/-- The clock is that of the desk, and a line is sent to the writer of the period. -/
instance : Log.System (StateM Office) where
  now := fun o =>
    match (System.now : StateM Desk Nat) o.desk with
    | (now, desk) => (now, { o with desk })
  emit line := modify (·.send line)

/-- The next piece of a period is written, if there is one. -/
def deliver (o : Office) (period : Nat) : Office :=
  match o.channel period with
  | [] => o
  | piece :: rest =>
    { o with
      desk := (Desk.put piece.sink piece.text o.desk).2
      channel := Function.update o.channel period rest
      written := o.written ++ [piece] }

/-- All pieces of a period are written. -/
def drain (o : Office) (period : Nat) : Office :=
  (fun o => deliver o period)^[(o.channel period).length] o

/-- Standard error has no writer: who logs does nothing else before its lines are written. -/
def ready (o : Office) : Office := if o.log.sink = .standardError then o.drain o.period else o

def serve (o : Office) : Call → Office
  | .request r =>
    match (r.run pure o.log : StateM Office Log) o with
    | (log, o) => { o with log }
  | .setFile path =>
    match (logToFile o.log path : StateM Desk _) o.desk with
    | (.ok log, desk) => { o with log, desk, period := o.period + 1 }
    | (.error _, desk) => { o with desk }
  | .clearFile => { o with log := o.log.setSink .standardError, period := o.period + 1 }

def call (o : Office) (c : Call) : Office := o.ready.serve c

inductive Step
  | call (c : Call)
  | deliver (period : Nat)

def Step.call? : Step → Option Call
  | call c => some c
  | deliver _ => none

def step (o : Office) : Step → Office
  | .call c => o.call c
  | .deliver period => o.deliver period

/-- The office after the steps of a past, the last step first. Calls and writers take turns in any
order. -/
def after (start : Office) : List Step → Office
  | [] => start
  | s :: past => (after start past).step s

end Office

/-! What the calls alone say. -/

/-- Whether a call opens a file. -/
def Call.opens (files : Files) : Call → Bool
  | setFile path => (files.placeToWrite path).isOk
  | _ => false

/-- The sink that a call sets after others. A file that cannot be opened sets none, nor does one
whose writer does not start. -/
def Call.sink? (d : Desk) (past : List Call) : Call → Option Sink
  | request _ => none
  | setFile path =>
    if (d.files.placeToWrite path).isOk ∧
        (d.threads (d.starts + past.countP (·.opens d.files))).isOk then some (.file path)
    else none
  | clearFile => some .standardError

/-- The sinks of the periods after the calls of a past, the last one first. -/
def sinks (start : Log) (d : Desk) : List Call → List Sink
  | [] => [start.sink]
  | c :: past => (c.sink? d past).toList ++ sinks start d past

/-- A line is kept with an end of line after it. -/
def Emission.bytes (e : Emission) : List UInt8 := (e.line.text ++ "\n").toUTF8.data.toList

def Piece.bytes (p : Piece) : List UInt8 := p.text.toUTF8.data.toList

/-- Whether a piece goes to an outlet. -/
def Piece.leads (files : Files) (outlet : Outlet) (p : Piece) : Bool :=
  outlet? files p.sink = some outlet

/-- What an outlet keeps of the pieces that are written in this order. -/
def kept (files : Files) (outlet : Outlet) (written : List Piece) : List UInt8 :=
  (written.filter (·.leads files outlet)).flatMap Piece.bytes

/-- The pieces for an outlet that are still to be written. -/
def Office.waiting (o : Office) (files : Files) (outlet : Outlet) : List Piece :=
  (List.range (o.period + 1)).flatMap fun k => (o.channel k).filter (·.leads files outlet)

/-- No writer is overtaken: whenever a period begins that leads to an outlet, nothing is still to be
written there. -/
def Office.Apart (files : Files) (outlet : Outlet) (start : Office) : List Step → Prop
  | [] => True
  | s :: past =>
    Apart files outlet start past ∧
      (let o := after start (s :: past)
       (after start past).period < o.period → outlet? files o.log.sink = some outlet →
        o.waiting files outlet = [])

/-! One step. -/

namespace Office

variable {files : Files} {d : Desk} {o : Office} {outlet : Outlet} {path : String} {k : Nat}

/-- What an office has done with the lines that were sent since the desk was as given: those that
are not written wait in their channels, and in each period the order is kept. -/
structure Delivers (d : Desk) (o : Office) : Prop where
  tree : Files.SameTree d.files o.desk.files
  order (k : Nat) : (o.sent.flatMap Emission.pieces).filter (·.period = k) =
    o.written.filter (·.period = k) ++ o.channel k
  bytes (outlet : Outlet) : o.desk.bytes outlet = d.bytes outlet ++ kept d.files outlet o.written
  idle (k : Nat) (h : o.period < k) : o.channel k = []

theorem kept_concat (files : Files) (outlet : Outlet) (written : List Piece) (p : Piece) :
    kept files outlet (written ++ [p]) = kept files outlet written ++
      if outlet? files p.sink = some outlet then p.bytes else [] := by
  unfold kept
  rw [List.filter_append, List.flatMap_append]
  by_cases h : outlet? files p.sink = some outlet
  · simp [h, Piece.leads]
  · simp [h, Piece.leads]

theorem period_of_mem_pieces {e : Emission} {p : Piece} (hp : p ∈ e.pieces) :
    p.period = e.period ∧ p.sink = e.line.sink := by
  obtain ⟨text, -, rfl⟩ := List.mem_map.mp hp
  exact ⟨rfl, rfl⟩

theorem filter_pieces (e : Emission) (k : Nat) :
    e.pieces.filter (·.period = k) = if e.period = k then e.pieces else [] := by
  split
  next h =>
    rw [List.filter_eq_self]
    intro p hp
    simpa [h] using (period_of_mem_pieces hp).1
  next h =>
    rw [List.filter_eq_nil_iff]
    intro p hp
    simpa [(period_of_mem_pieces hp).1] using h

/-! A line is put at the end of the channel of its period. -/

theorem channel_send_self (o : Office) (line : Line) :
    (o.send line).channel o.period = o.channel o.period ++ Emission.pieces ⟨o.period, line⟩ :=
  Function.update_self ..

theorem channel_send_of_ne (hk : k ≠ o.period) (line : Line) :
    (o.send line).channel k = o.channel k :=
  Function.update_of_ne hk _ _

theorem Delivers.send (h : o.Delivers d) (line : Line) : (o.send line).Delivers d := by
  refine ⟨h.tree, fun k => ?_, h.bytes, fun k hk => ?_⟩
  · have hpieces := filter_pieces ⟨o.period, line⟩ k
    change ((o.sent ++ [_]).flatMap Emission.pieces).filter _ = o.written.filter _ ++ _
    rw [List.flatMap_append, List.filter_append, h.order, List.flatMap_singleton, hpieces,
      List.append_assoc]
    -- only the channel of the period is longer than it was
    by_cases hk : k = o.period
    · rw [hk, if_pos rfl, channel_send_self]
    · rw [if_neg (Ne.symm hk), channel_send_of_ne hk, List.append_nil]
  · have hne : k ≠ o.period := Nat.ne_of_gt hk
    rw [channel_send_of_ne hne]
    exact h.idle k hk

/-! The first piece of a channel is taken from it. -/

theorem deliver_of_nil (h : o.channel k = []) : o.deliver k = o := by
  unfold Office.deliver
  rw [h]

theorem deliver_of_cons {p : Piece} {rest : List Piece} (h : o.channel k = p :: rest) :
    o.deliver k = { o with
      desk := (Desk.put p.sink p.text o.desk).2
      channel := Function.update o.channel k rest
      written := o.written ++ [p] } := by
  unfold Office.deliver
  rw [h]

theorem channel_deliver_self {p : Piece} {rest : List Piece} (h : o.channel k = p :: rest) :
    (o.deliver k).channel k = rest := by
  rw [deliver_of_cons h]
  exact Function.update_self ..

theorem channel_deliver_of_ne {j : Nat} (hj : j ≠ k) :
    (o.deliver k).channel j = o.channel j := by
  cases hchannel : o.channel k with
  | nil => rw [deliver_of_nil hchannel]
  | cons p rest =>
    rw [deliver_of_cons hchannel]
    exact Function.update_of_ne hj _ _

/-- A piece waits in the channel of its period. -/
theorem Delivers.period_of_mem (h : o.Delivers d) {p : Piece} (hp : p ∈ o.channel k) :
    p.period = k := by
  have hmem : p ∈ (o.sent.flatMap Emission.pieces).filter (·.period = k) := by
    rw [h.order]
    exact List.mem_append_right _ hp
  simpa using (List.mem_filter.mp hmem).2

theorem Delivers.deliver (h : o.Delivers d) (k : Nat) : (o.deliver k).Delivers d := by
  cases hchannel : o.channel k with
  | nil => rwa [deliver_of_nil hchannel]
  | cons p rest =>
    have hp : p.period = k := h.period_of_mem (by rw [hchannel]; exact List.mem_cons_self)
    rw [deliver_of_cons hchannel]
    refine ⟨h.tree.trans (sameSystem_put p.sink p.text o.desk).tree, fun j => ?_, fun outlet => ?_,
      fun j hj => ?_⟩
    · dsimp only
      rw [List.filter_append, h.order]
      by_cases hj : j = k
      · subst hj
        simp [hchannel, hp]
      · simp [hj, hp, Ne.symm hj]
    · dsimp only
      rw [bytes_put, h.bytes, outlet?_of_sameTree h.tree, kept_concat, List.append_assoc]
      rfl
    · have hempty := h.idle j hj
      have hne : j ≠ k := by
        rintro rfl
        rw [hempty] at hchannel
        cases hchannel
      dsimp only
      rw [Function.update_of_ne hne, hempty]

theorem Delivers.iterate (h : o.Delivers d) (k n : Nat) :
    ((fun o => Office.deliver o k)^[n] o).Delivers d := by
  induction n generalizing o with
  | zero => exact h
  | succ n ih => exact ih (h.deliver k)

/-- A new period starts with nothing sent. -/
theorem Delivers.begin (h : o.Delivers d) {log : Log} {desk : Desk}
    (htree : Files.SameTree o.desk.files desk.files)
    (hbytes : ∀ outlet, desk.bytes outlet = o.desk.bytes outlet) :
    Delivers d { o with log, desk, period := o.period + 1 } where
  tree := h.tree.trans htree
  order := h.order
  bytes outlet := (hbytes outlet).trans (h.bytes outlet)
  idle k hk := h.idle k (Nat.lt_of_succ_lt hk)

/-! Whole lines. -/

/-- The pieces for an outlet have been written in the order of their emission, and those that are
still to be written are of one period. -/
structure Whole (files : Files) (outlet : Outlet) (o : Office) : Prop where
  lines : (o.sent.flatMap Emission.pieces).filter (·.leads files outlet) =
    o.written.filter (·.leads files outlet) ++ o.waiting files outlet
  one (i j : Nat) (hij : i ≠ j) (hi : (o.channel i).filter (·.leads files outlet) ≠ []) :
    (o.channel j).filter (·.leads files outlet) = []
  current (hsink : outlet? files o.log.sink = some outlet) (j : Nat) (hj : j ≠ o.period) :
    (o.channel j).filter (·.leads files outlet) = []

theorem flatMap_range_of_single {α : Type} {f : Nat → List α} {n j : Nat} (hj : j < n)
    (h : ∀ i, i ≠ j → f i = []) : (List.range n).flatMap f = f j := by
  induction n with
  | zero => cases hj
  | succ n ih =>
    rw [List.range_succ, List.flatMap_append, List.flatMap_singleton]
    rcases Nat.lt_succ_iff_lt_or_eq.mp hj with hlt | rfl
    · rw [ih hlt, h n (Nat.ne_of_gt hlt), List.append_nil]
    · have hnone : (List.range j).flatMap f = [] := by
        rw [List.flatMap_eq_nil_iff]
        exact fun i hi => h i (Nat.ne_of_lt (List.mem_range.mp hi))
      rw [hnone, List.nil_append]

theorem waiting_send (o : Office) (line : Line) : (o.send line).waiting files outlet =
    o.waiting files outlet ++
      (Emission.pieces ⟨o.period, line⟩).filter (·.leads files outlet) := by
  have hrange : ((List.range o.period).flatMap fun k =>
      ((o.send line).channel k).filter (·.leads files outlet)) =
      (List.range o.period).flatMap fun k => (o.channel k).filter (·.leads files outlet) :=
    List.flatMap_congr fun k hk => by
      rw [channel_send_of_ne (Nat.ne_of_lt (List.mem_range.mp hk))]
  unfold waiting
  change (List.range (o.period + 1)).flatMap _ = _
  rw [List.range_succ, List.flatMap_append, List.flatMap_append, hrange, List.flatMap_singleton,
    List.flatMap_singleton, channel_send_self, List.filter_append, List.append_assoc]

theorem filter_leads_pieces (files : Files) (outlet : Outlet) (e : Emission) :
    e.pieces.filter (·.leads files outlet) =
      if outlet? files e.line.sink = some outlet then e.pieces else [] := by
  split
  next h =>
    rw [List.filter_eq_self]
    intro p hp
    simpa [Piece.leads, (period_of_mem_pieces hp).2] using h
  next h =>
    rw [List.filter_eq_nil_iff]
    intro p hp
    simpa [Piece.leads, (period_of_mem_pieces hp).2] using h

/-- Pieces wait only in the channels of the periods that have begun. -/
theorem lt_of_channel_ne_nil (hidle : ∀ k, o.period < k → o.channel k = [])
    (hk : o.channel k ≠ []) : k < o.period + 1 := by
  by_contra hge
  exact hk (hidle k (by omega))

theorem Whole.send (h : o.Whole files outlet) {line : Line} (hline : line.sink = o.log.sink) :
    (o.send line).Whole files outlet := by
  have hpieces := filter_leads_pieces files outlet ⟨o.period, line⟩
  dsimp only at hpieces
  rw [hline] at hpieces
  refine ⟨?_, ?_, fun hsink j hj => ?_⟩
  · rw [waiting_send]
    change ((o.sent ++ [_]).flatMap Emission.pieces).filter _ = o.written.filter _ ++ _
    rw [List.flatMap_append, List.filter_append, h.lines, List.flatMap_singleton,
      List.append_assoc]
  · intro i j hij hi
    by_cases hsink : outlet? files o.log.sink = some outlet
    · -- all channels but that of the period have nothing for the outlet
      by_cases hj : j = o.period
      · have hne : i ≠ o.period := hj ▸ hij
        rw [channel_send_of_ne hne, h.current hsink i hne] at hi
        exact absurd rfl hi
      · rw [channel_send_of_ne hj]
        exact h.current hsink j hj
    · -- what is sent is not for the outlet
      have hall : ∀ j, ((o.send line).channel j).filter (·.leads files outlet) =
          (o.channel j).filter (·.leads files outlet) := by
        intro j
        by_cases hj : j = o.period
        · rw [hj, channel_send_self, List.filter_append, hpieces, if_neg hsink, List.append_nil]
        · rw [channel_send_of_ne hj]
      rw [hall] at hi ⊢
      exact h.one i j hij hi
  · have hne : j ≠ o.period := hj
    rw [channel_send_of_ne hne]
    exact h.current hsink j hne

/-- A channel that has nothing for an outlet has nothing for it later. -/
theorem filter_channel_deliver {j : Nat} (h : (o.channel j).filter (·.leads files outlet) = [])
    (k : Nat) : ((o.deliver k).channel j).filter (·.leads files outlet) = [] := by
  by_cases hjk : j = k
  · subst hjk
    cases hchannel : o.channel j with
    | nil => rwa [deliver_of_nil hchannel]
    | cons p rest =>
      rw [hchannel, List.filter_eq_nil_iff] at h
      rw [channel_deliver_self hchannel, List.filter_eq_nil_iff]
      exact fun q hq => h q (List.mem_cons_of_mem p hq)
  · rwa [channel_deliver_of_ne hjk]

/-- The piece that is written is the first one of those that wait, if it is for the outlet. -/
theorem Whole.waiting_deliver (h : o.Whole files outlet)
    (hidle : ∀ k, o.period < k → o.channel k = []) {p : Piece} {rest : List Piece}
    (hchannel : o.channel k = p :: rest) : o.waiting files outlet =
      [p].filter (·.leads files outlet) ++ (o.deliver k).waiting files outlet := by
  have hperiod : (o.deliver k).period = o.period := by rw [deliver_of_cons hchannel]
  by_cases hp : p.leads files outlet
  · -- all that waits for the outlet is in this channel
    have hfirst : (o.channel k).filter (·.leads files outlet) =
        p :: rest.filter (·.leads files outlet) := by
      rw [hchannel, List.filter_cons_of_pos hp]
    have hothers : ∀ j, j ≠ k → (o.channel j).filter (·.leads files outlet) = [] :=
      fun j hj => h.one k j (Ne.symm hj) (by rw [hfirst]; exact List.cons_ne_nil _ _)
    have hlt : k < o.period + 1 :=
      lt_of_channel_ne_nil hidle (by rw [hchannel]; exact List.cons_ne_nil _ _)
    have hbefore : o.waiting files outlet = p :: rest.filter (·.leads files outlet) :=
      (flatMap_range_of_single hlt hothers).trans hfirst
    have hafter : (o.deliver k).waiting files outlet = rest.filter (·.leads files outlet) := by
      unfold waiting
      rw [hperiod, flatMap_range_of_single hlt fun j hj => filter_channel_deliver (hothers j hj) k,
        channel_deliver_self hchannel]
    rw [hbefore, hafter, List.filter_cons_of_pos hp]
    rfl
  · -- no channel has less for the outlet than before
    have hall : ∀ j, ((o.deliver k).channel j).filter (·.leads files outlet) =
        (o.channel j).filter (·.leads files outlet) := by
      intro j
      by_cases hj : j = k
      · rw [hj, channel_deliver_self hchannel, hchannel, List.filter_cons_of_neg hp]
      · rw [channel_deliver_of_ne hj]
    simp only [waiting, hperiod, hall, List.filter_cons_of_neg hp, List.filter_nil,
      List.nil_append]

theorem Whole.deliver (h : o.Whole files outlet) (hidle : ∀ k, o.period < k → o.channel k = [])
    (k : Nat) : (o.deliver k).Whole files outlet := by
  cases hchannel : o.channel k with
  | nil => rwa [deliver_of_nil hchannel]
  | cons p rest =>
    refine ⟨?_, fun i j hij hi => ?_, fun hsink j hj => ?_⟩
    · have hwaiting := h.waiting_deliver hidle hchannel
      rw [deliver_of_cons hchannel] at hwaiting ⊢
      dsimp only
      rw [h.lines, hwaiting, List.filter_append, List.append_assoc]
    · have hbefore : (o.channel i).filter (·.leads files outlet) ≠ [] :=
        fun hnil => hi (filter_channel_deliver hnil k)
      exact filter_channel_deliver (h.one i j hij hbefore) k
    · rw [deliver_of_cons hchannel] at hsink hj
      exact filter_channel_deliver (h.current hsink j hj) k

theorem Whole.iterate (h : o.Whole files outlet) (hd : o.Delivers d) (k n : Nat) :
    ((fun o => Office.deliver o k)^[n] o).Whole files outlet := by
  induction n generalizing o with
  | zero => exact h
  | succ n ih => exact ih (h.deliver hd.idle k) (hd.deliver k)

/-- A new period is told apart if nothing is still to be written where it leads. -/
theorem Whole.begin (h : o.Whole files outlet) (hidle : ∀ k, o.period < k → o.channel k = [])
    {log : Log} {desk : Desk} (hnone : outlet? files log.sink = some outlet →
      Office.waiting { o with log, desk, period := o.period + 1 } files outlet = []) :
    Whole files outlet { o with log, desk, period := o.period + 1 } where
  lines := by
    have hwaiting : Office.waiting { o with log, desk, period := o.period + 1 } files outlet =
        o.waiting files outlet := by
      unfold waiting
      dsimp only
      rw [List.range_succ, List.flatMap_append, List.flatMap_singleton,
        hidle (o.period + 1) (Nat.lt_succ_self _), List.filter_nil, List.append_nil]
    rw [hwaiting]
    exact h.lines
  one := h.one
  current hsink j _ := by
    rcases Nat.lt_or_ge o.period j with hj | hj
    · dsimp only
      rw [hidle j hj, List.filter_nil]
    · have hempty := List.flatMap_eq_nil_iff.mp (hnone hsink) j
      exact hempty (List.mem_range.mpr (by dsimp only; omega))

/-! Calls. -/

theorem forM_emit (lines : List Line) (o : Office) :
    (lines.forM System.emit : StateM Office Unit) o = ((), lines.foldl send o) := by
  induction lines generalizing o with
  | nil => rfl
  | cons line lines ih => exact ih (o.send line)

theorem serve_request_of_run {r : Log.Request String} {log : Log} {w : Office}
    (h : (r.run pure o.log : StateM Office Log) o = (log, w)) :
    o.serve (.request r) = { w with log } := by
  unfold serve
  dsimp only
  rw [h]

/-- The desk after the clock has been read for a request, which it is if a message is enabled. -/
def readFor (r : Log.Request String) (log : Log) (d : Desk) : Desk :=
  { d with readings := d.readings + if r.enables log then 1 else 0 }

/-- A request is served with the log that it leaves and with its lines sent. -/
theorem serve_request (o : Office) (r : Log.Request String) :
    o.serve (.request r) =
      let now := o.desk.clock o.desk.readings
      { (r.lines now o.log).foldl send { o with desk := readFor r o.log o.desk } with
        log := r.next now o.log } := by
  cases h : r.enables o.log with
  | false =>
    have hrun : (r.run pure o.log : StateM Office Log) o =
        (r.next (o.desk.clock o.desk.readings) o.log, o) := by
      rw [run_of_disabled _ h]
      rfl
    rw [serve_request_of_run hrun]
    simp [lines_of_disabled h, readFor, h]
  | true =>
    have hrun : (r.run pure o.log : StateM Office Log) o =
        (r.next (o.desk.clock o.desk.readings) o.log,
          (r.lines (o.desk.clock o.desk.readings) o.log).foldl send
            { o with desk := { o.desk with readings := o.desk.readings + 1 } }) := by
      rw [run_of_enabled h]
      have hemit := forM_emit (r.lines (o.desk.clock o.desk.readings) o.log)
        { o with desk := { o.desk with readings := o.desk.readings + 1 } }
      exact congrArg (fun answer => (r.next (o.desk.clock o.desk.readings) o.log, answer.2)) hemit
    rw [serve_request_of_run hrun]
    simp [readFor, h]

theorem serve_setFile_of_error {e : FileFault} (h : o.desk.files.placeToWrite path = .error e) :
    o.serve (.setFile path) = o := by
  unfold serve
  dsimp only
  rw [Desk.logToFile_of_error h]

theorem serve_setFile_of_ok {place : Place} (h : o.desk.files.placeToWrite path = .ok place) :
    let desk : Desk := { o.desk with
      files := o.desk.files.change place fun bytes => bytes
      starts := o.desk.starts + 1 }
    o.serve (.setFile path) =
      match o.desk.threads o.desk.starts with
      | .ok () => { o with log := o.log.setSink (.file path), desk, period := o.period + 1 }
      | .error _ => { o with desk } := by
  unfold serve
  dsimp only
  rw [Desk.logToFile_of_ok h]
  cases o.desk.threads o.desk.starts <;> rfl

/-- Sending lines does nothing but send them. -/
theorem exists_foldl_send (lines : List Line) (o : Office) : ∃ channel,
    lines.foldl send o =
      { o with sent := o.sent ++ lines.map (⟨o.period, ·⟩), channel } := by
  induction lines generalizing o with
  | nil => exact ⟨o.channel, by simp⟩
  | cons line lines ih =>
    obtain ⟨channel, h⟩ := ih (o.send line)
    refine ⟨channel, ?_⟩
    rw [List.foldl_cons, h]
    simp [send]

theorem Delivers.sends (h : o.Delivers d) (lines : List Line) :
    (lines.foldl Office.send o).Delivers d := by
  induction lines generalizing o with
  | nil => exact h
  | cons line lines ih => exact ih (h.send line)

theorem Whole.sends (h : o.Whole files outlet) {lines : List Line}
    (hlines : ∀ line ∈ lines, line.sink = o.log.sink) :
    (lines.foldl Office.send o).Whole files outlet := by
  induction lines generalizing o with
  | nil => exact h
  | cons line lines ih =>
    exact ih (h.send (hlines line List.mem_cons_self))
      fun l hl => hlines l (List.mem_cons_of_mem line hl)

/-- Writing pieces changes the desk only where it keeps text. -/
theorem exists_iterate_deliver (o : Office) (k n : Nat) : ∃ desk channel written,
    (fun o => Office.deliver o k)^[n] o = { o with desk, channel, written } ∧
      SameSystem o.desk desk := by
  induction n generalizing o with
  | zero => exact ⟨o.desk, o.channel, o.written, rfl, .refl o.desk⟩
  | succ n ih =>
    obtain ⟨desk, channel, written, h, hsame⟩ := ih (o.deliver k)
    refine ⟨desk, channel, written, ?_, ?_⟩
    · rw [Function.iterate_succ_apply, h]
      cases hchannel : o.channel k with
      | nil => rw [deliver_of_nil hchannel]
      | cons p rest => rw [deliver_of_cons hchannel]
    · cases hchannel : o.channel k with
      | nil => rwa [deliver_of_nil hchannel] at hsame
      | cons p rest =>
        rw [deliver_of_cons hchannel] at hsame
        exact (sameSystem_put p.sink p.text o.desk).trans hsame

theorem exists_ready (o : Office) : ∃ desk channel written,
    o.ready = { o with desk, channel, written } ∧ SameSystem o.desk desk := by
  unfold ready
  split
  · exact exists_iterate_deliver o o.period _
  · exact ⟨o.desk, o.channel, o.written, rfl, .refl o.desk⟩

@[simp] theorem period_ready (o : Office) : o.ready.period = o.period := by
  obtain ⟨desk, channel, written, h, -⟩ := exists_ready o
  rw [h]

end Office

end Famicom.Headless
