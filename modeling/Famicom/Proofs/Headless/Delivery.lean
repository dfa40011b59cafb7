import Famicom.Proofs.Headless.Office

/-! Each line that is logged is written exactly once, in order, and where the sink of its time
leads, however the calls and the writers take turns. -/

namespace Famicom.Headless

open Famicom.Log

variable {start : Log} {d : Desk} {calls : List Call} {o : Office} {files : Files}
  {outlet : Outlet} {path : String}

/-- The sinks that the calls of a past have set are those of the periods of an office. -/
structure Follows (start : Log) (d : Desk) (calls : List Call) (o : Office) : Prop where
  threads : o.desk.threads = d.threads
  starts : o.desk.starts = d.starts + calls.countP (·.opens d.files)
  periods : (sinks start d calls).length = o.period + 1
  current : (sinks start d calls).head? = some o.log.sink
  sent : ∀ e ∈ o.sent, (sinks start d calls).reverse[e.period]? = some e.line.sink

namespace Follows

/-- The sink of the current period is the last one that was set. -/
theorem getElem?_period (h : Follows start d calls o) :
    (sinks start d calls).reverse[o.period]? = some o.log.sink := by
  have hlast : (sinks start d calls).reverse.length - 1 = o.period := by
    rw [List.length_reverse, h.periods, Nat.add_sub_cancel]
  rw [← hlast, ← List.getLast?_eq_getElem?, List.getLast?_reverse, h.current]

theorem deliver (h : Follows start d calls o) (k : Nat) :
    Follows start d calls (o.deliver k) := by
  cases hchannel : o.channel k with
  | nil => rwa [Office.deliver_of_nil hchannel]
  | cons p rest =>
    have hput := sameSystem_put p.sink p.text o.desk
    rw [Office.deliver_of_cons hchannel]
    exact ⟨hput.threads.trans h.threads, hput.starts.trans h.starts, h.periods, h.current, h.sent⟩

theorem iterate (h : Follows start d calls o) (k n : Nat) :
    Follows start d calls ((fun o => Office.deliver o k)^[n] o) := by
  induction n generalizing o with
  | zero => exact h
  | succ n ih => exact ih (h.deliver k)

/-- A call that sets no sink leaves the period as it was. -/
theorem stay (h : Follows start d calls o) {c : Call} (hc : c.sink? d calls = none)
    {desk : Desk} (hthreads : desk.threads = o.desk.threads)
    (hstarts : desk.starts = o.desk.starts + if c.opens d.files then 1 else 0) :
    Follows start d (c :: calls) { o with desk } := by
  have hsinks : sinks start d (c :: calls) = sinks start d calls := by
    simp only [sinks, hc, Option.toList_none, List.nil_append]
  refine ⟨hthreads.trans h.threads, ?_, ?_, ?_, ?_⟩
  · dsimp only
    rw [hstarts, h.starts, List.countP_cons, Nat.add_assoc]
  all_goals rw [hsinks]
  exacts [h.periods, h.current, h.sent]

/-- A call that sets a sink begins a period. -/
theorem begin (h : Follows start d calls o) {c : Call} {sink : Sink}
    (hc : c.sink? d calls = some sink) {log : Log} (hlog : log.sink = sink)
    {desk : Desk} (hthreads : desk.threads = o.desk.threads)
    (hstarts : desk.starts = o.desk.starts + if c.opens d.files then 1 else 0) :
    Follows start d (c :: calls) { o with log, desk, period := o.period + 1 } := by
  have hsinks : sinks start d (c :: calls) = sink :: sinks start d calls := by
    simp only [sinks, hc, Option.toList_some, List.singleton_append]
  refine ⟨hthreads.trans h.threads, ?_, ?_, ?_, fun e he => ?_⟩
  · dsimp only
    rw [hstarts, h.starts, List.countP_cons, Nat.add_assoc]
  · rw [hsinks, List.length_cons, h.periods]
  · rw [hsinks, hlog]
    rfl
  · -- the sinks of earlier periods are where they were
    have hbefore := h.sent e he
    have hlt := (List.getElem?_eq_some_iff.mp hbefore).1
    rw [hsinks, List.reverse_cons, List.getElem?_append_left hlt]
    exact hbefore

/-- Lines are sent with the sink of their period. -/
theorem request (h : Follows start d calls o) (r : Log.Request String) :
    Follows start d (.request r :: calls) (o.serve (.request r)) := by
  obtain ⟨channel, hsend⟩ := Office.exists_foldl_send
    (r.lines (o.desk.clock o.desk.readings) o.log)
    { o with desk := Office.readFor r o.log o.desk }
  have hsink : Call.sink? d calls (.request r) = none := rfl
  have hstay : Follows start d (.request r :: calls)
      { o with desk := Office.readFor r o.log o.desk } := h.stay hsink rfl rfl
  rw [Office.serve_request]
  dsimp only
  rw [hsend]
  refine ⟨hstay.threads, hstay.starts, hstay.periods, ?_, fun e he => ?_⟩
  · rw [hstay.current]
    exact congrArg some (sink_next r o.log).symm
  · rcases List.mem_append.mp he with he | he
    · exact hstay.sent e he
    · obtain ⟨line, hline, rfl⟩ := List.mem_map.mp he
      rw [sink_lines _ r o.log line hline]
      exact hstay.getElem?_period

end Follows

/-- What holds of an office after any calls and any turns of its writers. -/
structure Office.Settles (start : Log) (d : Desk) (calls : List Call) (o : Office) : Prop where
  delivers : o.Delivers d
  follows : Follows start d calls o

namespace Office.Settles

theorem initial (log : Log) (d : Desk) : Settles log d [] { log, desk := d } where
  delivers := ⟨.refl d.files, fun _ => rfl, fun _ => (List.append_nil _).symm, fun _ _ => rfl⟩
  follows := ⟨rfl, rfl, rfl, rfl, fun _ he => absurd he List.not_mem_nil⟩

theorem ready (h : o.Settles start d calls) : o.ready.Settles start d calls := by
  unfold Office.ready
  split
  · exact ⟨h.delivers.iterate _ _, h.follows.iterate _ _⟩
  · exact h

/-- Places are found as they were at the start. -/
theorem isOk_placeToWrite (h : o.Settles start d calls) (path : String) :
    (d.files.placeToWrite path).isOk = (o.desk.files.placeToWrite path).isOk := by
  have hplaces : (o.desk.files.placeToWrite path).toOption =
      (d.files.placeToWrite path).toOption := h.delivers.tree.toOption_placeToWrite
  cases hd : d.files.placeToWrite path <;> cases ho : o.desk.files.placeToWrite path <;>
    simp_all [Except.toOption, Except.isOk, Except.toBool]

theorem isOk_threads (h : o.Settles start d calls) :
    (d.threads (d.starts + calls.countP (·.opens d.files))).isOk =
      (o.desk.threads o.desk.starts).isOk := by
  rw [h.follows.threads, h.follows.starts]

/-- A new file is opened, and its writer starts or does not. -/
theorem setFile (h : o.Settles start d calls) (path : String) :
    (o.serve (.setFile path)).Settles start d (.setFile path :: calls) := by
  have hplace := h.isOk_placeToWrite path
  have hthreads := h.isOk_threads
  rcases hopen : o.desk.files.placeToWrite path with e | place
  · -- nothing happens
    have hnone : Call.opens d.files (.setFile path) = false := by
      change (d.files.placeToWrite path).isOk = false
      rw [hplace, hopen]
      rfl
    have hsink : Call.sink? d calls (.setFile path) = none :=
      if_neg fun hboth => by rw [hplace, hopen] at hboth; cases hboth.1
    rw [serve_setFile_of_error hopen]
    exact ⟨h.delivers, h.follows.stay hsink rfl (by rw [hnone]; rfl)⟩
  have hopens : Call.opens d.files (.setFile path) = true := by
    change (d.files.placeToWrite path).isOk = true
    rw [hplace, hopen]
    rfl
  have htree := Files.sameTree_change place (fun bytes => bytes) o.desk.files
  have hbytes := bytes_open place o.desk
  rw [serve_setFile_of_ok hopen]
  rcases hspawn : o.desk.threads o.desk.starts with e | ⟨⟨⟩⟩
  · -- the file is there, and nothing is sent to it
    have hsink : Call.sink? d calls (.setFile path) = none :=
      if_neg fun hboth => by rw [hthreads, hspawn] at hboth; cases hboth.2
    refine ⟨⟨h.delivers.tree.trans htree, h.delivers.order,
      fun outlet => (hbytes outlet).trans (h.delivers.bytes outlet), h.delivers.idle⟩,
      h.follows.stay hsink rfl ?_⟩
    rw [hopens]
    rfl
  · have hsink : Call.sink? d calls (.setFile path) = some (.file path) :=
      if_pos ⟨by rw [hplace, hopen]; rfl, by rw [hthreads, hspawn]; rfl⟩
    refine ⟨h.delivers.begin htree hbytes, h.follows.begin hsink rfl rfl ?_⟩
    rw [hopens]
    rfl

theorem serve (h : o.Settles start d calls) (c : Call) :
    (o.serve c).Settles start d (c :: calls) := by
  cases c with
  | request r =>
    refine ⟨?_, h.follows.request r⟩
    have hread : Delivers d { o with desk := readFor r o.log o.desk } :=
      ⟨h.delivers.tree, h.delivers.order, h.delivers.bytes, h.delivers.idle⟩
    have hsends := hread.sends (r.lines (o.desk.clock o.desk.readings) o.log)
    rw [serve_request]
    exact ⟨hsends.tree, hsends.order, hsends.bytes, hsends.idle⟩
  | setFile path => exact h.setFile path
  | clearFile =>
    exact ⟨h.delivers.begin (.refl _) fun _ => rfl, h.follows.begin rfl rfl rfl rfl⟩

theorem step (h : o.Settles start d calls) (s : Step) :
    (o.step s).Settles start d (s.call?.toList ++ calls) := by
  cases s with
  | call c => exact h.ready.serve c
  | deliver k => exact ⟨h.delivers.deliver k, h.follows.deliver k⟩

/-- The invariant of every run. -/
theorem after (start : Log) (d : Desk) (past : List Step) :
    (Office.after { log := start, desk := d } past).Settles start d
      (past.filterMap Step.call?) := by
  induction past with
  | nil => exact .initial start d
  | cons s past ih =>
    have hstep := ih.step s
    rw [List.filterMap_cons]
    cases h : s.call? with
    | none => rwa [h] at hstep
    | some c => rwa [h] at hstep

end Office.Settles

namespace Office

/-! Whole lines. -/

theorem Whole.ready (h : o.Whole files outlet) (hd : o.Delivers d) :
    o.ready.Whole files outlet := by
  unfold Office.ready
  split
  · exact h.iterate hd _ _
  · exact h

theorem Whole.serve (h : o.Whole files outlet) (hd : o.Delivers d) {c : Call}
    (hapart : o.period < (o.serve c).period →
      outlet? files (o.serve c).log.sink = some outlet → (o.serve c).waiting files outlet = []) :
    (o.serve c).Whole files outlet := by
  cases c with
  | request r =>
    have hread : Whole files outlet { o with desk := readFor r o.log o.desk } :=
      ⟨h.lines, h.one, h.current⟩
    have hsends := hread.sends (sink_lines (o.desk.clock o.desk.readings) r o.log)
    have hlog : ∀ (lines : List Line) (o : Office), (lines.foldl Office.send o).log = o.log := by
      intro lines o
      obtain ⟨channel, hsend⟩ := exists_foldl_send lines o
      rw [hsend]
    rw [serve_request]
    -- a request leaves the sink, so that the period is the one it was
    refine ⟨hsends.lines, hsends.one, fun hsink => hsends.current ?_⟩
    rw [hlog]
    rwa [sink_next] at hsink
  | setFile path =>
    rcases hopen : o.desk.files.placeToWrite path with e | place
    · rwa [serve_setFile_of_error hopen]
    rw [serve_setFile_of_ok hopen] at hapart ⊢
    rcases hspawn : o.desk.threads o.desk.starts with e | ⟨⟨⟩⟩
    · exact ⟨h.lines, h.one, h.current⟩
    · rw [hspawn] at hapart
      exact h.begin hd.idle (hapart (Nat.lt_succ_self _))
  | clearFile => exact h.begin hd.idle (hapart (Nat.lt_succ_self _))

theorem Whole.initial (files : Files) (outlet : Outlet) (log : Log) (desk : Desk) :
    Whole files outlet { log, desk } :=
  ⟨rfl, fun _ _ _ h => absurd rfl h, fun _ _ _ => rfl⟩

theorem Whole.after (start : Log) (d : Desk) {past : List Step}
    (h : Apart files outlet { log := start, desk := d } past) :
    (Office.after { log := start, desk := d } past).Whole files outlet := by
  induction past with
  | nil => exact .initial files outlet start d
  | cons s past ih =>
    have hsettles := Settles.after start d past
    have hbefore := ih h.1
    cases s with
    | deliver k => exact hbefore.deliver hsettles.delivers.idle k
    | call c =>
      refine (hbefore.ready hsettles.delivers).serve hsettles.ready.delivers fun hperiod => h.2 ?_
      rwa [period_ready] at hperiod

/-! Lines that are written at once. -/

theorem filter_flatMap_pieces {p : Piece → Bool} {q : Emission → Bool}
    (h : ∀ e, e.pieces.filter p = if q e then e.pieces else []) (es : List Emission) :
    (es.flatMap Emission.pieces).filter p = (es.filter q).flatMap Emission.pieces := by
  induction es with
  | nil => rfl
  | cons e es ih =>
    rw [List.flatMap_cons, List.filter_append, h, ih, List.filter_cons]
    cases q e <;> simp

theorem flatMap_bytes_pieces (e : Emission) : e.pieces.flatMap Piece.bytes = e.bytes := by
  simp [Emission.pieces, Line.pieces, Piece.bytes, Emission.bytes]

/-- What is kept and what is still to be written make up whole lines. -/
theorem Whole.bytes (h : o.Whole d.files outlet) (hd : o.Delivers d) :
    o.desk.bytes outlet ++ (o.waiting d.files outlet).flatMap Piece.bytes =
      d.bytes outlet ++ (o.sent.filter fun e =>
        outlet? d.files e.line.sink = some outlet).flatMap Emission.bytes := by
  have hpieces : (o.sent.flatMap Emission.pieces).filter (·.leads d.files outlet) =
      (o.sent.filter fun e => outlet? d.files e.line.sink = some outlet).flatMap
        Emission.pieces :=
    filter_flatMap_pieces (fun e => by rw [filter_leads_pieces]; simp) o.sent
  calc o.desk.bytes outlet ++ (o.waiting d.files outlet).flatMap Piece.bytes
    _ = d.bytes outlet ++ ((o.written.filter (·.leads d.files outlet) ++
          o.waiting d.files outlet).flatMap Piece.bytes) := by
      rw [hd.bytes, kept, List.flatMap_append, List.append_assoc]
    _ = d.bytes outlet ++ ((o.sent.filter fun e =>
          outlet? d.files e.line.sink = some outlet).flatMap Emission.pieces).flatMap
            Piece.bytes := by rw [← h.lines, hpieces]
    _ = _ := by
      rw [List.flatMap_assoc]
      simp only [flatMap_bytes_pieces]

end Office

end Famicom.Headless
