import Famicom.Proofs.Picture.History
import Famicom.Proofs.Picture.Scroll
import Mathlib.Data.List.DropRight

/-! The writes that set the scroll. Two registers take two bytes each, one after the other, and
share the note of which is next; what they assemble is told by the writes alone, whatever else is
done to the unit in between. -/

namespace Famicom.Picture

open Famicom.Action

/-- An access that has to do with the scroll. -/
inductive ScrollAccess
  | status
  | control (data : UInt8)
  | scroll (data : UInt8)
  | address (data : UInt8)
deriving DecidableEq

/-- What an operation does to the scroll, if it has to do with it. -/
def Operation.scrollAccess? : Operation → Option ScrollAccess
  | .read addr => if registerAt addr = 0x2002 then some .status else none
  | .write addr data =>
    if registerAt addr = 0x2000 then some (.control data)
    else if registerAt addr = 0x2005 then some (.scroll data)
    else if registerAt addr = 0x2006 then some (.address data)
    else none
  | _ => none

/-- Whether an operation reads the status, so that the next write of a pair is a first one. -/
def Operation.readsStatus (o : Operation) : Bool := o.scrollAccess? = some .status

/-- Whether an operation is a write to a register that takes two bytes. -/
def Operation.writesHalf (o : Operation) : Bool :=
  match o.scrollAccess? with
  | some (.scroll _) | some (.address _) => true
  | _ => false

/-- The unit after operations, the first one first. -/
def run (ops : List Operation) (p : Picture) : Picture := ops.foldl (fun p o => o.apply p) p

/-- What the writes assemble. -/
structure Assembly where
  t : UInt16
  fineX : UInt8
  secondWrite : Bool

def assembly (p : Picture) : Assembly := ⟨p.t, p.fineX, p.secondWrite⟩

def ScrollAccess.apply : ScrollAccess → Assembly → Assembly
  | status, a => { a with secondWrite := false }
  | control data, a => { a with t := Scroll.selectNametable a.t data }
  | scroll data, a =>
    if a.secondWrite then { a with t := Scroll.scrollY a.t data, secondWrite := false }
    else ⟨(Scroll.scrollX a.t data).1, (Scroll.scrollX a.t data).2, true⟩
  | address data, a =>
    if a.secondWrite then { a with t := Scroll.addressLow a.t data, secondWrite := false }
    else { a with t := Scroll.addressHigh a.t data, secondWrite := true }

variable {p : Picture}

/-- Nothing that a dot does is part of the assembly. -/
theorem dotKeeps_assembly (a : Assembly) : DotKeeps (fun p => p.assembly = a) (fun _ => True) where
  nextTile _ h := h
  nextLine _ h := h
  copyHorizontal _ h := h
  copyVertical _ h := h
  pipeline _ _ _ h := h
  found _ h := h
  noSprites _ h := h
  blank _ h := h
  line _ _ h _ := h
  pixel _ _ _ h := h
  noteHit p h := by
    unfold noteHit
    split <;> exact h
  overflow _ h := h
  lowFault _ _ _ _ := trivial
  highFault _ _ _ _ := trivial
  lineFault _ _ _ _ := trivial
  vblank p h := by
    unfold vblankDot
    split
    · exact h
    · split <;> exact h
  clear _ h := h

theorem assembly_tick (p : Picture) : (tick p).state.assembly = p.assembly := by
  rw [tick_eq_drawDot (f := assembly) fun _ _ _ => rfl]
  exact ((dotKeeps_assembly p.assembly).drawDot p rfl).1

theorem assembly_writeOamAll (p : Picture) (bytes : List UInt8) :
    (p.writeOamAll bytes).assembly = p.assembly := by
  unfold writeOamAll
  induction bytes generalizing p with
  | nil => rfl
  | cons data bytes ih => exact ih (p.writeOam data)

theorem assembly_writeScroll (data : UInt8) (p : Picture) :
    (p.writeScroll data).assembly = (ScrollAccess.scroll data).apply p.assembly := by
  unfold writeScroll ScrollAccess.apply
  cases hsecond : p.secondWrite <;> simp [assembly, hsecond]

theorem assembly_writeAddress (data : UInt8) (p : Picture) :
    (p.writeAddress data).assembly = (ScrollAccess.address data).apply p.assembly := by
  unfold writeAddress ScrollAccess.apply
  cases hsecond : p.secondWrite <;> simp [assembly, hsecond]

theorem assembly_read (addr : UInt16) (p : Picture) : (readRegister addr p).state.assembly =
    if registerAt addr = 0x2002 then ScrollAccess.status.apply p.assembly else p.assembly := by
  split
  next hstatus =>
    have hread : readRegister addr p = readStatus p := by
      unfold readRegister
      rw [hstatus]
      rfl
    rw [hread]
    rfl
  next hother =>
    have hkeeps : Keeps (fun q : Picture => q.assembly = p.assembly) (fun _ => True)
        (readRegister addr) := by
      unfold readRegister
      split
      · exact absurd ‹_› hother
      · exact keeps_view _
      · exact keeps_readData (fun _ _ h => h) (fun _ h => h) fun _ _ _ _ _ => trivial
      · exact keeps_fail trivial
    exact (hkeeps p rfl).1

theorem assembly_write (addr : UInt16) (data : UInt8) (p : Picture) :
    (writeRegister addr data p).state.assembly =
      if registerAt addr = 0x2000 then (ScrollAccess.control data).apply p.assembly
      else if registerAt addr = 0x2005 then (ScrollAccess.scroll data).apply p.assembly
      else if registerAt addr = 0x2006 then (ScrollAccess.address data).apply p.assembly
      else p.assembly := by
  split
  next hcontrol =>
    unfold writeRegister
    rw [bind_of_ok (report_apply _ p), hcontrol]
    rfl
  split
  next hscroll =>
    unfold writeRegister
    rw [bind_of_ok (report_apply _ p), hscroll]
    exact assembly_writeScroll data p
  split
  next haddress =>
    unfold writeRegister
    rw [bind_of_ok (report_apply _ p), haddress]
    exact assembly_writeAddress data p
  next hcontrol hscroll haddress =>
    -- none of the other registers is part of the assembly
    have hkeeps : Keeps (fun q : Picture => q.assembly = p.assembly) (fun _ => True)
        (writeRegister addr data) := by
      unfold writeRegister
      apply keeps_bind (keeps_report _)
      intro _
      split
      · exact absurd ‹_› hcontrol
      · exact keeps_update fun _ h => h
      · exact keeps_fail trivial
      · exact keeps_update fun _ h => h
      · exact keeps_update fun _ h => h
      · exact absurd ‹_› hscroll
      · exact absurd ‹_› haddress
      · exact keeps_writeData (fun _ _ _ h => ⟨h, fun _ _ => trivial⟩) (fun _ h => h) data
    exact (hkeeps p rfl).1

/-- An operation that has nothing to do with the scroll leaves the assembly alone. -/
theorem assembly_apply (o : Operation) (p : Picture) :
    (o.apply p).assembly = o.scrollAccess?.elim p.assembly fun a => a.apply p.assembly := by
  cases o with
  | tick => exact assembly_tick p
  | read addr =>
    refine (assembly_read addr p).trans ?_
    dsimp only [Operation.scrollAccess?]
    split <;> rfl
  | write addr data =>
    refine (assembly_write addr data p).trans ?_
    dsimp only [Operation.scrollAccess?]
    split
    · rfl
    split
    · rfl
    split <;> rfl
  | transfer bytes => exact assembly_writeOamAll p bytes
  | takeNmi | takeFrame | insert | eject => rfl

/-- Only the accesses that have to do with the scroll count, in their order. -/
theorem assembly_run (ops : List Operation) (p : Picture) :
    (run ops p).assembly =
      (ops.filterMap (·.scrollAccess?)).foldl (fun s a => a.apply s) p.assembly := by
  induction ops generalizing p with
  | nil => rfl
  | cons o ops ih =>
    have hrest := ih (o.apply p)
    rw [assembly_apply] at hrest
    refine hrest.trans ?_
    cases haccess : o.scrollAccess? with
    | none => rw [List.filterMap_cons_none haccess, Option.elim_none]
    | some a => rw [List.filterMap_cons_some haccess, Option.elim_some, List.foldl_cons]

/-! Which byte of a pair is next. -/

theorem secondWrite_apply (o : Operation) (p : Picture) :
    (o.apply p).secondWrite = (!o.readsStatus && (o.writesHalf ^^ p.secondWrite)) := by
  have hassembly := congrArg Assembly.secondWrite (assembly_apply o p)
  refine hassembly.trans ?_
  unfold Operation.readsStatus Operation.writesHalf
  rcases o.scrollAccess? with _ | _ | data | data | data
  · exact (Bool.false_xor _).symm
  · rfl
  · exact (Bool.false_xor _).symm
  · cases hsecond : p.secondWrite <;> simp [ScrollAccess.apply, assembly, hsecond]
  · cases hsecond : p.secondWrite <;> simp [ScrollAccess.apply, assembly, hsecond]

/-- The next write of a pair is a second one after an odd number of halves. -/
theorem secondWrite_run (ops : List Operation) (hp : p.secondWrite = false) :
    (run ops p).secondWrite = true ↔
      Odd ((ops.rtakeWhile fun o => !o.readsStatus).countP (·.writesHalf)) := by
  induction ops using List.reverseRecOn with
  | nil =>
    change p.secondWrite = true ↔ _
    rw [hp, List.rtakeWhile_nil, List.countP_nil]
    decide
  | append_singleton ops o ih =>
    have hlast : run (ops ++ [o]) p = o.apply (run ops p) := List.foldl_append
    rw [hlast, secondWrite_apply, List.rtakeWhile_concat]
    cases hstatus : o.readsStatus with
    | true => simp
    | false =>
      simp only [Bool.not_false, if_true, Bool.true_and, List.countP_append, List.countP_singleton]
      cases hhalf : o.writesHalf with
      | true => simp [Nat.odd_add_one, ← ih]
      | false => simp [← ih]

/-! What is assembled. -/

/-- The register behind the writes has fifteen bits. -/
def TargetSound (p : Picture) : Prop := p.t.toNat < 0x8000

theorem registerKeeps_targetSound : RegisterKeeps TargetSound (fun _ => True) where
  status _ h := h
  buffer _ _ h := h
  stepAddress _ h := h
  control _ data h := Scroll.selectNametable_lt data h
  mask _ _ h := h
  oamAddress _ _ h := h
  oam _ _ h := h
  scroll p data h := by
    unfold writeScroll
    split
    · exact Scroll.scrollY_lt data h
    · exact Scroll.scrollX_lt data h
  address p data h := by
    unfold writeAddress
    split
    · exact Scroll.addressLow_lt p.t data
    · exact Scroll.addressHigh_lt data h
  readFault _ _ _ _ _ := trivial
  memory _ _ := fun _ hp => ⟨hp, fun _ _ => trivial⟩

theorem targetSound_of_reached (h : Reached p) : TargetSound p := by
  induction h with
  | powerOn => exact Nat.zero_lt_succ _
  | @tick p _ ih =>
    unfold TargetSound
    rw [(static_tick p).t]
    exact ih
  | read addr _ ih => exact (registerKeeps_targetSound.readRegister addr _ ih).1
  | write addr data _ ih => exact (registerKeeps_targetSound.write addr data _ ih).1
  | transfer bytes _ ih => exact registerKeeps_targetSound.writeOamAll ih bytes
  | takeNmi _ ih => exact ih
  | takeFrame _ ih => exact ih
  | insert c _ ih => exact ih
  | eject _ ih => exact ih

/-- A scroll written in full, with a control write before, between or after. -/
theorem foldl_of_scroll {before after : List ScrollAccess} {c x y : UInt8} (s : Assembly)
    (h : before ++ after = [.status, .scroll x, .scroll y]) :
    ∃ t : UInt16, (before ++ .control c :: after).foldl (fun s a => a.apply s) s =
        ⟨t, (Scroll.scrollX s.t x).2, false⟩ ∧
      Scroll.parts t =
        { Scroll.parts s.t with
          fine := y.toNat % 8, tableY := c.toNat / 2 % 2, tableX := c.toNat % 2,
          row := y.toNat / 8, column := x.toNat / 8 } := by
  -- the control write goes before the others, or after one, two or all three of them
  rcases before with _ | ⟨a, _ | ⟨a', _ | ⟨a'', before⟩⟩⟩ <;>
    simp only [List.nil_append, List.cons_append, List.cons.injEq, List.append_eq_nil_iff] at h
  · subst h
    refine ⟨Scroll.scrollY (Scroll.scrollX (Scroll.selectNametable s.t c) x).1 y, rfl, ?_⟩
    rw [Scroll.parts_scrollY, Scroll.parts_scrollX, Scroll.parts_selectNametable]
  · obtain ⟨rfl, rfl⟩ := h
    refine ⟨Scroll.scrollY (Scroll.scrollX (Scroll.selectNametable s.t c) x).1 y, rfl, ?_⟩
    rw [Scroll.parts_scrollY, Scroll.parts_scrollX, Scroll.parts_selectNametable]
  · obtain ⟨rfl, rfl, rfl⟩ := h
    refine ⟨Scroll.scrollY (Scroll.selectNametable (Scroll.scrollX s.t x).1 c) y, rfl, ?_⟩
    rw [Scroll.parts_scrollY, Scroll.parts_selectNametable, Scroll.parts_scrollX]
  · obtain ⟨rfl, rfl, rfl, rfl, rfl⟩ := h
    refine ⟨Scroll.selectNametable (Scroll.scrollY (Scroll.scrollX s.t x).1 y) c, rfl, ?_⟩
    rw [Scroll.parts_selectNametable, Scroll.parts_scrollY, Scroll.parts_scrollX]

/-- A scroll written in full does not depend on what was there before, nor on what else is done to
the unit in between; whether a byte is the second of a pair is told by the writes since the status
was last read. The top bit of the register, which no unit comes to have set, would stay. -/
theorem scroll_of_writes (ops : List Operation) :
    ((run ops powerOn).secondWrite = true ↔
      Odd ((ops.rtakeWhile fun o => !o.readsStatus).countP (·.writesHalf))) ∧
    ∀ (p : Picture) (c x y : UInt8) (before after : List ScrollAccess),
      ops.filterMap (·.scrollAccess?) = before ++ .control c :: after →
      before ++ after = [.status, .scroll x, .scroll y] →
      let written := y.toNat % 8 * 4096 + c.toNat % 4 * 1024 + y.toNat / 8 * 32 + x.toNat / 8
      (run ops p).secondWrite = false ∧ (run ops p).fineX.toNat = x.toNat % 8 ∧
        (run ops p).t.toNat = p.t.toNat / 0x8000 * 0x8000 + written ∧
        (Reached p → (run ops p).t.toNat = written) := by
  refine ⟨secondWrite_run ops rfl, ?_⟩
  intro p c x y before after hops hscroll written
  obtain ⟨t, hfold, hparts⟩ := foldl_of_scroll p.assembly hscroll
  have hrun := assembly_run ops p
  rw [hops, hfold] at hrun
  have hfine : (run ops p).fineX = (Scroll.scrollX p.t x).2 := congrArg Assembly.fineX hrun
  have ht : (run ops p).t = t := congrArg Assembly.t hrun
  -- the three writes give all parts of the register but its top bit
  have hvalue : t.toNat = p.t.toNat / 0x8000 * 0x8000 + written := by
    rw [Scroll.toNat_eq_value, hparts]
    dsimp only [Scroll.Parts.value, Scroll.parts, assembly, written]
    omega
  refine ⟨congrArg Assembly.secondWrite hrun, ?_, ?_, ?_⟩
  · rw [hfine, Scroll.fineX_scrollX]
  · rw [ht, hvalue]
  · intro hreached
    have hlow : p.t.toNat < 0x8000 := targetSound_of_reached hreached
    rw [ht, hvalue, Nat.div_eq_of_lt hlow, Nat.zero_mul, Nat.zero_add]

/-- Writes that leave a pair half written. -/
private def halfWritten : List Operation :=
  [.write 0x2006 0x3F, .write 0x2006 0xFF, .write 0x2005 0xFF]

/-- A scroll to column 125 and line 94 of the last nametable, with other things done to the unit
in between. -/
private def interleaved : List Operation :=
  [.write 0x2001 0x1E, .tick, .read 0x3FFA, .write 0x2003 4, .write 0x2005 125, .read 0x2004,
    .write 0x2000 0x83, .tick, .write 0x2004 7, .write 0x3FFD 94, .tick]

theorem scroll_of_writes_of_halfWritten :
    (run halfWritten powerOn).secondWrite = true ∧
    (run interleaved (run halfWritten powerOn)).secondWrite = false ∧
    (run interleaved (run halfWritten powerOn)).fineX.toNat = 5 ∧
    (run interleaved (run halfWritten powerOn)).t.toNat = 28015 := by
  have hreached : Reached (run halfWritten powerOn) :=
    .write _ _ (.write _ _ (.write _ _ .powerOn))
  obtain ⟨hsecond, hfine, -, ht⟩ := (scroll_of_writes interleaved).2 (run halfWritten powerOn)
    0x83 125 94 [.status, .scroll 125] [.scroll 94] (by decide) rfl
  exact ⟨(scroll_of_writes halfWritten).1.mpr (by decide), hsecond, hfine, ht hreached⟩

end Famicom.Picture
