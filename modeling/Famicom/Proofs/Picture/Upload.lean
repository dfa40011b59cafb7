import Famicom.Proofs.Picture.Cells
import Famicom.Proofs.Picture.Scroll

/-! Uploads through the data register. Bytes that are written one after another from an address on
are read back from there: one read late below the palette, where reads go through a buffer, and at
once in it. -/

namespace Famicom.Picture

open Famicom.Action VideoMemory

/-- Points the data register to an address. -/
def seek (s : UInt16) : Action Bus.Fault Picture Unit := do
  let _ ← readRegister 0x2002
  writeRegister 0x2006 (s >>> 8).toUInt8
  writeRegister 0x2006 s.toUInt8

/-- Writes bytes from an address on. -/
def upload (s : UInt16) (bs : List UInt8) : Action Bus.Fault Picture Unit := do
  seek s
  bs.forM (writeRegister 0x2007)

/-- Reads the data register a number of times from an address on. -/
def download (s : UInt16) (n : Nat) : Action Bus.Fault Picture (List UInt8) := do
  seek s
  (List.replicate n 0x2007).mapM readRegister

/-- How far the address goes on after each access. -/
def stride (p : Picture) : Nat := (Control.addressStep p.ctrl).toNat

/-- The address of the access `i` from an address on. -/
def addressFrom (p : Picture) (s : UInt16) (i : Nat) : UInt16 :=
  UInt16.ofNat (s.toNat + i * p.stride)

variable {p : Picture} {c : Cartridge} {s : UInt16}

theorem stride_le (p : Picture) : p.stride ≤ 32 := by
  unfold stride Control.addressStep
  split <;> decide

/-- The unit with the data register pointed to an address. -/
def pointed (p : Picture) (v : UInt16) : Picture :=
  { p with status := p.status &&& ~~~Status.vblank, secondWrite := false, t := v, v := v }

@[simp] theorem pointed_v (p : Picture) (v : UInt16) : (p.pointed v).v = v := rfl

@[simp] theorem pointed_stride (p : Picture) (v : UInt16) : (p.pointed v).stride = p.stride := rfl

theorem seek_eq (s : UInt16) (p : Picture) :
    ∃ v es, seek s p = ⟨.ok (), p.pointed v, es⟩ ∧ v.toNat = s.toNat % 0x4000 := by
  refine ⟨Scroll.addressLow (Scroll.addressHigh p.t (s >>> 8).toUInt8) s.toUInt8, _, rfl, ?_⟩
  have hlt := s.toNat_lt
  have hhigh : (s >>> 8).toUInt8.toNat = s.toNat / 256 := by
    rw [UInt16.toNat_toUInt8, UInt16.toNat_shiftRight, show UInt16.toNat 8 % 16 = 8 from rfl,
      Nat.shiftRight_eq_div_pow]
    omega
  rw [Scroll.toNat_addressLow, Scroll.toNat_addressHigh, hhigh, UInt16.toNat_toUInt8]
  omega

theorem masked_of_lt {a : UInt16} (h : a.toNat < 0x4000) : a &&& 0x3FFF = a := by
  rw [← UInt16.toNat_inj, toNat_and_mask, Nat.mod_eq_of_lt h]

theorem toNat_stepAddress (h : p.v.toNat < 0x4000) :
    p.stepAddress.v.toNat = p.v.toNat + p.stride := by
  have hstride := stride_le p
  have hmask : ∀ n, n &&& UInt16.toNat 0x7FFF = n % 2 ^ 15 :=
    fun n => Nat.and_two_pow_sub_one_eq_mod n 15
  change ((p.v + Control.addressStep p.ctrl) &&& 0x7FFF).toNat = _
  rw [UInt16.toNat_and, hmask, UInt16.toNat_add]
  change (p.v.toNat + p.stride) % 65536 % 32768 = _
  omega

theorem toNat_addressFrom {i : Nat} (h : s.toNat + i * p.stride < 0x4000) :
    (addressFrom p s i).toNat = s.toNat + i * p.stride :=
  UInt16.toNat_ofNat_of_lt' (lt_trans h (by decide))

/-- What the cell at an address holds. -/
def byteAt (p : Picture) (c : Cartridge) (a : Nat) : UInt8 :=
  p.memory.held c (cellAt p.memory.mirroring a)

theorem read_eq_byteAt (hslot : p.memory.cartridge = some c) (a : UInt16) :
    p.memory.read a = .ok (p.byteAt c a.toNat) :=
  read_eq_held hslot a

/-! One access. -/

theorem writeData_eq (hslot : p.memory.cartridge = some c) (hv : p.v.toNat < 0x4000)
    (data : UInt8) : ∃ m c' es, writeRegister 0x2007 data p =
      ⟨.ok (), { p with memory := m, v := p.stepAddress.v }, es⟩ ∧ m.cartridge = some c' ∧
      c'.header = c.header ∧ m.mirroring = p.memory.mirroring ∧ ∀ cell, m.held c' cell =
        if cell = cellAt p.memory.mirroring p.v.toNat ∧ Writable c p.v then kept p.v data
        else p.memory.held c cell := by
  obtain ⟨m, c', es, hwrite, hslot', hmirroring, hheld⟩ := write_held hslot p.v data
  have hheader := header_of_write p.v data p.memory
  rw [hwrite, hslot, hslot', Option.map_some, Option.map_some, Option.some.injEq] at hheader
  refine ⟨m, c', [.registerWrite data 0x2007] ++ (es ++ []), ?_, hslot', hheader, hmirroring,
    hheld⟩
  change (report _ >>= fun _ => writeData data) p = _
  unfold writeData
  rw [bind_of_ok (report_apply _ p), view_bind, masked_of_lt hv]
  have hmemory : onMemory (VideoMemory.write p.v data) p =
      ⟨.ok (), { p with memory := m }, es⟩ := by
    unfold onMemory
    dsimp only
    rw [hwrite]
  rw [bind_of_ok hmemory]
  rfl

/-- Below the palette a read answers what was read before. -/
theorem readData_of_lt (hslot : p.memory.cartridge = some c) (hv : p.v.toNat < 0x3F00) :
    readRegister 0x2007 p = ⟨.ok p.readBuffer,
      { p with readBuffer := p.byteAt c p.v.toNat, v := p.stepAddress.v }, []⟩ := by
  have hread := read_eq_byteAt hslot p.v
  have hplain : ¬paletteBase ≤ p.v := fun h =>
    absurd (UInt16.le_iff_toNat_le.mp h) (Nat.not_le.mpr hv)
  change readData p = _
  unfold readData
  rw [view_bind, masked_of_lt (lt_trans hv (by decide)),
    inspect_bind (g := fun q : Picture => q.memory.read p.v) hread, view_bind]
  simp only [if_neg hplain]
  rfl

/-- A colour is read at once, and the buffer takes what lies below it. -/
theorem readData_of_palette (hslot : p.memory.cartridge = some c) (hlow : 0x3F00 ≤ p.v.toNat)
    (hhigh : p.v.toNat < 0x4000) : readRegister 0x2007 p = ⟨.ok (p.byteAt c p.v.toNat),
      { p with readBuffer := p.byteAt c (p.v.toNat - 0x1000), v := p.stepAddress.v }, []⟩ := by
  have hread := read_eq_byteAt hslot p.v
  have hbelow := read_eq_byteAt hslot (p.v - 0x1000)
  have hplace : (p.v - 0x1000).toNat = p.v.toNat - 0x1000 :=
    UInt16.toNat_sub_of_le _ _ (UInt16.le_iff_toNat_le.mpr (le_trans (by decide) hlow))
  have hcolour : paletteBase ≤ p.v := UInt16.le_iff_toNat_le.mpr hlow
  rw [hplace] at hbelow
  change readData p = _
  unfold readData
  rw [view_bind, masked_of_lt hhigh, inspect_bind (g := fun q : Picture => q.memory.read p.v) hread,
    view_bind]
  simp only [if_pos hcolour]
  rw [inspect_bind (g := fun q : Picture => q.memory.read (p.v - 0x1000)) hbelow]
  -- the difference is not to be counted out
  generalize p.byteAt c (p.v.toNat - 0x1000) = below
  rfl

/-! Many accesses. -/

/-- Cells from the video address on that can be written and are all different. -/
structure Spread (p : Picture) (c : Cartridge) (n : Nat) : Prop where
  lt : ∀ i < n, p.v.toNat + i * p.stride < 0x4000
  writable : ∀ i < n, Writable c (UInt16.ofNat (p.v.toNat + i * p.stride))
  distinct : ∀ i j, i < j → j < n →
    cellAt p.memory.mirroring (p.v.toNat + i * p.stride) ≠
      cellAt p.memory.mirroring (p.v.toNat + j * p.stride)

/-- The first of them is where the unit points. -/
theorem Spread.head {n : Nat} (h : p.Spread c (n + 1)) :
    p.v.toNat < 0x4000 ∧ Writable c p.v := by
  have hlt := h.lt 0 (Nat.succ_pos n)
  have hwritable := h.writable 0 (Nat.succ_pos n)
  rw [Nat.zero_mul, Nat.add_zero] at hlt hwritable
  rw [UInt16.ofNat_toNat] at hwritable
  exact ⟨hlt, hwritable⟩

/-- The places in front of the next address are those in front of this one but the first. -/
theorem next_place (hv : p.v.toNat < 0x4000) (i : Nat) :
    p.stepAddress.v.toNat + i * p.stride = p.v.toNat + (i + 1) * p.stride := by
  rw [toNat_stepAddress hv, Nat.succ_mul]
  omega

/-- After one write the other cells lie in front. -/
theorem Spread.tail {n : Nat} (h : p.Spread c (n + 1)) {m : VideoMemory} {c' : Cartridge}
    (hheader : c'.header = c.header) (hmirroring : m.mirroring = p.memory.mirroring) :
    Spread { p with memory := m, v := p.stepAddress.v } c' n := by
  have hplace := next_place h.head.1
  refine ⟨?_, ?_, ?_⟩
  · intro i hi
    change p.stepAddress.v.toNat + i * p.stride < 0x4000
    rw [hplace]
    exact h.lt (i + 1) (Nat.succ_lt_succ hi)
  · intro i hi
    change Writable c' (UInt16.ofNat (p.stepAddress.v.toNat + i * p.stride))
    rw [hplace]
    intro hpattern
    rw [hheader]
    exact h.writable (i + 1) (Nat.succ_lt_succ hi) hpattern
  · intro i j hij hj
    change cellAt m.mirroring (p.stepAddress.v.toNat + i * p.stride) ≠
      cellAt m.mirroring (p.stepAddress.v.toNat + j * p.stride)
    rw [hplace, hplace, hmirroring]
    exact h.distinct (i + 1) (j + 1) (Nat.succ_lt_succ hij) (Nat.succ_lt_succ hj)

/-- Bytes that are written come to stand in their cells, and no other cell changes. -/
theorem forM_writeData (bs : List UInt8) (hslot : p.memory.cartridge = some c)
    (h : p.Spread c bs.length) : ∃ m c' v es, bs.forM (writeRegister 0x2007) p =
      ⟨.ok (), { p with memory := m, v := v }, es⟩ ∧ m.cartridge = some c' ∧
      m.mirroring = p.memory.mirroring ∧
      (∀ i (hi : i < bs.length),
        m.held c' (cellAt p.memory.mirroring (p.v.toNat + i * p.stride)) =
          kept (UInt16.ofNat (p.v.toNat + i * p.stride)) bs[i]) ∧
      ∀ cell, (∀ i < bs.length, cell ≠ cellAt p.memory.mirroring (p.v.toNat + i * p.stride)) →
        m.held c' cell = p.memory.held c cell := by
  induction bs generalizing p c with
  | nil =>
    exact ⟨p.memory, c, p.v, [], rfl, hslot, rfl, fun i hi => absurd hi (Nat.not_lt_zero i),
      fun cell _ => rfl⟩
  | cons b bs ih =>
    obtain ⟨hv, hwritable⟩ := h.head
    obtain ⟨m, c₁, es, hwrite, hslot₁, hheader, hmirroring, hheld⟩ := writeData_eq hslot hv b
    obtain ⟨m', c', v, es', hrest, hslot', hmirroring', hcells, hframe⟩ :=
      ih (p := { p with memory := m, v := p.stepAddress.v }) hslot₁ (h.tail hheader hmirroring)
    have hplace := next_place hv
    -- the writes that follow, by their numbers among all of them
    replace hcells : ∀ i (hi : i < bs.length),
        m'.held c' (cellAt p.memory.mirroring (p.v.toNat + (i + 1) * p.stride)) =
          kept (UInt16.ofNat (p.v.toNat + (i + 1) * p.stride)) bs[i] := by
      intro i hi
      rw [← hplace, ← hmirroring]
      exact hcells i hi
    replace hframe : ∀ cell, (∀ i < bs.length,
        cell ≠ cellAt p.memory.mirroring (p.v.toNat + (i + 1) * p.stride)) →
        m'.held c' cell = m.held c₁ cell := by
      intro cell hother
      apply hframe
      intro i hi
      have hne := hother i hi
      rwa [← hplace, ← hmirroring] at hne
    have hrun : (b :: bs).forM (writeRegister 0x2007) =
        writeRegister 0x2007 b >>= fun _ => bs.forM (writeRegister 0x2007) := List.forM_cons
    refine ⟨m', c', v, es ++ es', ?_, hslot', hmirroring'.trans hmirroring, ?_, ?_⟩
    · rw [hrun, bind_of_ok hwrite, hrest]
    · intro i hi
      cases i with
      | zero =>
        have hfirst : ∀ j < bs.length, cellAt p.memory.mirroring p.v.toNat ≠
            cellAt p.memory.mirroring (p.v.toNat + (j + 1) * p.stride) := by
          intro j hj
          have hne := h.distinct 0 (j + 1) (Nat.succ_pos j) (Nat.succ_lt_succ hj)
          rwa [Nat.zero_mul, Nat.add_zero] at hne
        rw [Nat.zero_mul, Nat.add_zero, UInt16.ofNat_toNat, hframe _ hfirst, hheld,
          if_pos ⟨rfl, hwritable⟩, List.getElem_cons_zero]
      | succ i => exact hcells i (Nat.lt_of_succ_lt_succ hi)
    · intro cell hother
      have hfirst := hother 0 (Nat.succ_pos _)
      rw [Nat.zero_mul, Nat.add_zero] at hfirst
      rw [hframe cell fun i hi => hother (i + 1) (Nat.succ_lt_succ hi), hheld,
        if_neg fun hcell => hfirst hcell.1]

/-- The cell at the video address, and those from the next address on. -/
theorem map_byteAt (hv : p.v.toNat < 0x4000) (n : Nat) :
    ((List.range (n + 1)).map fun i => p.byteAt c (p.v.toNat + i * p.stride)) =
      p.byteAt c p.v.toNat ::
        (List.range n).map fun i => p.byteAt c (p.stepAddress.v.toNat + i * p.stride) := by
  simp only [next_place hv]
  rw [List.range_succ_eq_map, List.map_cons, List.map_map, Nat.zero_mul, Nat.add_zero]
  rfl

/-- Below the palette each read answers what the one before has found. -/
theorem mapM_readData_of_lt (hslot : p.memory.cartridge = some c) {n : Nat}
    (h : p.v.toNat + n * p.stride < 0x3F00) : ∃ q,
      (List.replicate (n + 1) 0x2007).mapM readRegister p = ⟨.ok (p.readBuffer ::
        (List.range n).map fun i => p.byteAt c (p.v.toNat + i * p.stride)), q, []⟩ := by
  induction n generalizing p with
  | zero =>
    rw [Nat.zero_mul, Nat.add_zero] at h
    rw [List.replicate_succ, List.mapM_cons, bind_of_quiet (readData_of_lt hslot h)]
    exact ⟨_, rfl⟩
  | succ n ih =>
    rw [Nat.succ_mul] at h
    have hv : p.v.toNat < 0x3F00 := by omega
    have hv' : p.v.toNat < 0x4000 := lt_trans hv (by decide)
    have hrest : p.stepAddress.v.toNat + n * p.stride < 0x3F00 := by
      rw [toNat_stepAddress hv']
      omega
    obtain ⟨q, hreads⟩ := ih (p := { p with
      readBuffer := p.byteAt c p.v.toNat, v := p.stepAddress.v }) hslot hrest
    refine ⟨q, ?_⟩
    rw [List.replicate_succ, List.mapM_cons, bind_of_quiet (readData_of_lt hslot hv),
      bind_of_quiet hreads, map_byteAt hv']
    rfl

/-- What a number of reads in the palette leave in the buffer. -/
def bufferAfter (p : Picture) (c : Cartridge) : Nat → UInt8
  | 0 => p.readBuffer
  | n + 1 => p.byteAt c (p.v.toNat + n * p.stride - 0x1000)

/-- In the palette each read answers the colour it finds, and the last one leaves in the buffer
what lies below it. -/
theorem mapM_readData_of_palette (hslot : p.memory.cartridge = some c) {n : Nat}
    (h : ∀ i < n, 0x3F00 ≤ p.v.toNat + i * p.stride ∧ p.v.toNat + i * p.stride < 0x4000) :
    ∃ q, (List.replicate n 0x2007).mapM readRegister p =
        ⟨.ok ((List.range n).map fun i => p.byteAt c (p.v.toNat + i * p.stride)), q, []⟩ ∧
      q.memory = p.memory ∧ q.readBuffer = p.bufferAfter c n := by
  induction n generalizing p with
  | zero =>
    rw [List.replicate_zero, List.mapM_nil]
    exact ⟨p, rfl, rfl, rfl⟩
  | succ n ih =>
    have hfirst := h 0 (Nat.succ_pos n)
    rw [Nat.zero_mul, Nat.add_zero] at hfirst
    have hplace := next_place hfirst.2
    have hrest : ∀ i < n, 0x3F00 ≤ p.stepAddress.v.toNat + i * p.stride ∧
        p.stepAddress.v.toNat + i * p.stride < 0x4000 := by
      intro i hi
      rw [hplace]
      exact h (i + 1) (Nat.succ_lt_succ hi)
    obtain ⟨q, hreads, hmemory, hbuffer⟩ := ih (p := { p with
      readBuffer := p.byteAt c (p.v.toNat - 0x1000), v := p.stepAddress.v }) hslot hrest
    refine ⟨q, ?_, hmemory, ?_⟩
    · rw [List.replicate_succ, List.mapM_cons,
        bind_of_quiet (readData_of_palette hslot hfirst.1 hfirst.2), bind_of_quiet hreads,
        map_byteAt hfirst.2]
      rfl
    · rw [hbuffer]
      cases n with
      | zero =>
        -- this was the last read
        dsimp only [bufferAfter]
        rw [Nat.zero_mul, Nat.add_zero]
      | succ n =>
        dsimp only [bufferAfter]
        rw [← hplace]
        rfl

/-- An upload changes, as far as later accesses go, the cells it writes alone. -/
theorem upload_eq (hslot : p.memory.cartridge = some c) (bs : List UInt8)
    (hlt : ∀ i < bs.length, s.toNat + i * p.stride < 0x4000)
    (hwritable : ∀ i < bs.length, Writable c (addressFrom p s i))
    (hdistinct : ∀ i j, i < j → j < bs.length →
      ¬SameCell p.memory.mirroring (addressFrom p s i) (addressFrom p s j)) :
    ∃ q c' es, upload s bs p = ⟨.ok (), q, es⟩ ∧ q.memory.cartridge = some c' ∧
      q.stride = p.stride ∧ q.readBuffer = p.readBuffer ∧
      (∀ i (hi : i < bs.length),
        q.byteAt c' (s.toNat + i * p.stride) = kept (addressFrom p s i) bs[i]) ∧
      ∀ a, (∀ i < bs.length, cellAt p.memory.mirroring a ≠
        cellAt p.memory.mirroring (s.toNat + i * p.stride)) → q.byteAt c' a = p.byteAt c a := by
  obtain ⟨v, es, hseek, hv⟩ := seek_eq s p
  -- unless there is nothing to upload, the address is taken as it is
  have hstart : ∀ i < bs.length, v.toNat = s.toNat := by
    intro i hi
    have hi := hlt i hi
    rw [hv]
    omega
  have hspread : (p.pointed v).Spread c bs.length := by
    refine ⟨?_, ?_, ?_⟩
    · intro i hi
      change v.toNat + i * p.stride < 0x4000
      rw [hstart i hi]
      exact hlt i hi
    · intro i hi
      change Writable c (UInt16.ofNat (v.toNat + i * p.stride))
      rw [hstart i hi]
      exact hwritable i hi
    · intro i j hij hj
      change cellAt p.memory.mirroring (v.toNat + i * p.stride) ≠
        cellAt p.memory.mirroring (v.toNat + j * p.stride)
      have hne := hdistinct i j hij hj
      rwa [sameCell_iff, toNat_addressFrom (hlt i (hij.trans hj)), toNat_addressFrom (hlt j hj),
        ← hstart j hj] at hne
  obtain ⟨m, c', v', es', hrun, hslot', hmirroring, hcells, hframe⟩ :=
    forM_writeData (p := p.pointed v) bs hslot hspread
  refine ⟨{ p.pointed v with memory := m, v := v' }, c', es ++ es', ?_, hslot', rfl, rfl, ?_, ?_⟩
  · unfold upload
    rw [bind_of_ok hseek, hrun]
  · intro i hi
    have hcell := hcells i hi
    change m.held c' (cellAt m.mirroring (s.toNat + i * p.stride)) = _
    rw [hmirroring]
    rw [pointed_v, pointed_stride, hstart i hi] at hcell
    exact hcell
  · intro a hother
    change m.held c' (cellAt m.mirroring a) = p.memory.held c (cellAt p.memory.mirroring a)
    rw [hmirroring]
    apply hframe
    intro i hi
    change _ ≠ cellAt p.memory.mirroring (v.toNat + i * p.stride)
    rw [hstart i hi]
    exact hother i hi

theorem map_range_eq {f : Nat → UInt8} {g : UInt8 → UInt8} (bs : List UInt8)
    (h : ∀ i (hi : i < bs.length), f i = g bs[i]) : (List.range bs.length).map f = bs.map g := by
  apply List.ext_getElem
  · simp
  · intro i hi hi'
    have hlt : i < bs.length := by simpa using hi'
    simpa using h i hlt

section

variable {bs : List UInt8} (hslot : p.memory.cartridge = some c)
  (hwritable : ∀ i < bs.length, Writable c (addressFrom p s i))
  (hdistinct : ∀ i j, i < j → j < bs.length →
    ¬SameCell p.memory.mirroring (addressFrom p s i) (addressFrom p s j))
include hslot hwritable hdistinct

theorem download_of_lt (hend : s.toNat + bs.length * p.stride < 0x3F00) : ∃ q es,
    (do upload s bs; download s (bs.length + 1)) p = ⟨.ok (p.readBuffer :: bs), q, es⟩ := by
  have hlt : ∀ i < bs.length, s.toNat + i * p.stride < 0x3F00 := by
    intro i hi
    exact lt_of_le_of_lt (Nat.add_le_add_left (Nat.mul_le_mul_right _ hi.le) _) hend
  obtain ⟨q, c', es, hupload, hslot', hstride, hbuffer, hcells, -⟩ := upload_eq hslot bs
    (fun i hi => lt_trans (hlt i hi) (by decide)) hwritable hdistinct
  obtain ⟨v, es', hseek, hv⟩ := seek_eq s q
  have hstart : v.toNat = s.toNat := by
    rw [hv]
    omega
  rw [← hstart, ← hstride] at hend
  obtain ⟨q', hreads⟩ := mapM_readData_of_lt (p := q.pointed v) hslot' hend
  -- below the colours every byte comes one read late, behind what the buffer had
  have hbytes : (List.range bs.length).map (fun i => q.byteAt c' (v.toNat + i * q.stride)) =
      bs.map id := by
    apply map_range_eq
    intro i hi
    have hplain : ¬0x3F00 ≤ (addressFrom p s i).toNat % 0x4000 := by
      have hi := hlt i hi
      rw [toNat_addressFrom (lt_trans hi (by decide))]
      omega
    rw [hstart, hstride, hcells i hi]
    exact if_neg hplain
  have hanswer : (q.readBuffer ::
      (List.range bs.length).map fun i => q.byteAt c' (v.toNat + i * q.stride)) =
      p.readBuffer :: bs := by
    rw [hbytes, hbuffer, List.map_id]
  refine ⟨q', es ++ (es' ++ []), ?_⟩
  rw [bind_of_ok hupload]
  unfold download
  rw [bind_of_ok hseek, hreads, ← hanswer]
  rfl

theorem download_of_palette
    (hpalette : ∀ i < bs.length,
      0x3F00 ≤ s.toNat + i * p.stride ∧ s.toNat + i * p.stride < 0x4000) :
    ∃ q es, (do upload s bs; download s bs.length) p = ⟨.ok (bs.map (· &&& 0x3F)), q, es⟩ ∧
      ∀ n, bs.length = n + 1 → p.memory.read (addressFrom p s n - 0x1000) = .ok q.readBuffer ∧
        q.memory.read (addressFrom p s n - 0x1000) = .ok q.readBuffer := by
  obtain ⟨q, c', es, hupload, hslot', hstride, -, hcells, hframe⟩ := upload_eq hslot bs
    (fun i hi => (hpalette i hi).2) hwritable hdistinct
  obtain ⟨v, es', hseek, hv⟩ := seek_eq s q
  have hstart : ∀ i < bs.length, v.toNat = s.toNat := by
    intro i hi
    have hi := hpalette i hi
    rw [hv]
    omega
  obtain ⟨q', hreads, hmemory, hbuffer⟩ := mapM_readData_of_palette (p := q.pointed v) hslot' (by
    intro i hi
    change 0x3F00 ≤ v.toNat + i * q.stride ∧ v.toNat + i * q.stride < 0x4000
    rw [hstart i hi, hstride]
    exact hpalette i hi)
  have hbytes : (List.range bs.length).map (fun i => q.byteAt c' (v.toNat + i * q.stride)) =
      bs.map (· &&& 0x3F) := by
    apply map_range_eq
    intro i hi
    have hcolour : 0x3F00 ≤ (addressFrom p s i).toNat % 0x4000 := by
      have hi := hpalette i hi
      rw [toNat_addressFrom hi.2]
      omega
    rw [hstart i hi, hstride, hcells i hi]
    exact if_pos hcolour
  refine ⟨q', es ++ (es' ++ []), ?_, ?_⟩
  · rw [bind_of_ok hupload]
    unfold download
    rw [bind_of_ok hseek, hreads, ← hbytes]
    rfl
  · intro n hn
    have hlast : n < bs.length := hn ▸ Nat.lt_succ_self n
    obtain ⟨hlow, hhigh⟩ := hpalette n hlast
    have hbelow : (addressFrom p s n - 0x1000).toNat = s.toNat + n * p.stride - 0x1000 := by
      have hplace := toNat_addressFrom hhigh
      rw [UInt16.toNat_sub_of_le, hplace]
      · rfl
      · apply UInt16.le_iff_toNat_le.mpr
        rw [hplace]
        exact le_trans (by decide) hlow
    -- no colour is a byte of the nametables, so that those are as before
    have hkept : q.byteAt c' (s.toNat + n * p.stride - 0x1000) =
        p.byteAt c (s.toNat + n * p.stride - 0x1000) := by
      apply hframe
      intro i hi
      have hi := hpalette i hi
      rw [cellAt_nametable (by omega) (by omega), cellAt_colour (by omega)]
      exact Cell.noConfusion
    have hleft : q'.readBuffer = q.byteAt c' (s.toNat + n * p.stride - 0x1000) := by
      rw [← hstart n hlast, ← hstride]
      rw [hn] at hbuffer
      exact hbuffer
    have hslot'' : q'.memory.cartridge = some c' := by
      rw [hmemory]
      exact hslot'
    have hsame : q'.byteAt c' (s.toNat + n * p.stride - 0x1000) =
        q.byteAt c' (s.toNat + n * p.stride - 0x1000) := by
      unfold byteAt
      rw [hmemory]
      rfl
    rw [read_eq_byteAt hslot, read_eq_byteAt hslot'', hbelow, hsame, hleft, hkept]
    exact ⟨rfl, rfl⟩

end

/-- What is uploaded to cells that can be written and are all different is what is downloaded. Below
the palette the downloaded bytes come one read late, after what was in the buffer before. In the
palette they come at once, cut to six bits, and the buffer is left with the byte of the nametables
that lies below the last of them. -/
theorem download_of_upload (hslot : p.memory.cartridge = some c) {bs : List UInt8}
    (hwritable : ∀ i < bs.length, Writable c (addressFrom p s i))
    (hdistinct : ∀ i j, i < j → j < bs.length →
      ¬SameCell p.memory.mirroring (addressFrom p s i) (addressFrom p s j)) :
    (s.toNat + bs.length * p.stride < 0x3F00 → ∃ q es,
      (do upload s bs; download s (bs.length + 1)) p = ⟨.ok (p.readBuffer :: bs), q, es⟩) ∧
    ((∀ i < bs.length, 0x3F00 ≤ s.toNat + i * p.stride ∧ s.toNat + i * p.stride < 0x4000) →
      ∃ q es, (do upload s bs; download s bs.length) p = ⟨.ok (bs.map (· &&& 0x3F)), q, es⟩ ∧
        ∀ n, bs.length = n + 1 →
          p.memory.read (addressFrom p s n - 0x1000) = .ok q.readBuffer ∧
          q.memory.read (addressFrom p s n - 0x1000) = .ok q.readBuffer) :=
  ⟨download_of_lt hslot hwritable hdistinct, download_of_palette hslot hwritable hdistinct⟩

/-- A column that goes on in another nametable, and two colours that are the last of the background
palettes and the first of all. -/
theorem download_of_upload_zeros :
    (∃ q es, (do upload 0x23E0 [1, 2, 3]; download 0x23E0 4)
      ({ ctrl := 0x04, readBuffer := 9, memory := unwritten } : Picture) =
        ⟨.ok [9, 1, 2, 3], q, es⟩) ∧
    ∃ q es, (do upload 0x3F0F [0x52, 0xFF]; download 0x3F0F 2)
      ({ memory := unwritten } : Picture) = ⟨.ok [0x12, 0x3F], q, es⟩ ∧
      unwritten.read 0x2F10 = .ok q.readBuffer := by
  constructor
  · apply (download_of_upload (c := zeros) rfl (by decide) ?_).1 (by decide)
    intro i j hij hj
    change j < 3 at hj
    interval_cases j <;> interval_cases i <;> decide
  · have hdistinct : ∀ i j, i < j → j < [(0x52 : UInt8), 0xFF].length →
        ¬SameCell unwritten.mirroring (addressFrom { memory := unwritten } 0x3F0F i)
          (addressFrom { memory := unwritten } 0x3F0F j) := by
      intro i j hij hj
      change j < 2 at hj
      interval_cases j <;> interval_cases i
      decide
    obtain ⟨q, es, hrun, hbelow⟩ := (download_of_upload (p := { memory := unwritten })
      (c := zeros) rfl (by decide) hdistinct).2 (by decide)
    exact ⟨q, es, hrun, (hbelow 1 rfl).1⟩

end Famicom.Picture
