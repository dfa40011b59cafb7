import Famicom.Proofs.Bits
import Famicom.Picture.Scroll

/-! The scroll registers as numbers. A register stands for a column of tiles and
a line of pixels of the four nametables; the steps of the pipeline move through
them and wrap at their edges. -/

namespace Famicom.Picture.Scroll

theorem and_add_or (a b : Nat) : (a &&& b) + (a ||| b) = a + b := by
  induction a using Nat.strongRecOn generalizing b with
  | ind a ih =>
    rcases Nat.eq_zero_or_pos a with rfl | ha
    · rw [Nat.zero_and, Nat.zero_or]
    -- halving drops the lowest bit, and for that bit alone the sum is plain
    have hrec := ih (a / 2) (by omega) (b / 2)
    rw [← Nat.and_div_two, ← Nat.or_div_two] at hrec
    have hand := @Nat.and_mod_two_eq_one a b
    have hor := @Nat.or_mod_two_eq_one a b
    omega

theorem two_mul_and_add_xor (a b : Nat) : 2 * (a &&& b) + (a ^^^ b) = a + b := by
  induction a using Nat.strongRecOn generalizing b with
  | ind a ih =>
    rcases Nat.eq_zero_or_pos a with rfl | ha
    · rw [Nat.zero_and, Nat.zero_xor]
    have hrec := ih (a / 2) (by omega) (b / 2)
    rw [← Nat.and_div_two, ← Nat.xor_div_two] at hrec
    have hand := @Nat.and_mod_two_eq_one a b
    have hxor := @Nat.xor_mod_two_eq_one a b
    omega

theorem toNat_and_not (v m : UInt16) : (v &&& ~~~m).toNat = v.toNat - (v.toNat &&& m.toNat) := by
  -- what is cut out is flipped away, and a flip of bits that are set subtracts them
  have hx : v &&& ~~~m = v ^^^ (v &&& m) := by
    apply UInt16.toBitVec_inj.mp
    ext i hi
    simp only [UInt16.toBitVec_and, UInt16.toBitVec_not, UInt16.toBitVec_xor, BitVec.getElem_and,
      BitVec.getElem_not, BitVec.getElem_xor]
    cases v.toBitVec[i] <;> cases m.toBitVec[i] <;> rfl
  have hsum := two_mul_and_add_xor v.toNat (v.toNat &&& m.toNat)
  rw [← Nat.and_assoc, Nat.and_self] at hsum
  rw [hx, UInt16.toNat_xor, UInt16.toNat_and]
  omega

/-- Replacing the bits under a mask. -/
theorem toNat_replace (v x m : UInt16) (hx : x &&& m = x) :
    (v &&& ~~~m ||| x).toNat = v.toNat - (v.toNat &&& m.toNat) + x.toNat := by
  -- the place for `x` is empty, so that putting it there adds it
  have hdisjoint : (v &&& ~~~m) &&& x = 0 := by
    rw [← hx, show (v &&& ~~~m) &&& (x &&& m) = v &&& x &&& (m &&& ~~~m) by ac_rfl,
      UInt16.and_not_self, UInt16.and_zero]
  have hsum := and_add_or (v &&& ~~~m).toNat x.toNat
  rw [← UInt16.toNat_and, hdisjoint, ← UInt16.toNat_or, toNat_and_not] at hsum
  simpa using hsum

theorem and_coarseXBits (n : Nat) : n &&& coarseXBits.toNat = n % 32 := by
  rw [show coarseXBits.toNat = (2 ^ 5 - 1) * 2 ^ 0 from rfl, Bits.and_digit, Nat.pow_zero,
    Nat.mul_one, Nat.div_one]
  rfl

theorem and_coarseYBits (n : Nat) : n &&& coarseYBits.toNat = n / 32 % 32 * 32 :=
  Bits.and_digit n 5 5

theorem and_fineYBits (n : Nat) : n &&& fineYBits.toNat = n / 4096 % 8 * 4096 :=
  Bits.and_digit n 12 3

theorem and_nametableXBit (n : Nat) : n &&& nametableXBit.toNat = n / 1024 % 2 * 1024 :=
  Bits.and_digit n 10 1

theorem and_nametableYBit (n : Nat) : n &&& nametableYBit.toNat = n / 2048 % 2 * 2048 :=
  Bits.and_digit n 11 1

theorem toNat_coarseX (v : UInt16) : (coarseX v).toNat = v.toNat % 32 := by
  rw [coarseX, UInt16.toNat_and, and_coarseXBits]

theorem toNat_coarseY (v : UInt16) : (coarseY v).toNat = v.toNat / 32 % 32 := by
  rw [coarseY, UInt16.toNat_shiftRight, UInt16.toNat_and, and_coarseYBits,
    show UInt16.toNat 5 % 16 = 5 from rfl, Nat.shiftRight_eq_div_pow]
  omega

theorem toNat_fineY (v : UInt16) : (fineY v).toNat = v.toNat / 4096 % 8 := by
  rw [fineY, UInt16.toNat_shiftRight, UInt16.toNat_and, and_fineYBits,
    show UInt16.toNat 12 % 16 = 12 from rfl, Nat.shiftRight_eq_div_pow]
  omega

theorem and_or_of_disjoint (n a b : Nat) (h : a &&& b = 0) :
    n &&& (a ||| b) = (n &&& a) + (n &&& b) := by
  have hsum := and_add_or (n &&& a) (n &&& b)
  rw [show (n &&& a) &&& (n &&& b) = n &&& n &&& (a &&& b) by ac_rfl, h, Nat.and_zero,
    ← Nat.and_or_distrib_left] at hsum
  omega

theorem and_horizontalBits (n : Nat) :
    n &&& horizontalBits.toNat = n / 1024 % 2 * 1024 + n % 32 := by
  rw [horizontalBits, UInt16.toNat_or, and_or_of_disjoint _ _ _ rfl, and_nametableXBit,
    and_coarseXBits]

theorem and_verticalBits (n : Nat) : n &&& verticalBits.toNat =
    n / 4096 % 8 * 4096 + n / 2048 % 2 * 2048 + n / 32 % 32 * 32 := by
  rw [verticalBits, UInt16.toNat_or, UInt16.toNat_or, and_or_of_disjoint _ _ _ rfl,
    and_or_of_disjoint _ _ _ rfl, and_fineYBits, and_nametableYBit, and_coarseYBits]

/-- The digits of a scroll register from the top: a bit that is never used, the line within the
tile, the two bits that select a nametable, and the row and the column of the tile in it. -/
@[ext]
structure Parts where
  top : Nat
  fine : Nat
  tableY : Nat
  tableX : Nat
  row : Nat
  column : Nat

def parts (v : UInt16) : Parts where
  top := v.toNat / 32768
  fine := v.toNat / 4096 % 8
  tableY := v.toNat / 2048 % 2
  tableX := v.toNat / 1024 % 2
  row := v.toNat / 32 % 32
  column := v.toNat % 32

/-- Digits within their bounds. -/
structure Parts.Bounded (d : Parts) : Prop where
  top_lt : d.top < 2
  fine_lt : d.fine < 8
  tableY_lt : d.tableY < 2
  tableX_lt : d.tableX < 2
  row_lt : d.row < 32
  column_lt : d.column < 32

def Parts.value (d : Parts) : Nat :=
  d.top * 32768 + d.fine * 4096 + d.tableY * 2048 + d.tableX * 1024 + d.row * 32 + d.column

theorem bounded_parts (v : UInt16) : (parts v).Bounded := by
  have hlt := v.toNat_lt
  constructor <;> dsimp only [parts] <;> omega

theorem toNat_eq_value (v : UInt16) : v.toNat = (parts v).value := by
  dsimp only [parts, Parts.value]
  omega

theorem parts_of_toNat {v : UInt16} {d : Parts} (hd : d.Bounded) (h : v.toNat = d.value) :
    parts v = d := by
  obtain ⟨htop, hfine, hy, hx, hrow, hcolumn⟩ := hd
  unfold Parts.value at h
  ext <;> dsimp only [parts] <;> omega

theorem parts_nextTile (v : UInt16) : parts (nextTile v) =
    if (parts v).column = 31 then
      { parts v with column := 0, tableX := 1 - (parts v).tableX }
    else { parts v with column := (parts v).column + 1 } := by
  have hv := toNat_eq_value v
  have hb := bounded_parts v
  have hcolumn : coarseX v = 31 ↔ (parts v).column = 31 := by
    rw [← UInt16.toNat_inj, toNat_coarseX]
    rfl
  unfold nextTile
  simp only [hcolumn]
  generalize hd : parts v = d at *
  obtain ⟨htop, hfine, hy, hx, hrow, hcol⟩ := hb
  split
  · rename_i h31
    -- behind the last column the column is cleared and the nametable flipped
    have hcut := toNat_and_not v coarseXBits
    have hsum := two_mul_and_add_xor (v &&& ~~~coarseXBits).toNat nametableXBit.toNat
    rw [and_coarseXBits] at hcut
    rw [and_nametableXBit, ← UInt16.toNat_xor, hcut,
      show nametableXBit.toNat = 1024 from rfl] at hsum
    apply parts_of_toNat
    · constructor <;> dsimp only <;> omega
    · dsimp only [Parts.value] at hv ⊢
      omega
  · apply parts_of_toNat
    · constructor <;> dsimp only <;> omega
    · rw [UInt16.toNat_add, show UInt16.toNat 1 = 1 from rfl]
      dsimp only [Parts.value] at hv ⊢
      omega

theorem parts_nextRow (v : UInt16) : parts (nextRow v) =
    if (parts v).row = 29 then
      { parts v with row := 0, tableY := 1 - (parts v).tableY }
    else if (parts v).row = 31 then { parts v with row := 0 }
    else { parts v with row := (parts v).row + 1 } := by
  have hv := toNat_eq_value v
  have hb := bounded_parts v
  have hcut := toNat_and_not v coarseYBits
  have hrow : ∀ k : UInt16, coarseY v = k ↔ (parts v).row = k.toNat := by
    intro k
    rw [← UInt16.toNat_inj, toNat_coarseY]
    rfl
  have hrow' : (coarseY v).toNat = (parts v).row := toNat_coarseY v
  rw [and_coarseYBits] at hcut
  unfold nextRow
  simp only [hrow]
  rw [show UInt16.toNat 29 = 29 from rfl, show UInt16.toNat 31 = 31 from rfl]
  generalize parts v = d at *
  obtain ⟨htop, hfine, hy, hx, hrow, hcol⟩ := hb
  -- the last row of a table, the last one there is, and all others
  split
  · have hsum := two_mul_and_add_xor (v &&& ~~~coarseYBits).toNat nametableYBit.toNat
    rw [and_nametableYBit, ← UInt16.toNat_xor, hcut,
      show nametableYBit.toNat = 2048 from rfl] at hsum
    apply parts_of_toNat
    · constructor <;> dsimp only <;> omega
    · dsimp only [Parts.value] at hv ⊢
      omega
  split
  · apply parts_of_toNat
    · constructor <;> dsimp only <;> omega
    · dsimp only [Parts.value] at hv ⊢
      omega
  · have hshift : ((coarseY v + 1) <<< 5).toNat = (d.row + 1) * 32 := by
      rw [UInt16.toNat_shiftLeft, UInt16.toNat_add, hrow',
        show UInt16.toNat 1 = 1 from rfl, show UInt16.toNat 5 % 16 = 5 from rfl,
        Nat.shiftLeft_eq]
      omega
    have hmask : (coarseY v + 1) <<< 5 &&& coarseYBits = (coarseY v + 1) <<< 5 := by
      rw [← UInt16.toNat_inj, UInt16.toNat_and, hshift, and_coarseYBits]
      omega
    apply parts_of_toNat
    · constructor <;> dsimp only <;> omega
    · rw [toNat_replace _ _ _ hmask, hshift, and_coarseYBits]
      dsimp only [Parts.value] at hv ⊢
      omega

theorem parts_nextLine (v : UInt16) : parts (nextLine v) =
    if (parts v).fine < 7 then { parts v with fine := (parts v).fine + 1 }
    else if (parts v).row = 29 then
      { parts v with fine := 0, row := 0, tableY := 1 - (parts v).tableY }
    else if (parts v).row = 31 then { parts v with fine := 0, row := 0 }
    else { parts v with fine := 0, row := (parts v).row + 1 } := by
  have hv := toNat_eq_value v
  have hb := bounded_parts v
  have hfine : fineY v < 7 ↔ (parts v).fine < 7 := by
    rw [UInt16.lt_iff_toNat_lt, toNat_fineY]
    rfl
  -- behind the last line of a tile the fine part is cleared before the row moves on
  have hclear : parts (v &&& ~~~fineYBits) = { parts v with fine := 0 } := by
    have hcut := toNat_and_not v fineYBits
    rw [and_fineYBits] at hcut
    apply parts_of_toNat
    · exact { hb with fine_lt := Nat.succ_pos 7 }
    · rw [hcut]
      dsimp only [parts, Parts.value] at hv ⊢
      omega
  unfold nextLine
  simp only [hfine]
  split
  · apply parts_of_toNat
    · exact { hb with fine_lt := by dsimp only; omega }
    · have hlt := v.toNat_lt
      rw [UInt16.toNat_add, show UInt16.toNat 4096 = 4096 from rfl]
      obtain ⟨htop, -, hy, hx, hrow, hcol⟩ := hb
      dsimp only [Parts.value] at hv ⊢
      omega
  · rw [parts_nextRow, hclear]

theorem parts_copyHorizontal (v t : UInt16) : parts (copyHorizontal v t) =
    { parts v with tableX := (parts t).tableX, column := (parts t).column } := by
  have hv := toNat_eq_value v
  have hb := bounded_parts v
  have ht := bounded_parts t
  apply parts_of_toNat
  · exact { hb with tableX_lt := ht.tableX_lt, column_lt := ht.column_lt }
  · rw [copyHorizontal, toNat_replace _ _ _ (by rw [UInt16.and_assoc, UInt16.and_self]),
      UInt16.toNat_and, and_horizontalBits, and_horizontalBits]
    dsimp only [parts, Parts.value] at hv ⊢
    omega

theorem parts_copyVertical (v t : UInt16) : parts (copyVertical v t) =
    { parts v with
      fine := (parts t).fine, tableY := (parts t).tableY, row := (parts t).row } := by
  have hv := toNat_eq_value v
  have hb := bounded_parts v
  have ht := bounded_parts t
  apply parts_of_toNat
  · exact { hb with
      fine_lt := ht.fine_lt, tableY_lt := ht.tableY_lt, row_lt := ht.row_lt }
  · rw [copyVertical, toNat_replace _ _ _ (by rw [UInt16.and_assoc, UInt16.and_self]),
      UInt16.toNat_and, and_verticalBits, and_verticalBits]
    dsimp only [parts, Parts.value] at hv ⊢
    omega

/-- A control write chooses the nametable by its two lowest bits. -/
theorem parts_selectNametable (t : UInt16) (ctrl : UInt8) : parts (selectNametable t ctrl) =
    { parts t with tableY := ctrl.toNat / 2 % 2, tableX := ctrl.toNat % 2 } := by
  have ht := toNat_eq_value t
  have hb := bounded_parts t
  have hbits : ∀ n, n &&& nametableBits.toNat = n / 1024 % 4 * 1024 :=
    fun n => Bits.and_digit n 10 2
  have hselect : ((ctrl &&& 0x03).toUInt16 <<< 10).toNat = ctrl.toNat % 4 * 1024 := by
    rw [UInt16.toNat_shiftLeft, UInt8.toNat_toUInt16, UInt8.toNat_and, Nat.shiftLeft_eq,
      show UInt8.toNat 3 = 2 ^ 2 - 1 from rfl, Nat.and_two_pow_sub_one_eq_mod,
      show UInt16.toNat 10 % 16 = 10 from rfl]
    omega
  have hmask : (ctrl &&& 0x03).toUInt16 <<< 10 &&& nametableBits =
      (ctrl &&& 0x03).toUInt16 <<< 10 := by
    rw [← UInt16.toNat_inj, UInt16.toNat_and, hselect, hbits]
    omega
  apply parts_of_toNat
  · exact { hb with
      tableY_lt := Nat.mod_lt _ Nat.two_pos, tableX_lt := Nat.mod_lt _ Nat.two_pos }
  · rw [selectNametable, toNat_replace _ _ _ hmask, hselect, hbits]
    dsimp only [parts, Parts.value] at ht ⊢
    omega

/-- The first scroll write sets the column by its five high bits. -/
theorem parts_scrollX (t : UInt16) (data : UInt8) : parts (scrollX t data).1 =
    { parts t with column := data.toNat / 8 } := by
  have ht := toNat_eq_value t
  have hb := bounded_parts t
  have hdata := data.toNat_lt
  have hcolumn : (data >>> 3).toUInt16.toNat = data.toNat / 8 := by
    rw [UInt8.toNat_toUInt16, UInt8.toNat_shiftRight, show UInt8.toNat 3 % 8 = 3 from rfl,
      Nat.shiftRight_eq_div_pow]
  have hmask : (data >>> 3).toUInt16 &&& coarseXBits = (data >>> 3).toUInt16 := by
    rw [← UInt16.toNat_inj, UInt16.toNat_and, hcolumn, and_coarseXBits]
    omega
  apply parts_of_toNat
  · exact { hb with column_lt := by dsimp only; omega }
  · rw [scrollX, toNat_replace _ _ _ hmask, hcolumn, and_coarseXBits]
    dsimp only [parts, Parts.value] at ht ⊢
    omega

theorem fineX_scrollX (t : UInt16) (data : UInt8) : (scrollX t data).2.toNat = data.toNat % 8 := by
  change (data &&& 0x07).toNat = data.toNat % 8
  rw [UInt8.toNat_and]
  exact Nat.and_two_pow_sub_one_eq_mod _ 3

/-- The second scroll write sets the row by its five high bits and the line by the others. -/
theorem parts_scrollY (t : UInt16) (data : UInt8) : parts (scrollY t data) =
    { parts t with fine := data.toNat % 8, row := data.toNat / 8 } := by
  have ht := toNat_eq_value t
  have hb := bounded_parts t
  have hdata := data.toNat_lt
  have hbits : ∀ n, n &&& (fineYBits ||| coarseYBits).toNat =
      n / 4096 % 8 * 4096 + n / 32 % 32 * 32 := by
    intro n
    rw [UInt16.toNat_or, and_or_of_disjoint _ _ _ rfl, and_fineYBits, and_coarseYBits]
  have hfine : ((data &&& 0x07).toUInt16 <<< 12).toNat = data.toNat % 8 * 4096 := by
    rw [UInt16.toNat_shiftLeft, UInt8.toNat_toUInt16, UInt8.toNat_and, Nat.shiftLeft_eq,
      show UInt8.toNat 7 = 2 ^ 3 - 1 from rfl, Nat.and_two_pow_sub_one_eq_mod,
      show UInt16.toNat 12 % 16 = 12 from rfl]
    omega
  have hcoarse : ((data &&& 0xF8).toUInt16 <<< 2).toNat = data.toNat / 8 * 32 := by
    rw [UInt16.toNat_shiftLeft, UInt8.toNat_toUInt16, UInt8.toNat_and, Nat.shiftLeft_eq,
      show UInt8.toNat 0xF8 = (2 ^ 5 - 1) * 2 ^ 3 from rfl, Bits.and_digit,
      show UInt16.toNat 2 % 16 = 2 from rfl]
    omega
  -- the line lies above the row, so that putting them together adds them
  have hboth : ((data &&& 0x07).toUInt16 <<< 12 ||| (data &&& 0xF8).toUInt16 <<< 2).toNat =
      data.toNat % 8 * 4096 + data.toNat / 8 * 32 := by
    rw [UInt16.toNat_or, hfine, hcoarse,
      show data.toNat % 8 * 4096 = 2 ^ 12 * (data.toNat % 8) from Nat.mul_comm _ _]
    exact (Nat.two_pow_add_eq_or_of_lt (by omega) _).symm
  have hmask : ((data &&& 0x07).toUInt16 <<< 12 ||| (data &&& 0xF8).toUInt16 <<< 2) &&&
      (fineYBits ||| coarseYBits) =
      (data &&& 0x07).toUInt16 <<< 12 ||| (data &&& 0xF8).toUInt16 <<< 2 := by
    have hline : data.toNat % 8 < 8 := Nat.mod_lt _ (by decide)
    rw [← UInt16.toNat_inj, UInt16.toNat_and, hboth, hbits]
    generalize data.toNat % 8 = line at hline ⊢
    omega
  apply parts_of_toNat
  · exact { hb with
      fine_lt := Nat.mod_lt _ (by decide), row_lt := by dsimp only; omega }
  · rw [scrollY, UInt16.or_assoc, toNat_replace _ _ _ hmask, hboth, hbits]
    dsimp only [parts, Parts.value] at ht ⊢
    omega

/-- The first address write replaces all but the low byte. -/
theorem toNat_addressHigh (t : UInt16) (data : UInt8) :
    (addressHigh t data).toNat = data.toNat % 64 * 256 + t.toNat % 256 := by
  have hhigh : ((data &&& 0x3F).toUInt16 <<< 8).toNat = 2 ^ 8 * (data.toNat % 64) := by
    rw [UInt16.toNat_shiftLeft, UInt8.toNat_toUInt16, UInt8.toNat_and, Nat.shiftLeft_eq,
      show UInt8.toNat 0x3F = 2 ^ 6 - 1 from rfl, Nat.and_two_pow_sub_one_eq_mod,
      show UInt16.toNat 8 % 16 = 8 from rfl]
    omega
  have hlow : (t &&& 0x00FF).toNat = t.toNat % 2 ^ 8 := by
    rw [UInt16.toNat_and]
    exact Nat.and_two_pow_sub_one_eq_mod _ 8
  have hor := Nat.two_pow_add_eq_or_of_lt (Nat.mod_lt t.toNat (Nat.two_pow_pos 8))
    (data.toNat % 64)
  rw [addressHigh, UInt16.or_comm, UInt16.toNat_or, hhigh, hlow, ← hor]
  omega

/-- The second address write replaces the low byte. -/
theorem toNat_addressLow (t : UInt16) (data : UInt8) :
    (addressLow t data).toNat = t.toNat / 256 % 128 * 256 + data.toNat := by
  have hhigh : (t &&& 0x7F00).toNat = 2 ^ 8 * (t.toNat / 256 % 128) := by
    rw [UInt16.toNat_and, show UInt16.toNat 0x7F00 = (2 ^ 7 - 1) * 2 ^ 8 from rfl, Bits.and_digit,
      Nat.mul_comm]
    rfl
  have hor := Nat.two_pow_add_eq_or_of_lt (i := 8) data.toNat_lt (t.toNat / 256 % 128)
  rw [addressLow, UInt16.toNat_or, UInt8.toNat_toUInt16, hhigh, ← hor]
  omega

theorem toNat_tileAddress (v : UInt16) : (tileAddress v).toNat =
    8192 + (parts v).tableY * 2048 + (parts v).tableX * 1024 + (parts v).row * 32 +
      (parts v).column := by
  -- the twelve low bits lie below the bit of the base, so that the sum has no carry
  have hmask : v.toNat &&& 0x0FFF = v.toNat % 4096 := Nat.and_two_pow_sub_one_eq_mod _ 12
  have hsum := and_add_or 0x2000 (v.toNat &&& 0x0FFF)
  rw [show 0x2000 &&& (v.toNat &&& 0x0FFF) = v.toNat &&& (0x2000 &&& 0x0FFF) by ac_rfl,
    show 0x2000 &&& 0x0FFF = 0 from rfl, Nat.and_zero, hmask] at hsum
  rw [tileAddress, UInt16.toNat_or, UInt16.toNat_and]
  change 0x2000 ||| (v.toNat &&& 0x0FFF) = _
  rw [hmask]
  dsimp only [parts]
  omega

theorem toNat_attributeAddress (v : UInt16) : (attributeAddress v).toNat =
    8192 + (parts v).tableY * 2048 + (parts v).tableX * 1024 + 960 + (parts v).row / 4 * 8 +
      (parts v).column / 4 := by
  have hb := bounded_parts v
  have htable : v.toNat &&& nametableBits.toNat =
      ((parts v).tableY * 2 + (parts v).tableX) * 1024 := by
    rw [show nametableBits.toNat = (2 ^ 2 - 1) * 2 ^ 10 from rfl, Bits.and_digit]
    dsimp only [parts]
    omega
  have hrow : v.toNat / 16 &&& 0x38 = (parts v).row / 4 * 8 := by
    rw [show 0x38 = (2 ^ 3 - 1) * 2 ^ 3 from rfl, Bits.and_digit, Nat.div_div_eq_div_mul]
    dsimp only [parts]
    omega
  have hcolumn : v.toNat / 4 &&& 0x07 = (parts v).column / 4 := by
    rw [show 0x07 = 2 ^ 3 - 1 from rfl, Nat.and_two_pow_sub_one_eq_mod]
    dsimp only [parts]
    omega
  have hbase := and_add_or 0x23C0 (v.toNat &&& nametableBits.toNat)
  rw [show 0x23C0 &&& (v.toNat &&& nametableBits.toNat) =
      v.toNat &&& (0x23C0 &&& nametableBits.toNat) by ac_rfl,
    show 0x23C0 &&& nametableBits.toNat = 0 from rfl, Nat.and_zero, htable] at hbase
  obtain ⟨-, -, hy, hx, hr, hc⟩ := hb
  generalize hnumber : (parts v).tableY * 2 + (parts v).tableX = table at htable hbase
  -- each summand lies below the lowest bit of those before it
  have hsix := Nat.two_pow_add_eq_or_of_lt (i := 6) (b := (parts v).row / 4 * 8) (by omega)
    (143 + table * 16)
  have hthree := Nat.two_pow_add_eq_or_of_lt (i := 3) (b := (parts v).column / 4) (by omega)
    (1144 + table * 128 + (parts v).row / 4)
  rw [attributeAddress, UInt16.toNat_or, UInt16.toNat_or, UInt16.toNat_or, UInt16.toNat_and,
    UInt16.toNat_and, UInt16.toNat_and, UInt16.toNat_shiftRight, UInt16.toNat_shiftRight,
    Nat.shiftRight_eq_div_pow, Nat.shiftRight_eq_div_pow]
  change 0x23C0 ||| (v.toNat &&& nametableBits.toNat) ||| (v.toNat / 16 &&& 0x38) |||
    (v.toNat / 4 &&& 0x07) = _
  rw [hrow, hcolumn, htable, show 0x23C0 ||| table * 1024 = 2 ^ 6 * (143 + table * 16) by omega,
    ← hsix, show 2 ^ 6 * (143 + table * 16) + (parts v).row / 4 * 8 =
      2 ^ 3 * (1144 + table * 128 + (parts v).row / 4) by omega, ← hthree]
  omega

theorem toNat_attributeShift (v : UInt16) : (attributeShift v).toNat =
    (parts v).row / 2 % 2 * 4 + (parts v).column / 2 % 2 * 2 := by
  have hrow : (coarseY v).toNat &&& 2 = (parts v).row / 2 % 2 * 2 := by
    rw [show 2 = (2 ^ 1 - 1) * 2 ^ 1 from rfl, Bits.and_digit, toNat_coarseY]
    rfl
  have hcolumn : (coarseX v).toNat &&& 2 = (parts v).column / 2 % 2 * 2 := by
    rw [show 2 = (2 ^ 1 - 1) * 2 ^ 1 from rfl, Bits.and_digit, toNat_coarseX]
    rfl
  -- bit 1 of the row moves up to bit 2, beside bit 1 of the column
  have hor := Nat.two_pow_add_eq_or_of_lt (i := 2) (b := (parts v).column / 2 % 2 * 2)
    (by omega) ((parts v).row / 2 % 2)
  rw [attributeShift]
  simp only [UInt16.toNat_toUInt8, UInt16.toNat_or, UInt16.toNat_shiftLeft, UInt16.toNat_and,
    Nat.shiftLeft_eq, show UInt16.toNat 2 = 2 from rfl, show UInt16.toNat 1 % 16 = 1 from rfl,
    hrow, hcolumn]
  rw [show (parts v).row / 2 % 2 * 2 * 2 ^ 1 % 2 ^ 16 = 2 ^ 2 * ((parts v).row / 2 % 2) by omega,
    ← hor]
  omega

end Famicom.Picture.Scroll
