import Famicom.Proofs.Picture.Compositor
import Famicom.Proofs.Picture.Stream

/-! The scroll register stands at a tile of the world, and walks through the world as a
line is drawn. What is fetched from where it stands is what the compositor looks up. -/

namespace Famicom.Picture

/-- A scroll register stands at a column of tiles in the world and at a line of pixels. -/
structure PointsTo (v : UInt16) (column line : Nat) : Prop where
  column_eq : 32 * (Scroll.parts v).tableX + (Scroll.parts v).column = column
  line_eq : 240 * (Scroll.parts v).tableY + 8 * (Scroll.parts v).row + (Scroll.parts v).fine = line
  row_le : (Scroll.parts v).row ≤ 29

variable {v t : UInt16} {column line : Nat}

theorem pointsTo_nextTile (h : PointsTo v column line) :
    PointsTo (Scroll.nextTile v) ((column + 1) % 64) line := by
  obtain ⟨hcolumn, hline, hrow⟩ := h
  obtain ⟨-, -, -, hx, -, hc⟩ := Scroll.bounded_parts v
  constructor <;> rw [Scroll.parts_nextTile] <;> split <;> dsimp only <;> omega

/-- One line down; the world is 480 lines high. -/
theorem pointsTo_nextLine (h : PointsTo v column line) :
    PointsTo (Scroll.nextLine v) column ((line + 1) % 480) := by
  obtain ⟨hcolumn, hline, hrow⟩ := h
  obtain ⟨-, hfine, hy, -, -, -⟩ := Scroll.bounded_parts v
  -- each part of the place, within a tile, into the next row of tiles and over the end of a table
  constructor <;> rw [Scroll.parts_nextLine] <;> split
  · exact hcolumn
  · split
    · exact hcolumn
    split <;> exact hcolumn
  · dsimp only
    omega
  · split
    · dsimp only
      omega
    split
    · omega
    · dsimp only
      omega
  · exact hrow
  · split
    · exact Nat.zero_le _
    split
    · exact Nat.zero_le _
    · dsimp only
      omega

theorem pointsTo_copyHorizontal (h : PointsTo v column line) :
    PointsTo (Scroll.copyHorizontal v t)
      (32 * (Scroll.parts t).tableX + (Scroll.parts t).column) line := by
  obtain ⟨-, hline, hrow⟩ := h
  constructor <;> rw [Scroll.parts_copyHorizontal]
  · exact hline
  · exact hrow

/-- After both copies the register stands where the frame starts. -/
theorem pointsTo_copyVertical
    (hx : 32 * (Scroll.parts v).tableX + (Scroll.parts v).column = column)
    (ht : (Scroll.parts t).row ≤ 29) :
    PointsTo (Scroll.copyVertical v t) column
      (240 * (Scroll.parts t).tableY + 8 * (Scroll.parts t).row + (Scroll.parts t).fine) := by
  constructor <;> rw [Scroll.parts_copyVertical]
  · exact hx
  · exact ht

namespace VideoMemory

variable {m : VideoMemory}

theorem tile_eq_nametableByte {addr : UInt16} {tableX tableY place : Nat} (hx : tableX < 2)
    (hy : tableY < 2) (hplace : place < 1024)
    (h : addr.toNat = 8192 + tableY * 2048 + tableX * 1024 + place) :
    m.tile addr = m.nametableByte tableX tableY place := by
  -- either mirroring drops one of the two bits that select a nametable
  have hindex : (nametableIndex m.mirroring addr).val =
      m.heldTable tableX tableY * 1024 + place := by
    unfold nametableIndex heldTable Picture.nametableByte
    cases m.mirroring <;> dsimp only <;> omega
  unfold tile VideoMemory.nametableByte
  rw [← hindex, Vector.getElem?_eq_getElem (nametableIndex m.mirroring addr).isLt]
  rfl

end VideoMemory

theorem tile_of_pointsTo {o : Picture} (h : PointsTo v column line) :
    o.memory.tile (Scroll.tileAddress v) = Compositor.tileAt o (8 * column) line := by
  obtain ⟨hcolumn, hline, hrow⟩ := h
  obtain ⟨-, hfine, hy, hx, -, hc⟩ := Scroll.bounded_parts v
  unfold Compositor.tileAt
  apply VideoMemory.tile_eq_nametableByte
  · omega
  · omega
  · omega
  · rw [Scroll.toNat_tileAddress]
    omega

/-- The two bits of a palette, taken out of an attribute byte. -/
theorem toNat_attributeBits (b : UInt8) {k : UInt8} (hk : k.toNat < 8) :
    (b >>> k &&& 0x03).toNat = b.toNat / 2 ^ k.toNat % 4 := by
  rw [UInt8.toNat_and, UInt8.toNat_shiftRight, Nat.mod_eq_of_lt hk, Nat.shiftRight_eq_div_pow]
  exact Nat.and_two_pow_sub_one_eq_mod _ 2

theorem palette_of_pointsTo {o : Picture} (h : PointsTo v column line) :
    (o.memory.tile (Scroll.attributeAddress v) >>> Scroll.attributeShift v &&& 0x03).toNat =
      Compositor.paletteAt o (8 * column) line := by
  obtain ⟨hcolumn, hline, hrow⟩ := h
  obtain ⟨-, hfine, hy, hx, -, hc⟩ := Scroll.bounded_parts v
  have hshift := Scroll.toNat_attributeShift v
  -- the byte of a block of four tiles by four, in which the shift selects one quarter
  have hbyte : o.memory.tile (Scroll.attributeAddress v) =
      o.memory.nametableByte (8 * column / 256) (line / 240)
        (960 + line % 240 / 32 * 8 + 8 * column % 256 / 32) := by
    apply VideoMemory.tile_eq_nametableByte
    · omega
    · omega
    · omega
    · rw [Scroll.toNat_attributeAddress]
      omega
  rw [toNat_attributeBits _ (by omega), hbyte, hshift]
  unfold Compositor.paletteAt
  rw [show line % 240 / 16 % 2 = (Scroll.parts v).row / 2 % 2 by omega,
    show 8 * column % 256 / 16 % 2 = (Scroll.parts v).column / 2 % 2 by omega]

theorem patternAddress_of_pointsTo {o p : Picture} (h : PointsTo p.v column line)
    (hctrl : p.ctrl = o.ctrl) (htile : p.latch.tile = Compositor.tileAt o (8 * column) line) :
    p.backgroundPatternAddress.toNat = Compositor.rowAt o (8 * column) line := by
  obtain ⟨hcolumn, hline, hrow⟩ := h
  have hfine := (Scroll.bounded_parts p.v).fine_lt
  rw [toNat_backgroundPatternAddress, hctrl, htile]
  unfold Compositor.rowAt
  rw [show (Scroll.parts p.v).fine = line % 8 by omega]

end Famicom.Picture
