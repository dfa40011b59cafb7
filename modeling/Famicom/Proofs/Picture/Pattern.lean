import Famicom.Picture.Dot
import Famicom.Proofs.Action
import Famicom.Proofs.Picture.Scroll

/-! Where the patterns of tiles and sprites lie, and the pixels in them. All of them
lie within the pattern tables, so that with a cartridge in the slot no fetch fails. -/

namespace Famicom.Picture

namespace VideoMemory

/-- A byte of the pattern tables. -/
def patternByte (m : VideoMemory) (place : Nat) : UInt8 :=
  match m.cartridge with
  | none => 0
  | some c => c.chr[place]?.getD 0

theorem pattern_eq_patternByte {m : VideoMemory} {addr : UInt16} (hm : m.cartridge.isSome)
    (ha : addr.toNat < 0x2000) : m.pattern addr = .ok (m.patternByte addr.toNat) := by
  obtain ⟨c, hc⟩ := Option.isSome_iff_exists.mp hm
  unfold pattern patternByte
  rw [hc]
  dsimp only
  unfold Cartridge.readPattern
  rw [dif_pos ha, Vector.getElem?_eq_getElem ha]
  rfl

/-- Both halves of a row are there if the row lies within the pattern tables. -/
theorem pattern_row {m : VideoMemory} {addr : UInt16} (hm : m.cartridge.isSome)
    (ha : addr.toNat + 8 < 0x2000) : m.pattern addr = .ok (m.patternByte addr.toNat) ∧
      m.pattern (addr + 8) = .ok (m.patternByte (addr.toNat + 8)) := by
  have height : (addr + 8).toNat = addr.toNat + 8 := by
    rw [UInt16.toNat_add, show UInt16.toNat 8 = 8 from rfl]
    omega
  refine ⟨pattern_eq_patternByte hm (by omega), ?_⟩
  rw [← height]
  exact pattern_eq_patternByte hm (by omega)

end VideoMemory

namespace Control

/-- The pattern table that a control bit selects, as a number. -/
def tableOf (on : Bool) : Nat := if on then 4096 else 0

theorem tableOf_le (on : Bool) : tableOf on ≤ 4096 := by
  cases on <;> decide

theorem toNat_backgroundTable (ctrl : UInt8) :
    (backgroundTable ctrl).toNat = tableOf (ctrl &&& 0x10 != 0) := by
  unfold backgroundTable tableOf
  split <;> rfl

theorem toNat_spriteTable (ctrl : UInt8) :
    (spriteTable ctrl).toNat = tableOf (ctrl &&& 0x08 != 0) := by
  unfold spriteTable tableOf
  split <;> rfl

end Control

theorem toNat_backgroundPatternAddress (p : Picture) : p.backgroundPatternAddress.toNat =
    Control.tableOf (p.ctrl &&& 0x10 != 0) + p.latch.tile.toNat * 16 +
      (Scroll.parts p.v).fine := by
  have htable := Control.tableOf_le (p.ctrl &&& 0x10 != 0)
  have htile := p.latch.tile.toNat_lt
  have hfine := (Scroll.bounded_parts p.v).fine_lt
  have hfineY : (Scroll.fineY p.v).toNat = (Scroll.parts p.v).fine := Scroll.toNat_fineY p.v
  unfold backgroundPatternAddress
  rw [UInt16.toNat_add, UInt16.toNat_add, UInt16.toNat_mul, hfineY,
    Control.toNat_backgroundTable, UInt8.toNat_toUInt16, show UInt16.toNat 16 = 16 from rfl]
  omega

theorem backgroundPatternAddress_lt (p : Picture) :
    p.backgroundPatternAddress.toNat + 8 < 0x2000 := by
  have htable := Control.tableOf_le (p.ctrl &&& 0x10 != 0)
  have htile := p.latch.tile.toNat_lt
  have hfine := (Scroll.bounded_parts p.v).fine_lt
  rw [toNat_backgroundPatternAddress]
  omega

/-- The two bits of a pixel, one from each half of a pattern. -/
def patternBits (low high : UInt8) (k : Nat) : Nat :=
  2 * (high.toNat / 2 ^ k % 2) + low.toNat / 2 ^ k % 2

theorem patternBits_lt (low high : UInt8) (k : Nat) : patternBits low high k < 4 := by
  unfold patternBits
  omega

theorem toNat_bit (b : UInt8) {k : Nat} (hk : k < 8) :
    (b >>> UInt8.ofNat k &&& 1).toNat = b.toNat / 2 ^ k % 2 := by
  rw [UInt8.toNat_and, UInt8.toNat_shiftRight, UInt8.toNat_ofNat', Nat.mod_mod_of_dvd _ (by decide),
    Nat.mod_eq_of_lt hk, Nat.shiftRight_eq_div_pow]
  exact Nat.and_two_pow_sub_one_eq_mod _ 1

theorem toNat_or_bits (low high : UInt8) {k : Nat} (hk : k < 8) :
    ((high >>> UInt8.ofNat k &&& 1) <<< 1 ||| (low >>> UInt8.ofNat k &&& 1)).toNat =
      patternBits low high k := by
  -- the upper bit stands above the lower one, which is less than two
  have hsum := Nat.two_pow_add_eq_or_of_lt (i := 1) (b := low.toNat / 2 ^ k % 2)
    (Nat.mod_lt _ Nat.two_pos) (high.toNat / 2 ^ k % 2)
  have hlt := Nat.mod_lt (high.toNat / 2 ^ k) Nat.two_pos
  rw [UInt8.toNat_or, UInt8.toNat_shiftLeft, toNat_bit _ hk, toNat_bit _ hk,
    show UInt8.toNat 1 % 8 = 1 from rfl, Nat.shiftLeft_eq, Nat.mod_eq_of_lt (by omega),
    Nat.mul_comm, ← hsum]
  rfl

namespace Sprite

/-- The lines that a sprite covers. -/
def height (s : Sprite) : Nat := if s.tall then 16 else 8

theorem patternRow_lt {s : Sprite} (h : s.row < s.height) : s.patternRow < s.height := by
  unfold patternRow height at *
  cases hs : s.tall
  · rw [hs] at h
    simp only [Bool.false_eq_true, if_false] at h ⊢
    split <;> omega
  · rw [hs] at h
    simp only [if_true] at h ⊢
    split <;> omega

theorem toNat_patternAddress {s : Sprite} (ctrl : UInt8) (h : s.row < s.height) :
    (s.patternAddress ctrl).toNat =
      if s.tall then
        s.tile.toNat % 2 * 4096 + (s.tile.toNat / 2 * 2 + s.patternRow / 8) * 16 +
          s.patternRow % 8
      else Control.tableOf (ctrl &&& 0x08 != 0) + s.tile.toNat * 16 + s.patternRow := by
  have hrow := patternRow_lt h
  have htile := s.tile.toNat_lt
  have htable := Control.tableOf_le (ctrl &&& 0x08 != 0)
  unfold patternAddress height at *
  dsimp only
  -- the table of a tall sprite is told by its tile, that of a small one by the control register
  cases hs : s.tall
  · rw [hs] at hrow
    simp only [Bool.false_eq_true, if_false] at hrow ⊢
    rw [UInt16.toNat_add, UInt16.toNat_add, UInt16.toNat_mul, Control.toNat_spriteTable,
      UInt8.toNat_toUInt16, UInt16.toNat_ofNat', show UInt16.toNat 16 = 16 from rfl]
    omega
  · rw [hs] at hrow
    simp only [if_true] at hrow ⊢
    have hbit : (s.tile &&& 0x01).toNat = s.tile.toNat % 2 := by
      rw [UInt8.toNat_and]
      exact Nat.and_two_pow_sub_one_eq_mod _ 1
    have hpair : (s.tile &&& 0xFE).toNat = s.tile.toNat / 2 * 2 := by
      rw [UInt8.toNat_and]
      change s.tile.toNat &&& (2 ^ 7 - 1) * 2 ^ 1 = _
      rw [Bits.and_digit]
      omega
    have hhalf : (if 8 ≤ s.patternRow then 1 else 0 : UInt16).toNat = s.patternRow / 8 := by
      split
      · rw [show UInt16.toNat 1 = 1 from rfl]
        omega
      · rw [show UInt16.toNat 0 = 0 from rfl]
        omega
    simp only [UInt16.toNat_add, UInt16.toNat_mul, UInt8.toNat_toUInt16, UInt16.toNat_ofNat',
      hbit, hpair, hhalf, show UInt16.toNat 16 = 16 from rfl,
      show UInt16.toNat 4096 = 4096 from rfl]
    omega

theorem patternAddress_lt {s : Sprite} (ctrl : UInt8) (h : s.row < s.height) :
    (s.patternAddress ctrl).toNat + 8 < 0x2000 := by
  have hrow := patternRow_lt h
  have htile := s.tile.toNat_lt
  have htable := Control.tableOf_le (ctrl &&& 0x08 != 0)
  rw [toNat_patternAddress ctrl h]
  unfold height at hrow
  split <;> rename_i hs
  · rw [if_pos hs] at hrow
    omega
  · rw [if_neg hs] at hrow
    omega

/-- The bit of its pattern that a column shows. -/
def bitPlace (s : Sprite) (column : Nat) : Nat :=
  if s.flippedHorizontally then column else 7 - column

theorem bitPlace_lt (s : Sprite) (column : Fin 8) : s.bitPlace column < 8 := by
  unfold bitPlace
  split <;> omega

theorem toNat_paletteBits (s : Sprite) : s.paletteBits.toNat = s.attributes.toNat % 4 * 4 := by
  have hmask : s.attributes.toNat &&& 3 = s.attributes.toNat % 4 :=
    Nat.and_two_pow_sub_one_eq_mod _ 2
  rw [paletteBits, UInt8.toNat_shiftLeft, UInt8.toNat_and, show UInt8.toNat 3 = 3 from rfl,
    show UInt8.toNat 2 % 8 = 2 from rfl, hmask, Nat.shiftLeft_eq]
  omega

theorem pixel?_eq_none {s : Sprite} {low high : UInt8} {column : Fin 8}
    (h : patternBits low high (s.bitPlace column) = 0) : s.pixel? low high column = none := by
  have hbits := toNat_or_bits low high (s.bitPlace_lt column)
  rw [h] at hbits
  exact if_pos (UInt8.toNat_inj.mp hbits)

theorem pixel?_eq_some {s : Sprite} {low high : UInt8} {column : Fin 8}
    (h : patternBits low high (s.bitPlace column) ≠ 0) : s.pixel? low high column = some
      { colour := UInt8.ofNat
          (s.attributes.toNat % 4 * 4 + patternBits low high (s.bitPlace column))
        behind := s.behind
        spriteZero := s.index = 0 } := by
  have hbits := toNat_or_bits low high (s.bitPlace_lt column)
  have hlt := patternBits_lt low high (s.bitPlace column)
  have hsum := Nat.two_pow_add_eq_or_of_lt (i := 2)
    (b := patternBits low high (s.bitPlace column)) hlt (s.attributes.toNat % 4)
  have hcolour : s.paletteBits ||| ((high >>> UInt8.ofNat (s.bitPlace column) &&& 1) <<< 1 |||
      (low >>> UInt8.ofNat (s.bitPlace column) &&& 1)) = UInt8.ofNat
        (s.attributes.toNat % 4 * 4 + patternBits low high (s.bitPlace column)) := by
    rw [← UInt8.toNat_inj, UInt8.toNat_or, toNat_paletteBits, hbits, UInt8.toNat_ofNat',
      Nat.mul_comm, ← hsum]
    omega
  rw [← hcolour]
  apply if_neg
  intro hzero
  apply h
  rw [← hbits]
  exact congrArg UInt8.toNat hzero

/-- A sprite leaves no transparent pixels. -/
theorem colour_of_pixel? {s : Sprite} {low high : UInt8} {column : Fin 8} {q : SpritePixel}
    (h : s.pixel? low high column = some q) : q.colour.toNat < 16 ∧ q.colour.toNat % 4 ≠ 0 := by
  have hlt := patternBits_lt low high (s.bitPlace column)
  by_cases hzero : patternBits low high (s.bitPlace column) = 0
  · rw [pixel?_eq_none hzero] at h
    cases h
  · rw [pixel?_eq_some hzero] at h
    cases h
    rw [UInt8.toNat_ofNat']
    omega

end Sprite

end Famicom.Picture
