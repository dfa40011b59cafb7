import Famicom.Proofs.Picture.Effect
import Famicom.Proofs.Picture.Line

/-! The colour that a dot draws is the compositor's, if the shifter carries the
background of the line and the sprites' line shows its sprites. -/

namespace Famicom.Picture

variable {o p : Picture} {x y : Nat}

namespace Compositor

theorem background_lt (o : Picture) (x y : Nat) : background o x y < 16 := by
  have hpalette := paletteAt_lt o (worldX o x) (worldY o y)
  have hbits : o.memory.patternPixel (rowAt o (worldX o x) (worldY o y)) (7 - worldX o x % 8) < 4 :=
    patternBits_lt _ _ _
  unfold background
  split <;> omega

/-- The colours of sprites that are shown lie beside the backdrop's. -/
theorem spritePixel_bounded {i : Fin 64} {colour : Nat} {behind : Bool}
    (h : spritePixel o x y i = some (colour, behind)) : colour < 16 ∧ colour % 4 ≠ 0 := by
  have hlt := spritePattern_lt o x y i
  unfold spritePixel at h
  split at h
  · cases h
  · cases h
    omega

theorem sprite_bounded {colour : Nat} {behind : Bool}
    (h : sprite o x y = some (colour, behind)) : colour < 16 ∧ colour % 4 ≠ 0 := by
  unfold sprite at h
  split at h
  · obtain ⟨i, -, hi⟩ := List.exists_of_findSome?_eq_some h
    exact spritePixel_bounded hi
  · cases h

end Compositor

theorem isSolid_iff (b : UInt8) : isSolid b = true ↔ b.toNat % 4 ≠ 0 := by
  have hand : (b &&& 0x03).toNat = b.toNat % 4 := by
    rw [UInt8.toNat_and]
    exact Nat.and_two_pow_sub_one_eq_mod _ 2
  unfold isSolid
  rw [bne_iff_ne, ne_eq, ← UInt8.toNat_inj, hand, UInt8.toNat_zero]

/-- The palette entry of an address, where it is not one of the shared ones. -/
theorem paletteIndex_of_ne {addr : UInt16} (h : addr.toNat % 4 ≠ 0) :
    (paletteIndex addr).val = addr.toNat % 32 := by
  unfold paletteIndex
  dsimp only
  rw [if_neg (by omega)]

theorem paletteIndex_background (b : UInt8) (hb : b.toNat < 16) :
    (paletteIndex (backgroundColourAddress b)).val =
      if b.toNat % 4 ≠ 0 then b.toNat else 0 := by
  have haddr : (paletteBase + b.toUInt16).toNat = 0x3F00 + b.toNat := by
    rw [UInt16.toNat_add, UInt8.toNat_toUInt16, show paletteBase.toNat = 0x3F00 from rfl]
    omega
  -- a solid colour is none of the shared entries, and the others show the backdrop
  unfold backgroundColourAddress
  simp only [isSolid_iff]
  split
  · rw [paletteIndex_of_ne (by omega), haddr]
    omega
  · rfl

theorem paletteIndex_sprite {c : UInt8} (hc : c.toNat < 16) (hne : c.toNat % 4 ≠ 0) :
    (paletteIndex (spritePaletteBase + c.toUInt16)).val = 16 + c.toNat := by
  have haddr : (spritePaletteBase + c.toUInt16).toNat = 0x3F10 + c.toNat := by
    rw [UInt16.toNat_add, UInt8.toNat_toUInt16, show spritePaletteBase.toNat = 0x3F10 from rfl]
    omega
  rw [paletteIndex_of_ne (by omega), haddr]
  omega

/-- The address of a colour is that of the compositor's entry. -/
theorem paletteIndex_colourAddress {b : UInt8} {s : Option SpritePixel} (hb : b.toNat < 16)
    (hs : ∀ q, s = some q → q.colour.toNat < 16 ∧ q.colour.toNat % 4 ≠ 0) :
    (paletteIndex (colourAddress b s)).val =
      Compositor.entry b.toNat (s.map SpritePixel.shown) := by
  cases s with
  | none => exact paletteIndex_background b hb
  | some q =>
    obtain ⟨hlt, hne⟩ := hs q rfl
    unfold colourAddress SpritePixel.shown Compositor.entry
    simp only [Option.map_some, Bool.and_eq_true, isSolid_iff]
    split <;> rename_i hbehind
    · rw [paletteIndex_background b hb, if_pos hbehind.2]
    · exact paletteIndex_sprite hlt hne

theorem spriteAt_eq (hs : Static o p) (hx : x < 256)
    (h : Mask.sprites o.mask = true → Shows o y p.line) :
    (p.spriteAt x).map SpritePixel.shown = Compositor.sprite o x y := by
  unfold spriteAt Compositor.sprite
  rw [hs.mask]
  cases hshown : Mask.sprites o.mask with
  | false => rfl
  | true =>
    rw [Bool.true_and]
    split
    · exact h hshown x hx
    · rfl

/-- The colour of a dot of a visible scanline. -/
theorem pixelColour_eq (hs : Static o p) (hf : o.fineX.toNat ≤ 7) (hd : p.dot - 1 < 256)
    (hsprites : Mask.sprites o.mask = true → Shows o y p.line)
    (hbackground : Mask.background o.mask = true → Fetching o y (p.dot - 1 + 16) p) :
    p.pixelColour = Compositor.colour o (p.dot - 1) y := by
  have hb := toNat_backgroundAt hs hf hbackground
  have hsprite := spriteAt_eq hs hd hsprites
  -- the bounds are the compositor's, through the pixels that agree with it
  have hbounded : ∀ q, p.spriteAt (p.dot - 1) = some q →
      q.colour.toNat < 16 ∧ q.colour.toNat % 4 ≠ 0 := by
    intro q hq
    rw [hq] at hsprite
    exact Compositor.sprite_bounded hsprite.symm
  have hlt : (p.shiftBackground.backgroundAt (p.dot - 1)).toNat < 16 := by
    rw [hb]
    exact Compositor.background_lt o _ _
  have hindex := paletteIndex_colourAddress hlt hbounded
  rw [hb, hsprite] at hindex
  unfold pixelColour shownColour Compositor.colour VideoMemory.colour
  rw [← hindex, hs.mask, hs.memory, Vector.getElem?_eq_getElem (paletteIndex _).isLt]
  rfl

end Famicom.Picture
