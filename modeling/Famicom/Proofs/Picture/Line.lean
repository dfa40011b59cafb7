import Famicom.Proofs.Picture.Compositor
import Famicom.Proofs.Picture.Sound

/-! The line that the sprites leave shows at each place the first sprite of the line that
is opaque there, as the compositor does. -/

namespace Famicom.Picture

variable {p o : Picture} {x y : Nat}

namespace Sprite

/-- The pixel of a sprite at a place of the line, if it has one there. -/
def pixelAt? (s : Sprite) (low high : UInt8) (x : Nat) : Option SpritePixel :=
  if h : s.x.toNat ≤ x ∧ x < s.x.toNat + 8 then s.pixel? low high ⟨x - s.x.toNat, by omega⟩
  else none

theorem pixelAt?_column (s : Sprite) (low high : UInt8) (column : Fin 8) :
    s.pixelAt? low high (s.x.toNat + column) = s.pixel? low high column := by
  unfold pixelAt?
  rw [dif_pos (by omega)]
  congr 1
  exact Fin.ext (by dsimp only; omega)

/-- One column is drawn. -/
theorem getElem_column (s : Sprite) (low high : UInt8) (column : Fin 8) (under : SpriteLine)
    (hx : x < 256) :
    (match s.pixel? low high column with
      | none => under
      | some q => under.setIfInBounds (s.x.toNat + column) (some q))[x] =
      if s.x.toNat + column = x then (s.pixelAt? low high x).or under[x] else under[x] := by
  split <;> rename_i hpixel
  · split <;> rename_i hhere
    · subst hhere
      rw [pixelAt?_column, hpixel, Option.none_or]
    · rfl
  · rw [Vector.getElem_setIfInBounds hx]
    split <;> rename_i hhere
    · subst hhere
      rw [pixelAt?_column, hpixel, Option.some_or]
    · rfl

theorem getElem_columns (s : Sprite) (low high : UInt8) (columns : List (Fin 8))
    (under : SpriteLine) (hx : x < 256) :
    (columns.foldl (fun under column =>
      match s.pixel? low high column with
      | none => under
      | some q => under.setIfInBounds (s.x.toNat + column) (some q)) under)[x] =
      if ∃ column ∈ columns, s.x.toNat + column.val = x then
        (s.pixelAt? low high x).or under[x]
      else under[x] := by
  induction columns generalizing under with
  | nil => simp
  | cons column columns ih =>
    -- a column is drawn at one place only, so that drawing it first or later is the same
    rw [List.foldl_cons, ih, getElem_column s low high column under hx]
    by_cases hhere : s.x.toNat + column.val = x
    · have hall : ∃ c ∈ column :: columns, s.x.toNat + c.val = x :=
        ⟨column, List.mem_cons_self, hhere⟩
      rw [if_pos hhere, if_pos hall]
      split
      · rw [← Option.or_assoc, Option.or_self]
      · rfl
    -- another place is decided by the other columns
    · have hrest : (∃ c ∈ column :: columns, s.x.toNat + c.val = x) ↔
          ∃ c ∈ columns, s.x.toNat + c.val = x := by
        constructor
        · rintro ⟨c, hc, hx⟩
          rcases List.mem_cons.mp hc with rfl | hc
          · exact absurd hx hhere
          · exact ⟨c, hc, hx⟩
        · rintro ⟨c, hc, hx⟩
          exact ⟨c, List.mem_cons_of_mem _ hc, hx⟩
      rw [if_neg hhere]
      simp only [hrest]

/-- Where the sprite has no pixel, the line stays as it was. -/
theorem getElem_draw (s : Sprite) (low high : UInt8) (under : SpriteLine) (hx : x < 256) :
    (s.draw low high under)[x] = (s.pixelAt? low high x).or under[x] := by
  refine (getElem_columns s low high (List.finRange 8) under hx).trans ?_
  split <;> rename_i hcolumn
  · rfl
  · have hbeside : s.pixelAt? low high x = none := by
      unfold pixelAt?
      apply dif_neg
      intro hin
      exact hcolumn ⟨⟨x - s.x.toNat, by omega⟩, List.mem_finRange _, by dsimp only; omega⟩
    rw [hbeside, Option.none_or]

end Sprite

/-- The first sprite with a pixel at a place is on top there. -/
theorem getElem_ofSprites (m : VideoMemory) (ctrl : UInt8) (sprites : List Sprite)
    (hx : x < 256) : (SpriteLine.ofSprites m ctrl sprites)[x] = sprites.findSome? fun s =>
      s.pixelAt? (m.patternByte (s.patternAddress ctrl).toNat)
        (m.patternByte ((s.patternAddress ctrl).toNat + 8)) x := by
  induction sprites with
  | nil => exact Vector.getElem_replicate hx
  | cons s sprites ih =>
    rw [List.findSome?_cons, ← ih, SpriteLine.ofSprites, Sprite.getElem_draw _ _ _ _ hx]
    cases s.pixelAt? (m.patternByte (s.patternAddress ctrl).toNat)
      (m.patternByte ((s.patternAddress ctrl).toNat + 8)) x <;> rfl

theorem onLine?_eq (o : Picture) (line : Nat) (i : Fin 64) :
    Sprite.onLine? o.oam (Control.spriteHeight o.ctrl) line i =
      if Compositor.covers o (line + 1) i then some (Compositor.found o (line + 1) i)
      else none := by
  have hcovers : Compositor.covers o (line + 1) i = true ↔
      Compositor.spriteByte o i 0 < spriteLimit ∧ (Compositor.spriteByte o i 0).toNat ≤ line ∧
        line < (Compositor.spriteByte o i 0).toNat + Control.spriteHeight o.ctrl := by
    unfold Compositor.covers spriteLimit
    simp only [Bool.and_eq_true, decide_eq_true_iff]
    rw [and_assoc]
    exact and_congr Iff.rfl (and_congr (by omega) (by omega))
  have hrow : line + 1 - ((Compositor.spriteByte o i 0).toNat + 1) =
      line - (Compositor.spriteByte o i 0).toNat := by omega
  unfold Sprite.onLine? Compositor.found
  rw [hrow]
  simp only [hcovers]
  rfl

theorem filterMap_ite {α β : Type} (c : α → Bool) (f : α → β) (l : List α) :
    (l.filterMap fun a => if c a then some (f a) else none) = (l.filter c).map f := by
  induction l with
  | nil => rfl
  | cons a l ih =>
    rw [List.filterMap_cons, List.filter_cons]
    cases c a with
    | false => exact ih
    | true => exact congrArg (f a :: ·) ih

/-- The sprites kept for a line are those that the compositor takes for the line below. -/
theorem foundSprites_eq (hctrl : p.ctrl = o.ctrl) (hoam : p.oam = o.oam) : p.foundSprites =
    (Compositor.spritesOf o (p.scanline + 1)).map (Compositor.found o (p.scanline + 1)) := by
  unfold foundSprites Sprite.onLine Compositor.spritesOf
  rw [hctrl, hoam, List.map_take, ← filterMap_ite]
  congr 1
  exact List.filterMap_congr fun i _ => onLine?_eq o p.scanline i

/-- No sprite lies on the last line, nor so near to the end that it would. -/
theorem foundSprites_preRender (h : p.scanline = preRenderScanline) : p.foundSprites = [] := by
  have hheight : Control.spriteHeight p.ctrl ≤ 16 := by
    unfold Control.spriteHeight
    split <;> decide
  have hnone : ∀ i ∈ List.finRange 64,
      Sprite.onLine? p.oam (Control.spriteHeight p.ctrl) p.scanline i = none := by
    intro i _
    unfold Sprite.onLine?
    dsimp only
    apply if_neg
    rintro ⟨hlimit, -, hbottom⟩
    have htop := UInt8.lt_iff_toNat_lt.mp hlimit
    rw [show spriteLimit.toNat = 239 from rfl] at htop
    rw [h, show preRenderScanline = 261 from rfl] at hbottom
    omega
  unfold foundSprites Sprite.onLine
  rw [List.filterMap_eq_nil_iff.mpr hnone]
  rfl

namespace Compositor

theorem spritesOf_zero (o : Picture) : spritesOf o 0 = [] := by
  have hnone : (List.finRange 64).filter (covers o 0) = [] := by
    apply List.filter_eq_nil_iff.mpr
    intro i _
    unfold covers
    simp
  unfold spritesOf
  rw [hnone]
  rfl

theorem covers_of_mem {i : Fin 64} (h : i ∈ spritesOf o y) : covers o y i = true :=
  List.of_mem_filter (List.mem_of_mem_take h)

theorem row_found_lt {i : Fin 64} (h : covers o y i = true) :
    (found o y i).row < (found o y i).height := by
  unfold covers at h
  simp only [Bool.and_eq_true, decide_eq_true_iff] at h
  unfold found Sprite.height
  dsimp only
  unfold Control.spriteHeight at *
  split at h <;> rename_i htall
  · rw [if_pos htall]
    simp only [decide_true, if_true]
    omega
  · rw [if_neg htall]
    simp only [show ¬(8 = 16) by decide, decide_false, Bool.false_eq_true, if_false]
    omega

theorem patternRow_found (o : Picture) (y : Nat) (i : Fin 64) :
    (found o y i).patternRow = spriteRow o y i := by
  have hheight : (if (found o y i).tall then 15 else 7) = Control.spriteHeight o.ctrl - 1 := by
    unfold found Control.spriteHeight
    dsimp only
    split <;> rfl
  unfold Sprite.patternRow spriteRow
  rw [hheight]
  rfl

theorem patternAddress_found (ctrl : UInt8) {i : Fin 64} (h : covers o y i = true) :
    ((found o y i).patternAddress ctrl).toNat = fetchedPlace o ctrl y i := by
  have htall : (found o y i).tall = true ↔ Control.spriteHeight o.ctrl = 16 := decide_eq_true_iff
  rw [Sprite.toNat_patternAddress ctrl (row_found_lt h), patternRow_found]
  unfold fetchedPlace
  simp only [htall]
  rfl

theorem fetchedPattern_of_mem (ctrl : UInt8) {i : Fin 64}
    (h : (found o y i).x.toNat ≤ x ∧ x < (found o y i).x.toNat + 8) :
    fetchedPattern o ctrl x y i = o.memory.patternPixel (fetchedPlace o ctrl y i)
      ((found o y i).bitPlace (x - (found o y i).x.toNat)) :=
  if_pos h

theorem fetchedPattern_of_beside (ctrl : UInt8) {i : Fin 64}
    (h : ¬((found o y i).x.toNat ≤ x ∧ x < (found o y i).x.toNat + 8)) :
    fetchedPattern o ctrl x y i = 0 :=
  if_neg h

theorem fetchedPattern_lt (o : Picture) (ctrl : UInt8) (x y : Nat) (i : Fin 64) :
    fetchedPattern o ctrl x y i < 4 := by
  unfold fetchedPattern
  dsimp only
  split
  · exact patternBits_lt _ _ _
  · decide

/-- The compositor takes the table from the control with which the sprite was found. -/
theorem fetchedPattern_self (o : Picture) (x y : Nat) (i : Fin 64) :
    fetchedPattern o o.ctrl x y i = spritePattern o x y i := rfl

theorem spritePattern_lt (o : Picture) (x y : Nat) (i : Fin 64) : spritePattern o x y i < 4 := by
  rw [← fetchedPattern_self]
  exact fetchedPattern_lt o o.ctrl x y i

end Compositor

/-- A sprite's pixel as the compositor gives it. -/
def SpritePixel.shown (q : SpritePixel) : Nat × Bool := (q.colour.toNat, q.behind)

/-- Under the control with which it was found, a sprite shows what the compositor takes from it. -/
theorem shown_fetchedPixel (o : Picture) (x y : Nat) (i : Fin 64) :
    (Compositor.fetchedPixel o o.ctrl x y i).map SpritePixel.shown =
      Compositor.spritePixel o x y i := by
  have hlt := Compositor.spritePattern_lt o x y i
  unfold Compositor.fetchedPixel Compositor.spritePixel
  rw [Compositor.fetchedPattern_self]
  dsimp only
  split
  · rfl
  · rw [Option.map_some, SpritePixel.shown, UInt8.toNat_ofNat', Nat.mod_eq_of_lt (by omega)]

/-- A found sprite has the pixels that are fetched for it. -/
theorem pixelAt?_found (ctrl : UInt8) {i : Fin 64} (h : Compositor.covers o y i = true) :
    (Compositor.found o y i).pixelAt?
      (o.memory.patternByte ((Compositor.found o y i).patternAddress ctrl).toNat)
      (o.memory.patternByte (((Compositor.found o y i).patternAddress ctrl).toNat + 8)) x =
      Compositor.fetchedPixel o ctrl x y i := by
  rw [Compositor.patternAddress_found ctrl h]
  unfold Compositor.fetchedPixel
  by_cases hin : (Compositor.found o y i).x.toNat ≤ x ∧ x < (Compositor.found o y i).x.toNat + 8
  · obtain ⟨column, rfl⟩ : ∃ column : Fin 8, x = (Compositor.found o y i).x.toNat + column :=
      ⟨⟨x - (Compositor.found o y i).x.toNat, by omega⟩, by dsimp only; omega⟩
    rw [Sprite.pixelAt?_column, Compositor.fetchedPattern_of_mem ctrl hin, Nat.add_sub_cancel_left]
    unfold VideoMemory.patternPixel
    dsimp only
    split <;> rename_i hbits
    · exact Sprite.pixel?_eq_none hbits
    · exact Sprite.pixel?_eq_some hbits
  · rw [Compositor.fetchedPattern_of_beside ctrl hin]
    exact dif_neg hin

/-- The line drawn from the sprites that were found holds at each place the pixel of the first that
is opaque there. -/
theorem getElem_ofSprites_found (o : Picture) (ctrl : UInt8) (y : Nat) (hx : x < 256) :
    (SpriteLine.ofSprites o.memory ctrl
      ((Compositor.spritesOf o y).map (Compositor.found o y)))[x] =
      (Compositor.spritesOf o y).findSome? (Compositor.fetchedPixel o ctrl x y) := by
  have hcovers : ∀ i ∈ Compositor.spritesOf o y, Compositor.covers o y i = true :=
    fun i hi => Compositor.covers_of_mem hi
  rw [getElem_ofSprites _ _ _ hx, List.findSome?_map]
  -- the induction goes through the sprites in the order of their indices
  generalize Compositor.spritesOf o y = sprites at hcovers
  induction sprites with
  | nil => rfl
  | cons i sprites ih =>
    have hfirst := pixelAt?_found (x := x) ctrl (hcovers i List.mem_cons_self)
    rw [List.findSome?_cons, List.findSome?_cons, ← hfirst,
      ih fun j hj => hcovers j (List.mem_cons_of_mem i hj)]
    rfl

/-- A line shows what the compositor finds among the sprites, wherever these are shown at all. -/
def Shows (o : Picture) (y : Nat) (row : SpriteLine) : Prop :=
  ∀ x, x < 256 → (row[x]?.join).map SpritePixel.shown =
    (Compositor.spritesOf o y).findSome? (Compositor.spritePixel o x y)

/-- The line drawn from the sprites found above a line of the screen shows that line's sprites. -/
theorem shows_ofSprites (o : Picture) (y : Nat) :
    Shows o y (.ofSprites o.memory o.ctrl
      ((Compositor.spritesOf o y).map (Compositor.found o y))) := by
  intro x hx
  rw [Vector.getElem?_eq_getElem hx, Option.join_some, getElem_ofSprites_found o o.ctrl y hx,
    List.map_findSome?]
  exact congrArg (List.findSome? · _) (funext fun i => shown_fetchedPixel o x y i)

end Famicom.Picture
