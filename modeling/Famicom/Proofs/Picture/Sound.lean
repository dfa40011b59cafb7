import Famicom.Proofs.Picture.Dot
import Famicom.Proofs.Picture.Pattern
import Famicom.Proofs.Picture.Position

/-! What holds of the picture unit in every state. A dot keeps it, and it moves the
unit exactly one place on in the course of its frames. -/

namespace Famicom.Picture

/-- The pixels of a line are those that a sprite leaves. -/
def LineSound (line : SpriteLine) : Prop :=
  ∀ q, some q ∈ line → q.colour.toNat < 16 ∧ q.colour.toNat % 4 ≠ 0

theorem lineSound_blank : LineSound SpriteLine.blank := by
  intro q hq
  exact absurd (Vector.eq_of_mem_replicate hq) (by simp)

/-- Bounds of the fields, and colours that have six bits. -/
structure Sound (p : Picture) : Prop where
  scanline_lt : p.scanline < scanlinesPerFrame
  dot_lt : p.dot < dotsPerScanline
  v_lt : p.v.toNat < 0x8000
  t_lt : p.t.toNat < 0x8000
  fineX_le : p.fineX.toNat ≤ 7
  sprites_le : p.sprites.length ≤ maxSprites
  row_lt : ∀ s ∈ p.sprites, s.row < s.height
  line_sound : LineSound p.line
  palette_le : ∀ c ∈ p.memory.palette, c ≤ 0x3F
  pixels_le : ∀ c ∈ p.pixels, c ≤ 0x3F

theorem sound_powerOn : Sound powerOn where
  scanline_lt := by decide
  dot_lt := by decide
  v_lt := by decide
  t_lt := by decide
  fineX_le := by decide
  sprites_le := by decide
  row_lt := by
    intro s hs
    cases hs
  line_sound := lineSound_blank
  palette_le := by
    intro c hc
    rw [Vector.eq_of_mem_replicate hc]
    decide
  pixels_le := by
    intro c hc
    rw [Vector.eq_of_mem_replicate hc]
    decide

/-- The state stands at a place of its frames, with a cartridge in the slot. -/
structure Steady (x : Position) (p : Picture) : Prop extends Sound p where
  cartridge : p.memory.cartridge.isSome
  position_eq : p.position = x

variable {x : Position} {p : Picture}

theorem v_lt_iff (v : UInt16) : v.toNat < 0x8000 ↔ (Scroll.parts v).top = 0 := by
  dsimp only [Scroll.parts]
  omega

theorem nextTile_lt {v : UInt16} (h : v.toNat < 0x8000) : (Scroll.nextTile v).toNat < 0x8000 := by
  rw [v_lt_iff] at h ⊢
  rw [Scroll.parts_nextTile]
  split <;> exact h

theorem nextLine_lt {v : UInt16} (h : v.toNat < 0x8000) : (Scroll.nextLine v).toNat < 0x8000 := by
  rw [v_lt_iff] at h ⊢
  rw [Scroll.parts_nextLine]
  repeat' split
  all_goals exact h

theorem copyHorizontal_lt {v : UInt16} (t : UInt16) (h : v.toNat < 0x8000) :
    (Scroll.copyHorizontal v t).toNat < 0x8000 := by
  rw [v_lt_iff] at h ⊢
  rw [Scroll.parts_copyHorizontal]
  exact h

theorem copyVertical_lt {v : UInt16} (t : UInt16) (h : v.toNat < 0x8000) :
    (Scroll.copyVertical v t).toNat < 0x8000 := by
  rw [v_lt_iff] at h ⊢
  rw [Scroll.parts_copyVertical]
  exact h

theorem shownColour_le (h : Sound p) (addr : UInt16) : p.shownColour addr ≤ 0x3F := by
  have hcolour : p.memory.colour addr ≤ 0x3F := h.palette_le _ (Vector.getElem_mem _)
  unfold shownColour
  dsimp only
  split
  · rw [UInt8.le_iff_toNat_le, UInt8.toNat_and]
    exact le_trans Nat.and_le_left (UInt8.le_iff_toNat_le.mp hcolour)
  · exact hcolour

theorem steady_putPixel (h : Steady x p) (i : Nat) {c : UInt8} (hc : c ≤ 0x3F) :
    Steady x (p.putPixel i c) := by
  refine { h with pixels_le := ?_ }
  intro c' hc'
  rcases Array.mem_or_eq_of_mem_setIfInBounds hc'.val with hmem | rfl
  · exact h.pixels_le c' ⟨hmem⟩
  · exact hc

theorem steady_noteHit (h : Steady x p) : Steady x p.noteHit := by
  unfold noteHit
  split
  · exact h
  · exact { h with }

theorem steady_vblankDot (h : Steady x p) : Steady x p.vblankDot := by
  unfold vblankDot
  split
  · exact { h with }
  split
  · exact { h with }
  · exact h

theorem row_of_onLine? {oam : Vector UInt8 256} {ctrl : UInt8} {scanline : Nat} {i : Fin 64}
    {s : Sprite} (h : Sprite.onLine? oam (Control.spriteHeight ctrl) scanline i = some s) :
    s.row < s.height := by
  unfold Sprite.onLine? at h
  dsimp only at h
  split at h
  · rename_i hcovers
    cases h
    unfold Sprite.height Control.spriteHeight at *
    dsimp only
    split <;> split at hcovers <;> simp_all <;> omega
  · cases h

theorem row_of_foundSprites {s : Sprite} (h : s ∈ p.foundSprites) : s.row < s.height := by
  obtain ⟨i, -, hi⟩ := List.mem_filterMap.mp (List.mem_of_mem_take h)
  exact row_of_onLine? hi

theorem lineSound_draw (s : Sprite) (low high : UInt8) {line : SpriteLine}
    (h : LineSound line) : LineSound (s.draw low high line) := by
  unfold Sprite.draw
  -- the induction is on the columns, over every line that may lie under them
  generalize List.finRange 8 = columns
  induction columns generalizing line with
  | nil => exact h
  | cons column columns ih =>
    rw [List.foldl_cons]
    apply ih
    split
    · exact h
    · rename_i q hq
      intro q' hq'
      rcases Array.mem_or_eq_of_mem_setIfInBounds hq'.val with hmem | heq
      · exact h q' ⟨hmem⟩
      · cases heq
        exact Sprite.colour_of_pixel? hq

/-- The line that sprites leave, with the first of them on top. -/
def SpriteLine.ofSprites (m : VideoMemory) (ctrl : UInt8) : List Sprite → SpriteLine
  | [] => .blank
  | s :: sprites =>
    let addr := (s.patternAddress ctrl).toNat
    s.draw (m.patternByte addr) (m.patternByte (addr + 8)) (ofSprites m ctrl sprites)

theorem lineSound_ofSprites (m : VideoMemory) (ctrl : UInt8) (sprites : List Sprite) :
    LineSound (.ofSprites m ctrl sprites) := by
  induction sprites with
  | nil => exact lineSound_blank
  | cons s sprites ih => exact lineSound_draw s _ _ ih

theorem spriteLine_eq (hm : p.memory.cartridge.isSome)
    (hrows : ∀ s ∈ p.sprites, s.row < s.height) :
    p.spriteLine = .ok (.ofSprites p.memory p.ctrl p.sprites) := by
  unfold spriteLine
  -- the sprites are drawn from the last to the first, as the fold goes
  generalize p.sprites = sprites at hrows
  induction sprites with
  | nil => rfl
  | cons s sprites ih =>
    have hrow := Sprite.patternAddress_lt p.ctrl (hrows s List.mem_cons_self)
    obtain ⟨hlow, hhigh⟩ := VideoMemory.pattern_row hm hrow
    rw [List.foldrM_cons, ih fun s' hs' => hrows s' (List.mem_cons_of_mem _ hs')]
    dsimp only [Bind.bind, Except.bind]
    rw [hlow, hhigh]
    rfl

/-- The work of a dot never fails, and it does not move the unit from its place. -/
theorem dotKeeps_steady : DotKeeps (Steady x) (fun _ => False) where
  nextTile p h := { h with v_lt := nextTile_lt h.v_lt }
  nextLine p h := { h with v_lt := nextLine_lt h.v_lt }
  copyHorizontal p h := { h with v_lt := copyHorizontal_lt p.t h.v_lt }
  copyVertical p h := { h with v_lt := copyVertical_lt p.t h.v_lt }
  pipeline p _ _ h := { h with }
  found p h := { h with
    sprites_le := List.length_take_le _ _
    row_lt := fun _ hs => row_of_foundSprites hs }
  noSprites p h := { h with
    sprites_le := Nat.zero_le _
    row_lt := fun _ hs => by cases hs }
  blank p h := { h with line_sound := lineSound_blank }
  line p line h hline := by
    rw [spriteLine_eq h.cartridge h.row_lt] at hline
    cases hline
    exact { h with line_sound := lineSound_ofSprites p.memory p.ctrl p.sprites }
  pixel p i addr h := steady_putPixel h i (shownColour_le h.toSound addr)
  noteHit p h := steady_noteHit h
  overflow p h := { h with }
  vblank p h := steady_vblankDot h
  clear p h := { h with }
  lowFault p e h he := by
    rw [(VideoMemory.pattern_row h.cartridge (backgroundPatternAddress_lt p)).1] at he
    cases he
  highFault p e h he := by
    rw [(VideoMemory.pattern_row h.cartridge (backgroundPatternAddress_lt p)).2] at he
    cases he
  lineFault p e h he := by
    rw [spriteLine_eq h.cartridge h.row_lt] at he
    cases he

theorem Steady.bounded (h : Steady x p) : x.Bounded := by
  obtain rfl := h.position_eq
  exact ⟨h.scanline_lt, h.dot_lt⟩

theorem advance_of_steady (h : Steady x p) :
    ∃ q es, advance p = ⟨.ok (), q, es⟩ ∧ Steady x.next q := by
  obtain ⟨hscanline, hdot⟩ := Position.bounded_next h.bounded
  obtain ⟨hit, es, hadvance⟩ := advance_eq p
  obtain rfl := h.position_eq
  exact ⟨_, es, hadvance, { h with
    scanline_lt := hscanline, dot_lt := hdot, position_eq := rfl }⟩

/-- A dot never fails, and the unit then stands at the next place. -/
theorem tick_of_steady (h : Steady x p) :
    ∃ q es, tick p = ⟨.ok (), q, es⟩ ∧ Steady x.next q := by
  obtain ⟨_, q, es, hdraw, hq⟩ := dotKeeps_steady.drawDot.ok h
  obtain ⟨r, es', hadvance, hr⟩ := advance_of_steady hq
  unfold tick
  rw [Action.bind_of_ok hdraw, hadvance]
  exact ⟨r, _, rfl, hr⟩

end Famicom.Picture
