import Famicom.Proofs.Picture.Sound
import Famicom.Proofs.Picture.Tiles

/-! The eight steps in which a tile is fetched, and what latch and shifter hold between
any two of them. -/

namespace Famicom.Picture

open Famicom.Action

variable {p o : Picture} {y n : Nat}

/-- One step of the eight, if every fetch answers. -/
def fetchStep (p : Picture) : Nat → Picture
  | 0 => { p with v := Scroll.nextTile p.v }
  | 1 => p.latchTile
  | 3 => p.latchPalette
  | 5 =>
    { p with latch := { p.latch with
        low := p.memory.patternByte p.backgroundPatternAddress.toNat } }
  | 7 =>
    { p with latch := { p.latch with
        high := p.memory.patternByte (p.backgroundPatternAddress.toNat + 8) } }
  | _ => p

theorem fetchBackground_of_hidden (h : Mask.background p.mask = false) :
    fetchBackground p = ⟨.ok (), p, []⟩ := by
  unfold fetchBackground
  rw [view_bind, h]
  rfl

theorem fetchBackground_of_shown (h : Mask.background p.mask = true)
    (hm : p.memory.cartridge.isSome) :
    fetchBackground p = ⟨.ok (), p.fetchStep (p.dot % 8), []⟩ := by
  obtain ⟨hlow, hhigh⟩ := VideoMemory.pattern_row hm (backgroundPatternAddress_lt p)
  have hstep := Nat.mod_lt p.dot (by decide : 0 < 8)
  unfold fetchBackground fetchStep
  rw [view_bind, h]
  change (view _ >>= _) p = _
  rw [view_bind]
  generalize p.dot % 8 = step at hstep
  match step with
  | 0 => rfl
  | 1 => rfl
  | 2 => rfl
  | 3 => rfl
  | 4 => rfl
  | 5 => exact inspect_bind hlow
  | 6 => rfl
  | 7 => exact inspect_bind hhigh
  | k + 8 => omega

namespace Compositor

/-- The column of the world that holds a tile of a line, counted from the left edge. -/
def columnOf (o : Picture) (k : Nat) : Nat :=
  (32 * (Scroll.parts o.t).tableX + (Scroll.parts o.t).column + k) % 64

def tileOf (o : Picture) (y k : Nat) : UInt8 := tileAt o (8 * columnOf o k) (worldY o y)

def paletteOf (o : Picture) (y k : Nat) : Nat := paletteAt o (8 * columnOf o k) (worldY o y)

def lowOf (o : Picture) (y k : Nat) : UInt8 :=
  o.memory.patternByte (rowAt o (8 * columnOf o k) (worldY o y))

def highOf (o : Picture) (y k : Nat) : UInt8 :=
  o.memory.patternByte (rowAt o (8 * columnOf o k) (worldY o y) + 8)

/-- A bit of a tile's palette, for all of its eight pixels. -/
def paletteBitOf (o : Picture) (y bit k : Nat) : UInt8 :=
  if paletteOf o y k / bit % 2 = 1 then 0xFF else 0

end Compositor

/-- The shifter carries the pixels of a line of the screen. -/
structure CarriesLine (o : Picture) (y n : Nat) (s : Shifter) : Prop where
  low : Carries (Compositor.lowOf o y) n s.low
  high : Carries (Compositor.highOf o y) n s.high
  paletteLow : Carries (Compositor.paletteBitOf o y 1) n s.paletteLow
  paletteHigh : Carries (Compositor.paletteBitOf o y 2) n s.paletteHigh

/-- The latch holds what has been fetched of a tile in `m` steps. -/
structure Latches (o : Picture) (y k m : Nat) (latch : TileLatch) : Prop where
  tile_eq : 1 ≤ m → latch.tile = Compositor.tileOf o y k
  palette_eq : 3 ≤ m → latch.palette.toNat = Compositor.paletteOf o y k
  low_eq : 5 ≤ m → latch.low = Compositor.lowOf o y k
  high_eq : 7 ≤ m → latch.high = Compositor.highOf o y k

/-- The pipelines before step number `n` of a line: two tiles are fetched before its first pixel,
and the latch is taken into the shifter with the first step of the tile behind it. -/
structure Fetching (o : Picture) (y n : Nat) (p : Picture) : Prop where
  pointsTo : PointsTo p.v (Compositor.columnOf o (n / 8)) (Compositor.worldY o y)
  latches : 0 < n → Latches o y ((n - 1) / 8) ((n - 1) % 8 + 1) p.latch
  carries : CarriesLine o y n p.shifter

theorem carriesLine_shift {s : Shifter} (h : CarriesLine o y n s) (hn : n % 8 ≠ 0) :
    CarriesLine o y (n + 1) s.shift :=
  ⟨carries_shift h.low hn, carries_shift h.high hn, carries_shift h.paletteLow hn,
    carries_shift h.paletteHigh hn⟩

/-- A palette bit of the latch, spread over eight pixels. -/
theorem spread_eq (palette bit : UInt8) (place : Nat) (hbit : bit.toNat = 2 ^ place) :
    (if palette &&& bit != 0 then 0xFF else 0 : UInt8) =
      if palette.toNat / bit.toNat % 2 = 1 then 0xFF else 0 := by
  have hand : (palette &&& bit).toNat = palette.toNat / bit.toNat % 2 * 2 ^ place := by
    have hdigit := Bits.and_digit palette.toNat place 1
    rw [Nat.pow_one, show 2 - 1 = 1 from rfl, Nat.one_mul] at hdigit
    rw [UInt8.toNat_and, hbit, hdigit]
  rcases Nat.mod_two_eq_zero_or_one (palette.toNat / bit.toNat) with hdigit | hdigit
  · rw [hdigit, Nat.zero_mul] at hand
    have hzero : palette &&& bit = 0 := UInt8.toNat_inj.mp hand
    rw [hzero, hdigit]
    rfl
  · have hne : palette &&& bit ≠ 0 := by
      intro hzero
      rw [hzero, hdigit, Nat.one_mul] at hand
      exact absurd hand (Nat.two_pow_pos place).ne
    rw [if_pos (bne_iff_ne.mpr hne), if_pos hdigit]

theorem carriesLine_reload {s : Shifter} {latch : TileLatch} (h : CarriesLine o y n s)
    (hn : n % 8 = 0) (hlatch : 8 ≤ n → Latches o y (n / 8 - 1) 8 latch) :
    CarriesLine o y (n + 1) (s.shift.reload latch) := by
  constructor
  · exact carries_reload h.low hn fun hle => (hlatch hle).low_eq (by decide)
  · exact carries_reload h.high hn fun hle => (hlatch hle).high_eq (by decide)
  · apply carries_reload h.paletteLow hn
    intro hle
    rw [Compositor.paletteBitOf, ← (hlatch hle).palette_eq (by decide)]
    exact spread_eq latch.palette 1 0 rfl
  · apply carries_reload h.paletteHigh hn
    intro hle
    rw [Compositor.paletteBitOf, ← (hlatch hle).palette_eq (by decide)]
    exact spread_eq latch.palette 2 1 rfl

theorem columnOf_succ (o : Picture) (k : Nat) :
    Compositor.columnOf o (k + 1) = (Compositor.columnOf o k + 1) % 64 := by
  unfold Compositor.columnOf
  omega

/-- A step that fetches nothing. -/
theorem latches_wait {k m : Nat} {latch : TileLatch} (h : Latches o y k m latch) (hm : 1 ≤ m)
    (hwait : m = 1 ∨ m = 3 ∨ m = 5 ∨ m = 7) : Latches o y k (m + 1) latch :=
  ⟨fun _ => h.tile_eq hm, fun _ => h.palette_eq (by omega), fun _ => h.low_eq (by omega),
    fun _ => h.high_eq (by omega)⟩

theorem latches_tile {k : Nat} (hs : Static o p)
    (hp : PointsTo p.v (Compositor.columnOf o k) (Compositor.worldY o y)) :
    Latches o y k 1 { p.latch with tile := p.memory.tile (Scroll.tileAddress p.v) } := by
  refine ⟨fun _ => ?_, by omega, by omega, by omega⟩
  dsimp only
  rw [hs.memory]
  exact tile_of_pointsTo hp

theorem latches_palette {k : Nat} (hs : Static o p)
    (hp : PointsTo p.v (Compositor.columnOf o k) (Compositor.worldY o y))
    (h : Latches o y k 2 p.latch) : Latches o y k 3 p.latchPalette.latch := by
  refine ⟨fun _ => h.tile_eq (by decide), fun _ => ?_, by omega, by omega⟩
  unfold latchPalette
  dsimp only
  rw [hs.memory]
  exact palette_of_pointsTo hp

theorem patternAddress_of_latches {k m : Nat} (hs : Static o p)
    (hp : PointsTo p.v (Compositor.columnOf o k) (Compositor.worldY o y)) (hm : 1 ≤ m)
    (h : Latches o y k m p.latch) : p.backgroundPatternAddress.toNat =
      Compositor.rowAt o (8 * Compositor.columnOf o k) (Compositor.worldY o y) :=
  patternAddress_of_pointsTo hp hs.ctrl (h.tile_eq hm)

theorem latches_low {k : Nat} (hs : Static o p)
    (hp : PointsTo p.v (Compositor.columnOf o k) (Compositor.worldY o y))
    (h : Latches o y k 4 p.latch) : Latches o y k 5 { p.latch with
      low := p.memory.patternByte p.backgroundPatternAddress.toNat } := by
  refine ⟨fun _ => h.tile_eq (by decide), fun _ => h.palette_eq (by decide), fun _ => ?_,
    by omega⟩
  dsimp only
  rw [hs.memory, patternAddress_of_latches hs hp (by decide) h]
  rfl

theorem latches_high {k : Nat} (hs : Static o p)
    (hp : PointsTo p.v (Compositor.columnOf o k) (Compositor.worldY o y))
    (h : Latches o y k 6 p.latch) : Latches o y k 7 { p.latch with
      high := p.memory.patternByte (p.backgroundPatternAddress.toNat + 8) } := by
  refine ⟨fun _ => h.tile_eq (by decide), fun _ => h.palette_eq (by decide),
    fun _ => h.low_eq (by decide), fun _ => ?_⟩
  dsimp only
  rw [hs.memory, patternAddress_of_latches hs hp (by decide) h]
  rfl

/-- Each step of the eight fetches what belongs to its tile of the line. -/
theorem fetching_step (hs : Static o p) (h : Fetching o y n p) :
    Fetching o y (n + 1)
      ({ p with shifter := p.shifter.shift }.fetchStep ((n + 1) % 8)) := by
  have hs' : Static o { p with shifter := p.shifter.shift } := { hs with }
  obtain ⟨hpoints, hlatches, hcarries⟩ := h
  -- step `j` of tile `k`: the first takes the tile before into the shifter, the last goes on
  obtain ⟨k, j, hj, rfl⟩ : ∃ k j, j < 8 ∧ n = 8 * k + j :=
    ⟨n / 8, n % 8, Nat.mod_lt n (by decide), by omega⟩
  have hshift := fun hj : (8 * k + j) % 8 ≠ 0 => carriesLine_shift hcarries hj
  rw [show (8 * k + j) / 8 = k by omega] at hpoints
  rw [show (8 * k + j + 1) % 8 = (j + 1) % 8 by omega]
  match j with
  | 0 =>
    refine ⟨?_, fun _ => ?_, ?_⟩
    · rw [show (8 * k + 0 + 1) / 8 = k by omega]
      exact hpoints
    · rw [show (8 * k + 0 + 1 - 1) / 8 = k by omega, show (8 * k + 0 + 1 - 1) % 8 = 0 by omega]
      exact latches_tile hs' hpoints
    · apply carriesLine_reload hcarries (by omega)
      intro hle
      have hfull := hlatches (by omega)
      rw [show (8 * k + 0 - 1) / 8 = (8 * k + 0) / 8 - 1 by omega,
        show (8 * k + 0 - 1) % 8 + 1 = 8 by omega] at hfull
      exact hfull
  | j + 1 =>
    have hbefore := hlatches (Nat.succ_pos _)
    -- the latch is that of tile `k` after each of its steps
    rw [show (8 * k + (j + 1) - 1) / 8 = k by omega,
      show (8 * k + (j + 1) - 1) % 8 = j by omega] at hbefore
    have hcarry := hshift (by omega)
    have hlift : ∀ latch, Latches o y k (j + 2) latch →
        Latches o y ((8 * k + (j + 1) + 1 - 1) / 8) ((8 * k + (j + 1) + 1 - 1) % 8 + 1) latch := by
      intro latch h
      rw [show (8 * k + (j + 1) + 1 - 1) / 8 = k by omega,
        show (8 * k + (j + 1) + 1 - 1) % 8 + 1 = j + 2 by omega]
      exact h
    have hstay : j < 6 → PointsTo p.v (Compositor.columnOf o ((8 * k + (j + 1) + 1) / 8))
        (Compositor.worldY o y) := by
      intro hlt
      rw [show (8 * k + (j + 1) + 1) / 8 = k by omega]
      exact hpoints
    match j with
    | 0 => exact ⟨hstay (by omega), fun _ => hlift _ (latches_wait hbefore (by omega) (by omega)),
        hcarry⟩
    | 1 => exact ⟨hstay (by omega), fun _ => hlift _ (latches_palette hs' hpoints hbefore), hcarry⟩
    | 2 => exact ⟨hstay (by omega), fun _ => hlift _ (latches_wait hbefore (by omega) (by omega)),
        hcarry⟩
    | 3 => exact ⟨hstay (by omega), fun _ => hlift _ (latches_low hs' hpoints hbefore), hcarry⟩
    | 4 => exact ⟨hstay (by omega), fun _ => hlift _ (latches_wait hbefore (by omega) (by omega)),
        hcarry⟩
    | 5 => exact ⟨hstay (by omega), fun _ => hlift _ (latches_high hs' hpoints hbefore), hcarry⟩
    | 6 =>
      refine ⟨?_, fun _ => hlift _ (latches_wait hbefore (by omega) (by omega)), hcarry⟩
      rw [show (8 * k + (6 + 1) + 1) / 8 = k + 1 by omega, columnOf_succ]
      exact pointsTo_nextTile hpoints
    | j + 7 => omega

namespace Compositor

theorem worldX_eq (o : Picture) (x : Nat) : worldX o x =
    8 * columnOf o ((x + o.fineX.toNat) / 8) + (x + o.fineX.toNat) % 8 := by
  unfold worldX originX columnOf
  omega

/-- The eight columns of a tile have its number and its palette. -/
theorem tileAt_add (o : Picture) (c : Nat) {r : Nat} (hr : r < 8) (line : Nat) :
    tileAt o (8 * c + r) line = tileAt o (8 * c) line := by
  unfold tileAt
  rw [show (8 * c + r) / 256 = 8 * c / 256 by omega,
    show (8 * c + r) % 256 / 8 = 8 * c % 256 / 8 by omega]

theorem paletteAt_add (o : Picture) (c : Nat) {r : Nat} (hr : r < 8) (line : Nat) :
    paletteAt o (8 * c + r) line = paletteAt o (8 * c) line := by
  unfold paletteAt
  rw [show (8 * c + r) / 256 = 8 * c / 256 by omega,
    show (8 * c + r) % 256 / 32 = 8 * c % 256 / 32 by omega,
    show (8 * c + r) % 256 / 16 = 8 * c % 256 / 16 by omega]

theorem paletteAt_lt (o : Picture) (x line : Nat) : paletteAt o x line < 4 :=
  Nat.mod_lt _ (by decide)

theorem testBit_paletteBitOf (o : Picture) (bit k : Nat) {j : Nat} (hj : j < 8) :
    ((paletteBitOf o y bit k).toNat.testBit j).toNat = paletteOf o y k / bit % 2 := by
  have hones : ∀ j < 8, (UInt8.toNat 0xFF).testBit j = true := by decide
  unfold paletteBitOf
  rcases Nat.mod_two_eq_zero_or_one (paletteOf o y k / bit) with hdigit | hdigit
  · rw [hdigit, if_neg (by decide), UInt8.toNat_zero, Nat.zero_testBit]
    rfl
  · rw [hdigit, if_pos rfl, hones j hj]
    rfl

end Compositor

/-- The pixel that a shift brings to the front is the compositor's. -/
theorem toNat_pixel_of_fetching {x : Nat} (hs : Static o p) (hf : o.fineX.toNat ≤ 7)
    (h : Fetching o y (x + 16) p) : (p.shifter.shift.pixel p.fineX).toNat =
      4 * Compositor.paletteAt o (Compositor.worldX o x) (Compositor.worldY o y) +
        o.memory.patternPixel
          (Compositor.rowAt o (Compositor.worldX o x) (Compositor.worldY o y))
          (7 - Compositor.worldX o x % 8) := by
  have hr : (x + o.fineX.toNat) % 8 < 8 := Nat.mod_lt _ (by decide)
  have hpalette := Compositor.paletteAt_lt o
    (8 * Compositor.columnOf o ((x + o.fineX.toNat) / 8)) (Compositor.worldY o y)
  obtain ⟨hlow, hhigh, hpaletteLow, hpaletteHigh⟩ := h.carries
  -- bit by bit the pixel is that of the tile in which fine X lies
  rw [hs.fineX, Shifter.toNat_pixel _ hf]
  unfold Shifter.shift
  dsimp only
  rw [testBit_of_carries hlow (Nat.le_add_left 16 x) hf,
    testBit_of_carries hhigh (Nat.le_add_left 16 x) hf,
    testBit_of_carries hpaletteLow (Nat.le_add_left 16 x) hf,
    testBit_of_carries hpaletteHigh (Nat.le_add_left 16 x) hf, Nat.add_sub_cancel,
    Compositor.testBit_paletteBitOf o _ _ (by omega),
    Compositor.testBit_paletteBitOf o _ _ (by omega), Nat.toNat_testBit, Nat.toNat_testBit,
    Compositor.worldX_eq, Compositor.paletteAt_add o _ hr]
  unfold Compositor.rowAt VideoMemory.patternPixel patternBits Compositor.paletteOf
    Compositor.lowOf Compositor.highOf Compositor.rowAt
  rw [Compositor.tileAt_add o _ hr, Nat.mul_add_mod, Nat.mod_eq_of_lt hr]
  omega

theorem toNat_backgroundAt {x : Nat} (hs : Static o p) (hf : o.fineX.toNat ≤ 7)
    (h : Mask.background o.mask = true → Fetching o y (x + 16) p) :
    (p.shiftBackground.backgroundAt x).toNat = Compositor.background o x y := by
  have hmask := hs.mask
  unfold backgroundAt Compositor.background shiftBackground
  rw [hmask]
  cases hshown : Mask.background o.mask with
  | false =>
    rw [if_neg Bool.false_ne_true, hmask, hshown]
    rfl
  | true =>
    rw [if_pos rfl]
    dsimp only
    rw [hshown, Bool.true_and]
    split
    · exact toNat_pixel_of_fetching hs hf (h hshown)
    · rfl

end Famicom.Picture
