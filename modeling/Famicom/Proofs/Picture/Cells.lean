import Famicom.Proofs.Bus.Refusal

/-! The address space of the picture unit. Many addresses name one cell of its memories, by the
rules of the console and the board. A byte that is written to a cell is read back at all addresses
of that cell, and every other cell keeps its byte. -/

namespace Famicom.Picture

/-- The rules by which one address repeats another. -/
inductive Repeats (mirroring : Mirroring) : Nat → Nat → Prop
  /-- An address has fourteen bits. -/
  | space (a : Nat) : Repeats mirroring (0x4000 + a) a
  /-- The nametables are seen once more below the palette. -/
  | nametables {i : Nat} : i < 0xF00 → Repeats mirroring (0x3000 + i) (0x2000 + i)
  /-- Horizontal mirroring repeats a nametable to its right. -/
  | right {k i : Nat} : mirroring = .horizontal → k ∈ [0x2000, 0x2800] → i < 0x400 →
      Repeats mirroring (k + 0x400 + i) (k + i)
  /-- Vertical mirroring repeats a nametable below it. -/
  | below {k i : Nat} : mirroring = .vertical → k ∈ [0x2000, 0x2400] → i < 0x400 →
      Repeats mirroring (k + 0x800 + i) (k + i)
  | palette {a : Nat} : 0x3F00 ≤ a → a + 32 < 0x4000 → Repeats mirroring (a + 32) a
  /-- The first colours of the sprite palettes are those of the background palettes. -/
  | backdrop {k : Nat} : k ∈ [0x0, 0x4, 0x8, 0xC] → Repeats mirroring (0x3F10 + k) (0x3F00 + k)

/-- Addresses that the rules join, in one step or in several, name the same cell; no others do. -/
def SameCell (mirroring : Mirroring) (a b : UInt16) : Prop :=
  Relation.EqvGen (Repeats mirroring) a.toNat b.toNat

/-- A cell of the memories that the picture unit can address. -/
inductive Cell
  | pattern (i : Fin 0x2000)
  | nametable (i : Fin 0x800)
  | colour (i : Fin 32)
deriving DecidableEq

/-- The nametable of the console that an address leads to. -/
def tableAt (mirroring : Mirroring) (a : Nat) : Nat :=
  match mirroring with
  | .horizontal => a / 0x800 % 2
  | .vertical => a / 0x400 % 2

/-- The entry of the palette that an address leads to. -/
def entryAt (a : Nat) : Nat := if a % 4 = 0 then a % 16 else a % 32

theorem entryAt_lt (a : Nat) : entryAt a < 32 := by
  unfold entryAt
  split <;> omega

/-- The cell that an address leads to. -/
def cellAt (mirroring : Mirroring) (a : Nat) : Cell :=
  if a % 0x4000 < 0x2000 then .pattern ⟨a % 0x2000, Nat.mod_lt _ (by decide)⟩
  else if a % 0x4000 < 0x3F00 then .nametable (nametableByte (tableAt mirroring a) a)
  else .colour ⟨entryAt a, entryAt_lt a⟩

/-- The lowest address of a cell. -/
def Cell.lowest (mirroring : Mirroring) : Cell → Nat
  | .pattern i => i
  | .nametable i =>
    match mirroring with
    | .horizontal => 0x2000 + i / 0x400 * 0x800 + i % 0x400
    | .vertical => 0x2000 + i / 0x400 * 0x400 + i % 0x400
  | .colour i => 0x3F00 + i

section Rules

variable {mirroring : Mirroring} {a b : Nat}

theorem cellAt_pattern (h : a % 0x4000 < 0x2000) :
    cellAt mirroring a = .pattern ⟨a % 0x2000, Nat.mod_lt _ (by decide)⟩ := by
  simp only [cellAt, if_pos h]

theorem cellAt_nametable (h : 0x2000 ≤ a % 0x4000) (h' : a % 0x4000 < 0x3F00) :
    cellAt mirroring a = .nametable (nametableByte (tableAt mirroring a) a) := by
  simp only [cellAt, if_neg (Nat.not_lt.mpr h), if_pos h']

theorem cellAt_colour (h : 0x3F00 ≤ a % 0x4000) :
    cellAt mirroring a = .colour ⟨entryAt a, entryAt_lt a⟩ := by
  have hpattern : ¬a % 0x4000 < 0x2000 := by omega
  simp only [cellAt, if_neg hpattern, if_neg (Nat.not_lt.mpr h)]

theorem cellAt_eq_of_nametable (ha : 0x2000 ≤ a % 0x4000) (ha' : a % 0x4000 < 0x3F00)
    (hb : 0x2000 ≤ b % 0x4000) (hb' : b % 0x4000 < 0x3F00)
    (htable : tableAt mirroring a = tableAt mirroring b) (hplace : a % 0x400 = b % 0x400) :
    cellAt mirroring a = cellAt mirroring b := by
  rw [cellAt_nametable ha ha', cellAt_nametable hb hb', htable]
  congr 1
  apply Fin.ext
  simp only [nametableByte, hplace]

theorem cellAt_eq_of_colour (ha : 0x3F00 ≤ a % 0x4000) (hb : 0x3F00 ≤ b % 0x4000)
    (hentry : entryAt a = entryAt b) : cellAt mirroring a = cellAt mirroring b := by
  rw [cellAt_colour ha, cellAt_colour hb]
  simp only [hentry]

/-- An address that repeats another leads to the same cell. -/
theorem cellAt_of_repeats (h : Repeats mirroring a b) :
    cellAt mirroring a = cellAt mirroring b := by
  cases h with
  | space =>
    -- the higher bits are in no test and in no index
    have hplace : (0x4000 + b) % 0x4000 = b % 0x4000 := Nat.add_mod_left _ _
    have htable : tableAt mirroring (0x4000 + b) = tableAt mirroring b := by
      cases mirroring <;> simp only [tableAt] <;> omega
    have hentry : entryAt (0x4000 + b) = entryAt b := by
      simp only [entryAt]
      split <;> split <;> omega
    by_cases hpattern : b % 0x4000 < 0x2000
    · rw [cellAt_pattern (by omega), cellAt_pattern hpattern]
      simp only [Cell.pattern.injEq, Fin.mk.injEq]
      omega
    by_cases hnametable : b % 0x4000 < 0x3F00
    · exact cellAt_eq_of_nametable (by omega) (by omega) (by omega) hnametable htable (by omega)
    · exact cellAt_eq_of_colour (by omega) (by omega) hentry
  | nametables hi =>
    apply cellAt_eq_of_nametable (by omega) (by omega) (by omega) (by omega) ?_ (by omega)
    cases mirroring <;> simp only [tableAt] <;> omega
  | right hm hk hi =>
    simp only [List.mem_cons, List.not_mem_nil, or_false] at hk
    apply cellAt_eq_of_nametable (by omega) (by omega) (by omega) (by omega) ?_ (by omega)
    simp only [hm, tableAt]
    omega
  | below hm hk hi =>
    simp only [List.mem_cons, List.not_mem_nil, or_false] at hk
    apply cellAt_eq_of_nametable (by omega) (by omega) (by omega) (by omega) ?_ (by omega)
    simp only [hm, tableAt]
    omega
  | palette hlow hhigh =>
    apply cellAt_eq_of_colour (by omega) (by omega)
    simp only [entryAt]
    split <;> split <;> omega
  | backdrop hk =>
    simp only [List.mem_cons, List.not_mem_nil, or_false] at hk
    apply cellAt_eq_of_colour (by omega) (by omega)
    simp only [entryAt]
    split <;> split <;> omega

open Relation

/-- Addresses that the rules join lead to the same cell. -/
theorem cellAt_of_joined (h : EqvGen (Repeats mirroring) a b) :
    cellAt mirroring a = cellAt mirroring b := by
  induction h with
  | rel a b h => exact cellAt_of_repeats h
  | refl a => rfl
  | symm a b _ ih => exact ih.symm
  | trans a b c _ _ ih ih' => exact ih.trans ih'

theorem joined_of_eq (h : a = b) : EqvGen (Repeats mirroring) a b := by
  rw [h]
  exact .refl b

theorem joined_of_repeats {x y : Nat} (h : Repeats mirroring x y) (hx : a = x) (hy : y = b) :
    EqvGen (Repeats mirroring) a b := by
  rw [hx, ← hy]
  exact .rel x y h

/-- What repeats with a period is joined to where it is for the first time. -/
theorem joined_mod {f : Nat → Nat} {period n : Nat}
    (h : ∀ i, i + period ≤ n → Repeats mirroring (f (i + period)) (f i)) :
    EqvGen (Repeats mirroring) (f n) (f (n % period)) := by
  have hturns : ∀ turns, n % period + period * turns ≤ n →
      EqvGen (Repeats mirroring) (f (n % period + period * turns)) (f (n % period)) := by
    -- upwards from the first place, so that no turn leads past `n`
    intro turns
    induction turns with
    | zero =>
      intro _
      exact .refl _
    | succ turns ih =>
      intro hle
      rw [Nat.mul_succ, ← Nat.add_assoc] at hle ⊢
      have hlast := EqvGen.rel _ _ (h (n % period + period * turns) hle)
      exact hlast.trans _ _ _ (ih (Nat.le_of_add_right_le hle))
  have hall := hturns (n / period) (Nat.mod_add_div n period).le
  rwa [Nat.mod_add_div] at hall

theorem joined_space (a : Nat) : EqvGen (Repeats mirroring) a (a % 0x4000) := by
  apply joined_mod (f := id)
  intro i _
  rw [Nat.add_comm]
  exact .space i

theorem joined_palette (n : Nat) (h : 0x3F00 + n < 0x4000) :
    EqvGen (Repeats mirroring) (0x3F00 + n) (0x3F00 + n % 32) := by
  apply joined_mod (f := (0x3F00 + ·))
  intro i hi
  have hhigh : 0x3F00 + i + 32 < 0x4000 := by omega
  exact .palette (Nat.le_add_right _ _) hhigh

/-- The four nametables are joined to the two that the console holds. -/
theorem joined_nametable (h : 0x2000 ≤ a) (h' : a < 0x3F00) :
    EqvGen (Repeats mirroring) a ((cellAt mirroring a).lowest mirroring) := by
  -- first out of the copy below the palette, then to the nametable that is repeated
  have hdown : EqvGen (Repeats mirroring) a (0x2000 + a % 0x1000) := by
    by_cases hhigh : a < 0x3000
    · exact joined_of_eq (by omega)
    · exact joined_of_repeats (.nametables (i := a - 0x3000) (by omega)) (by omega) (by omega)
  apply hdown.trans
  rw [cellAt_nametable (by omega) (by omega)]
  cases mirroring with
  | horizontal =>
    simp only [Cell.lowest, nametableByte, tableAt]
    by_cases hleft : a / 0x400 % 2 = 0
    · exact joined_of_eq (by omega)
    · have hrow : 0x2000 + a / 0x800 % 2 * 0x800 ∈ [0x2000, 0x2800] := by
        simp only [List.mem_cons, List.not_mem_nil, or_false]
        omega
      have hplace : a % 0x400 < 0x400 := Nat.mod_lt _ (by decide)
      exact joined_of_repeats (.right rfl hrow hplace) (by omega) (by omega)
  | vertical =>
    simp only [Cell.lowest, nametableByte, tableAt]
    by_cases habove : a / 0x800 % 2 = 0
    · exact joined_of_eq (by omega)
    · have hcolumn : 0x2000 + a / 0x400 % 2 * 0x400 ∈ [0x2000, 0x2400] := by
        simp only [List.mem_cons, List.not_mem_nil, or_false]
        omega
      have hplace : a % 0x400 < 0x400 := Nat.mod_lt _ (by decide)
      exact joined_of_repeats (.below rfl hcolumn hplace) (by omega) (by omega)

theorem joined_colour (h : 0x3F00 ≤ a) (h' : a < 0x4000) :
    EqvGen (Repeats mirroring) a ((cellAt mirroring a).lowest mirroring) := by
  have hdown : EqvGen (Repeats mirroring) a (0x3F00 + a % 32) := by
    apply (joined_of_eq (show a = 0x3F00 + (a - 0x3F00) by omega)).trans
    apply (joined_palette (a - 0x3F00) (by omega)).trans
    exact joined_of_eq (by omega)
  apply hdown.trans
  rw [cellAt_colour (by omega)]
  simp only [Cell.lowest, entryAt]
  -- the first colours of the sprite palettes are the only ones that are still to be moved
  by_cases hfirst : a % 4 = 0 ∧ 16 ≤ a % 32
  · apply joined_of_repeats (.backdrop (k := a % 16) ?_)
    · omega
    · rw [if_pos hfirst.1]
    · simp only [List.mem_cons, List.not_mem_nil, or_false]
      omega
  · apply joined_of_eq
    split <;> omega

/-- Every address is joined to the lowest one of its cell. -/
theorem joined_lowest (a : Nat) :
    EqvGen (Repeats mirroring) a ((cellAt mirroring a).lowest mirroring) := by
  have hspace : EqvGen (Repeats mirroring) a (a % 0x4000) := joined_space a
  have hlt : a % 0x4000 < 0x4000 := Nat.mod_lt _ (by decide)
  rw [cellAt_of_joined hspace]
  apply hspace.trans
  by_cases hpattern : a % 0x4000 < 0x2000
  · rw [cellAt_pattern (by omega)]
    exact joined_of_eq (by simp only [Cell.lowest]; omega)
  by_cases hnametable : a % 0x4000 < 0x3F00
  · exact joined_nametable (by omega) hnametable
  · exact joined_colour (by omega) hlt

theorem sameCell_iff {a b : UInt16} :
    SameCell mirroring a b ↔ cellAt mirroring a.toNat = cellAt mirroring b.toNat := by
  constructor
  · exact cellAt_of_joined
  -- addresses of one cell are joined by way of the lowest one
  · intro h
    have hb : EqvGen (Repeats mirroring) b.toNat ((cellAt mirroring b.toNat).lowest mirroring) :=
      joined_lowest b.toNat
    rw [← h] at hb
    exact (joined_lowest a.toNat).trans _ _ _ (hb.symm _ _)

instance (mirroring : Mirroring) (a b : UInt16) : Decidable (SameCell mirroring a b) :=
  decidable_of_iff _ sameCell_iff.symm

example : SameCell .vertical 0x6400 0x2C00 ∧ ¬SameCell .horizontal 0x2400 0x2C00 := by decide

end Rules

namespace VideoMemory

variable {m : VideoMemory} {c : Cartridge} {a : UInt16}

/-- What a cell holds, with `c` in the slot. -/
def held (m : VideoMemory) (c : Cartridge) : Cell → UInt8
  | .pattern i => c.chr[i]
  | .nametable i => m.nametables[i]
  | .colour i => m.palette[i]

/-- The address leads to a cell that can be written; pattern ROM cannot. -/
def Writable (c : Cartridge) (a : UInt16) : Prop :=
  a.toNat % 0x4000 < 0x2000 → c.header.hasChrRam = true

instance (c : Cartridge) (a : UInt16) : Decidable (Writable c a) :=
  inferInstanceAs (Decidable (_ → _))

/-- What is kept of a byte that is written. Colours have six bits. -/
def kept (a : UInt16) (v : UInt8) : UInt8 :=
  if 0x3F00 ≤ a.toNat % 0x4000 then v &&& 0x3F else v

theorem lt_palette_iff (a : UInt16) : a &&& 0x3FFF < 0x3F00 ↔ a.toNat % 0x4000 < 0x3F00 := by
  rw [UInt16.lt_iff_toNat_lt, toNat_and_mask]
  rfl

theorem nametableIndex_masked (mirroring : Mirroring) (a : UInt16) :
    nametableIndex mirroring (a &&& 0x3FFF) =
      Picture.nametableByte (tableAt mirroring a.toNat) a.toNat := by
  apply Fin.ext
  cases mirroring with
  | horizontal | vertical =>
    simp only [nametableIndex, Picture.nametableByte, tableAt, toNat_and_mask]
    omega

theorem paletteIndex_masked (a : UInt16) :
    paletteIndex (a &&& 0x3FFF) = ⟨entryAt a.toNat, entryAt_lt _⟩ := by
  apply Fin.ext
  simp only [paletteIndex, entryAt, toNat_and_mask]
  split <;> split <;> simp only <;> omega

/-- A read answers what the cell holds. -/
theorem read_eq_held (h : m.cartridge = some c) (a : UInt16) :
    m.read a = .ok (m.held c (cellAt m.mirroring a.toNat)) := by
  unfold VideoMemory.read
  by_cases hpattern : a.toNat % 0x4000 < 0x2000
  · have hindex : (a &&& 0x3FFF).toNat = a.toNat % 0x2000 := by
      rw [toNat_and_mask]
      omega
    have hlt : a.toNat % 0x2000 < 0x2000 := Nat.mod_lt _ (by decide)
    rw [cellAt_pattern hpattern]
    simp only [(lt_pattern_iff a).mpr hpattern, if_true, pattern, h, Cartridge.readPattern,
      hindex, dif_pos hlt]
    rfl
  by_cases hnametable : a.toNat % 0x4000 < 0x3F00
  · rw [cellAt_nametable (Nat.not_lt.mp hpattern) hnametable]
    simp only [mt (lt_pattern_iff a).mp hpattern, (lt_palette_iff a).mpr hnametable, if_true,
      if_false, tile, nametableIndex_masked, held]
  · rw [cellAt_colour (Nat.not_lt.mp hnametable)]
    simp only [mt (lt_pattern_iff a).mp hpattern, mt (lt_palette_iff a).mp hnametable, if_false,
      colour, paletteIndex_masked, held]

theorem writePattern_eq {addr : UInt16} (h : addr.toNat < 0x2000) (c : Cartridge) (v : UInt8) :
    Cartridge.writePattern addr v c =
      if c.header.hasChrRam then ⟨.ok (), { c with chr := c.chr.set addr.toNat v }, []⟩
      else ⟨.ok (), c, [.chrWriteIgnored v addr]⟩ := by
  unfold Cartridge.writePattern
  rw [dif_pos h, Action.view_bind, Action.ite_apply]
  rfl

/-- A write changes the cell at its address, if that can be written, and no other one. -/
theorem write_held (h : m.cartridge = some c) (a : UInt16) (v : UInt8) :
    ∃ m' c' es, write a v m = ⟨.ok (), m', es⟩ ∧ m'.cartridge = some c' ∧
      m'.mirroring = m.mirroring ∧ ∀ cell, m'.held c' cell =
        if cell = cellAt m.mirroring a.toNat ∧ Writable c a then kept a v else m.held c cell := by
  unfold write
  by_cases hpattern : a.toNat % 0x4000 < 0x2000
  · have hindex : (a &&& 0x3FFF).toNat = a.toNat % 0x2000 := by
      rw [toNat_and_mask]
      omega
    have hlt : (a &&& 0x3FFF).toNat < 0x2000 := by
      rw [hindex]
      exact Nat.mod_lt _ (by decide)
    rw [cellAt_pattern hpattern]
    simp only [(lt_pattern_iff a).mpr hpattern, if_true]
    rw [onCartridge_eq, onSlot_of_full h, writePattern_eq hlt]
    by_cases hram : c.header.hasChrRam = true
    · rw [if_pos hram]
      refine ⟨_, _, [], rfl, cartridgeIn_replace_self h, rfl, ?_⟩
      intro cell
      have hwritable : Writable c a := fun _ => hram
      have hkept : kept a v = v := if_neg (by omega)
      -- the other two memories are not what has been written
      cases cell with
      | pattern i =>
        simp [held, hwritable, hkept, Vector.getElem_set, hindex, Fin.ext_iff, eq_comm]
      | nametable i => simp [held, replace]
      | colour i => simp [held, replace]
    · rw [if_neg hram, replace_self h]
      refine ⟨_, c, _, rfl, h, rfl, ?_⟩
      intro cell
      have hrom : ¬Writable c a := fun hwritable => hram (hwritable hpattern)
      simp only [hrom, and_false, if_false]
  by_cases hnametable : a.toNat % 0x4000 < 0x3F00
  · rw [cellAt_nametable (Nat.not_lt.mp hpattern) hnametable]
    simp only [mt (lt_pattern_iff a).mp hpattern, (lt_palette_iff a).mpr hnametable, if_true,
      if_false, nametableIndex_masked, Action.update_apply]
    refine ⟨_, c, [], rfl, h, rfl, ?_⟩
    intro cell
    have hwritable : Writable c a := fun h => absurd h hpattern
    have hkept : kept a v = v := if_neg (by omega)
    cases cell with
    | pattern i => simp [held]
    | nametable i =>
      simp [held, hwritable, hkept, Vector.getElem_set, Fin.ext_iff, eq_comm]
    | colour i => simp [held]
  · rw [cellAt_colour (Nat.not_lt.mp hnametable)]
    simp only [mt (lt_pattern_iff a).mp hpattern, mt (lt_palette_iff a).mp hnametable, if_false,
      paletteIndex_masked, Action.update_apply]
    refine ⟨_, c, [], rfl, h, rfl, ?_⟩
    intro cell
    have hwritable : Writable c a := fun h => absurd h hpattern
    have hkept : kept a v = v &&& 0x3F := if_pos (Nat.not_lt.mp hnametable)
    cases cell with
    | pattern i => simp [held]
    | nametable i => simp [held]
    | colour i =>
      simp [held, hwritable, hkept, Vector.getElem_set, Fin.ext_iff, eq_comm]

/-- A write does not change what the cartridge in the slot is. -/
theorem header_of_write (a : UInt16) (v : UInt8) (m : VideoMemory) :
    (write a v m).state.cartridge.map (·.header) = m.cartridge.map (·.header) := by
  unfold write
  rw [Action.ite_apply, Action.ite_apply]
  split
  next hpattern =>
    rw [onCartridge_eq]
    cases h : m.cartridge with
    | none => rw [onSlot_of_empty h, h]
    | some c =>
      have hlt : (a &&& 0x3FFF).toNat < 0x2000 := UInt16.lt_iff_toNat_lt.mp hpattern
      have hslot (c' : Cartridge) : (m.replace m.slot c').cartridge = some c' :=
        cartridgeIn_replace_self h
      rw [onSlot_of_full h, writePattern_eq hlt]
      by_cases hram : c.header.hasChrRam = true
      · rw [if_pos hram]
        dsimp only
        rw [hslot]
        rfl
      · rw [if_neg hram]
        dsimp only
        rw [hslot]
  split <;> rfl

/-- With a cartridge in the slot neither access fails. A byte that is written is read at exactly
those addresses that name the same cell, if that can be written, and all others read as before. -/
theorem reads_of_written (h : m.cartridge = some c) (a b : UInt16) (v : UInt8) :
    (write a v m).answer = .ok () ∧ (∃ w, m.read b = .ok w) ∧
    (SameCell m.mirroring a b ∧ Writable c a → (write a v m).state.read b = .ok (kept a v)) ∧
    (¬(SameCell m.mirroring a b ∧ Writable c a) → (write a v m).state.read b = m.read b) := by
  obtain ⟨m', c', es, hwrite, hslot, hmirroring, hheld⟩ := write_held h a v
  rw [hwrite]
  refine ⟨rfl, ⟨_, read_eq_held h b⟩, ?_, ?_⟩
  · rintro ⟨hsame, hwritable⟩
    have hcell := sameCell_iff.mp hsame
    rw [read_eq_held hslot, hmirroring, hheld, if_pos ⟨hcell.symm, hwritable⟩]
  · intro hother
    have hcell : ¬(cellAt m.mirroring b.toNat = cellAt m.mirroring a.toNat ∧ Writable c a) :=
      fun hsame => hother ⟨sameCell_iff.mpr hsame.1.symm, hsame.2⟩
    rw [read_eq_held hslot, hmirroring, hheld, if_neg hcell, read_eq_held h]

/-- A cartridge of zeros, with pattern ROM and horizontal mirroring. -/
def zeros : Cartridge := .plain (.replicate 0x4000 0) (.replicate 0x2000 0)

/-- The memory at power-on, with that cartridge in the slot. -/
def unwritten : VideoMemory := ({} : VideoMemory).insert zeros

/-- A nametable by an address below the palette that has more than fourteen bits, the backdrop of a
sprite palette, and pattern ROM. -/
theorem reads_of_written_zeros :
    (write 0xBC05 0x11 unwritten).state.read 0x2805 = .ok 0x11 ∧
    (write 0x3F10 0xFF unwritten).state.read 0x7FE0 = .ok 0x3F ∧
    (write 0x0005 0x11 unwritten).state.read 0x0005 = unwritten.read 0x0005 := by
  have hslot : unwritten.cartridge = some zeros := rfl
  obtain ⟨-, -, hnametable, -⟩ := reads_of_written hslot 0xBC05 0x2805 0x11
  obtain ⟨-, -, hcolour, -⟩ := reads_of_written hslot 0x3F10 0x7FE0 0xFF
  obtain ⟨-, -, -, hpattern⟩ := reads_of_written hslot 0x0005 0x0005 0x11
  exact ⟨hnametable ⟨by decide, by decide⟩, hcolour ⟨by decide, by decide⟩,
    hpattern fun hrom => absurd hrom.2 (by decide)⟩

end VideoMemory

end Famicom.Picture
