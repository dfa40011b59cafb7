import Famicom.Picture.Register
import Famicom.Proofs.Cartridge
import Famicom.Proofs.Picture.Effect
import Famicom.Proofs.Picture.Line

/-! The sprites of a line are found at one dot and fetched at a later one, and registers may be
written in between. The line then holds what the first eight of them were when they were found,
and only the table of their patterns is selected when they are fetched. -/

namespace Famicom.Picture

open Famicom.Action

variable {p q : Picture}

/-- A register through which the memory is not reached: all but the last of the eight. -/
def SparesMemory (addr : UInt16) : Prop :=
  registerAt addr ∈ [0x2000, 0x2001, 0x2002, 0x2003, 0x2004, 0x2005, 0x2006]

instance (addr : UInt16) : Decidable (SparesMemory addr) := inferInstanceAs (Decidable (_ ∈ _))

/-- What a unit can come to between the dot at which it finds the sprites of a line, in `p`, and the
dot at which it fetches them. -/
inductive Awaits (p : Picture) : Picture → Prop
  | found : Awaits p (tick p).state
  | tick {q : Picture} : Awaits p q → q.dot < 257 → Awaits p (tick q).state
  | read {q : Picture} (addr : UInt16) : SparesMemory addr → Awaits p q →
      Awaits p (readRegister addr q).state
  | write {q : Picture} (addr : UInt16) (data : UInt8) : SparesMemory addr → Awaits p q →
      Awaits p (writeRegister addr data q).state
  | transfer {q : Picture} (bytes : List UInt8) : Awaits p q → Awaits p (q.writeOamAll bytes)
  | takeNmi {q : Picture} : Awaits p q → Awaits p (takeNmi (ε := Bus.Fault) q).state

/-- What is carried from the one dot to the other. -/
structure Chosen (p q : Picture) : Prop where
  scanline : q.scanline = p.scanline
  memory : q.memory = p.memory
  sprites : q.sprites =
    (Compositor.spritesOf p (p.scanline + 1)).map (Compositor.found p (p.scanline + 1))
  dot_gt : 65 < q.dot
  dot_le : q.dot ≤ 257

theorem Chosen.rowsSound (h : Chosen p q) : RowsSound q := by
  intro _ _ s hs
  rw [h.sprites] at hs
  obtain ⟨i, hi, rfl⟩ := List.mem_map.mp hs
  exact Compositor.row_found_lt (Compositor.covers_of_mem hi)

/-- What a tick does before the end of a visible line. -/
theorem effect_of_tick (hscanline : p.scanline < height) (hm : p.memory.cartridge.isSome)
    (hrows : RowsSound p) (hdot : p.dot ≤ 257) :
    ∃ p₁ q es, tick p = ⟨.ok (), q, es⟩ ∧ Evaluates p p₁ ∧ DotEffect true p₁ q ∧ Static p q ∧
      q.scanline = p.scanline ∧ q.dot = p.dot + 1 := by
  obtain ⟨p₁, q, es, hq, he, hd⟩ := effect_of_drawDot (Or.inl hscanline) hm hrows
  obtain ⟨hit, es', htick⟩ := tick_of_drawDot hq
  have hs : Static p q := (static_of_drawDot ⟨rfl, rfl, rfl, rfl, rfl, rfl⟩ hq).1
  have hnext : p.position.next = { p.position with dot := p.dot + 1 } :=
    if_pos (show p.dot + 1 < 341 by omega)
  rw [decide_eq_true hscanline] at hd
  refine ⟨p₁, _, es', htick, he, ?_, { hs with }, ?_, ?_⟩
  · exact { hd with background := fun hb => { hd.background hb with } }
  · exact congrArg Position.scanline hnext
  · exact congrArg Position.dot hnext

theorem keeps_chosen_read {addr : UInt16} (h : SparesMemory addr) :
    Keeps (Chosen p) (fun _ => True) (readRegister addr) := by
  unfold readRegister
  split <;> rename_i haddr
  · exact fun q hq => ⟨{ hq with }, fun _ _ => trivial⟩
  · exact keeps_view _
  · rw [SparesMemory, haddr] at h
    exact absurd h (by decide)
  · exact keeps_fail trivial

/-- None of what a write changes is looked at before the fetch, unless it is in the memory. -/
theorem keeps_chosen_write {addr : UInt16} (data : UInt8) (h : SparesMemory addr) :
    Keeps (Chosen p) (fun _ => True) (writeRegister addr data) := by
  have hscroll : ∀ q, Chosen p q → Chosen p (q.writeScroll data) := by
    intro q hq
    unfold writeScroll
    split <;> exact { hq with }
  have haddress : ∀ q, Chosen p q → Chosen p (q.writeAddress data) := by
    intro q hq
    unfold writeAddress
    split <;> exact { hq with }
  unfold writeRegister
  apply keeps_bind (keeps_report _)
  intro _
  split
  · exact keeps_update fun q hq => { hq with }
  · exact keeps_update fun q hq => { hq with }
  · exact keeps_fail trivial
  · exact keeps_update fun q hq => { hq with }
  · exact keeps_update fun q hq => { hq with }
  · exact keeps_update hscroll
  · exact keeps_update haddress
  · simp_all [SparesMemory]

theorem chosen_transfer (bytes : List UInt8) (h : Chosen p q) :
    Chosen p (q.writeOamAll bytes) := by
  unfold writeOamAll
  induction bytes generalizing q with
  | nil => exact h
  | cons data bytes ih => exact ih { h with }

section Dots

variable (hscanline : p.scanline < height) (hm : p.memory.cartridge.isSome)
include hscanline hm

/-- At the first of the two dots the sprites are found. -/
theorem chosen_found (hdot : p.dot = 65) (hshown : Mask.sprites p.mask = true) :
    ∃ q es, tick p = ⟨.ok (), q, es⟩ ∧ Chosen p q ∧ Static p q ∧ q.dot = 66 := by
  have hrows : RowsSound p := by
    intro hfetch
    omega
  obtain ⟨p₁, q, es, htick, he, hd, hs, hline, hnext⟩ :=
    effect_of_tick hscanline hm hrows (by omega)
  have hfound : p.evaluated = p.foundSprites := if_pos hshown
  have hsprites : q.sprites = p.foundSprites := by
    rw [hd.sprites, he.found hdot, hfound]
  refine ⟨q, es, htick, ⟨hline, hs.memory, ?_, by omega, by omega⟩, hs, by omega⟩
  rw [hsprites]
  exact foundSprites_eq rfl rfl

/-- From there on a tick works with what is carried. -/
theorem effect_of_chosen (h : Chosen p q) :
    ∃ q₁ r es, tick q = ⟨.ok (), r, es⟩ ∧ Evaluates q q₁ ∧ DotEffect true q₁ r ∧ Static q r ∧
      r.scanline = q.scanline ∧ r.dot = q.dot + 1 := by
  apply effect_of_tick
  · rw [h.scanline]
    exact hscanline
  · rw [h.memory]
    exact hm
  · exact h.rowsSound
  · exact h.dot_le

/-- Before the second of the two dots all of it stays as it is. -/
theorem chosen_tick (h : Chosen p q) (hdot : q.dot < 257) : ∃ r es,
    tick q = ⟨.ok (), r, es⟩ ∧ Chosen p r ∧ Static q r ∧ r.dot = q.dot + 1 := by
  have hgt := h.dot_gt
  obtain ⟨q₁, r, es, htick, he, hd, hs, hline, hnext⟩ := effect_of_chosen hscanline hm h
  have hsprites : r.sprites = q.sprites := hd.sprites.trans (he.kept (by omega))
  refine ⟨r, es, htick, ⟨?_, ?_, ?_, by omega, by omega⟩, hs, hnext⟩
  · exact hline.trans h.scanline
  · exact hs.memory.trans h.memory
  · exact hsprites.trans h.sprites

/-- The fetch draws the sprites that were found, with the control of its own time. -/
theorem line_of_chosen (h : Chosen p q) (hdot : q.dot = 257)
    (hshown : Mask.sprites q.mask = true) :
    (tick q).state.line = .ofSprites p.memory q.ctrl
      ((Compositor.spritesOf p (p.scanline + 1)).map (Compositor.found p (p.scanline + 1))) := by
  obtain ⟨q₁, r, es, htick, ⟨⟨status, sprites, rfl⟩, -, hkept⟩, hd, -, -, -⟩ :=
    effect_of_chosen hscanline hm h
  have hsprites : sprites = q.sprites := hkept (by omega)
  calc (tick q).state.line
    _ = r.line := by rw [htick]
    _ = fetchedLine { q with status, sprites } := hd.line_fetched hdot
    _ = .ofSprites q.memory q.ctrl sprites := fetchedLine_of_shown hshown
    _ = _ := by rw [hsprites, h.sprites, h.memory]

theorem chosen_of_awaits (hdot : p.dot = 65) (hshown : Mask.sprites p.mask = true)
    (h : Awaits p q) : Chosen p q := by
  -- the induction is on what the unit has done since it found the sprites
  induction h with
  | found =>
    obtain ⟨q, es, htick, hq, -⟩ := chosen_found hscanline hm hdot hshown
    rw [htick]
    exact hq
  | tick _ hlt ih =>
    obtain ⟨r, es, htick, hr, -⟩ := chosen_tick hscanline hm ih hlt
    rw [htick]
    exact hr
  | read addr hspares _ ih => exact (keeps_chosen_read hspares _ ih).1
  | write addr data hspares _ ih => exact (keeps_chosen_write data hspares _ ih).1
  | transfer bytes _ ih => exact chosen_transfer bytes ih
  | takeNmi _ ih => exact { ih with }

/-- Without any access the unit comes to each of the dots in between, and to that of the fetch. -/
theorem exists_awaits (hdot : p.dot = 65) (hshown : Mask.sprites p.mask = true) {n : Nat}
    (hn : 66 ≤ n) (hle : n ≤ 257) : ∃ q, Awaits p q ∧ Static p q ∧ q.dot = n := by
  induction n, hn using Nat.le_induction with
  | base =>
    obtain ⟨q, es, htick, -, hs, hnext⟩ := chosen_found hscanline hm hdot hshown
    have hq : Awaits p (tick p).state := .found
    rw [htick] at hq
    exact ⟨q, hq, hs, hnext⟩
  | succ n _ ih =>
    obtain ⟨q, hq, hs, rfl⟩ := ih (by omega)
    have hchosen := chosen_of_awaits hscanline hm hdot hshown hq
    obtain ⟨r, es, htick, -, hs', hnext⟩ := chosen_tick hscanline hm hchosen (by omega)
    have hr := hq.tick (by omega)
    rw [htick] at hr
    exact ⟨r, hr, hs.trans hs', hnext⟩

end Dots

/-- Each place of the line holds the pixel of the first of the sprites that is opaque there, as it
was when the sprites were found. They are shown one line below the one on which they are found. -/
theorem line_of_awaits (hscanline : p.scanline < 240) (hdot : p.dot = 65)
    (hshown : Mask.sprites p.mask = true) (hcartridge : p.memory.cartridge.isSome)
    (h : Awaits p q) :
    (tick p).answer = .ok () ∧ (tick q).answer = .ok () ∧
    (q.dot = 257 → Mask.sprites q.mask = true → ∀ x < 256, (tick q).state.line[x]? =
      some ((Compositor.spritesOf p (p.scanline + 1)).findSome?
        (Compositor.fetchedPixel p q.ctrl x (p.scanline + 1)))) := by
  have hchosen := chosen_of_awaits hscanline hcartridge hdot hshown h
  obtain ⟨_, _, hfirst, -⟩ := chosen_found hscanline hcartridge hdot hshown
  obtain ⟨_, _, _, hlast, -⟩ := effect_of_chosen hscanline hcartridge hchosen
  refine ⟨by rw [hfirst], by rw [hlast], ?_⟩
  intro hfetch hfetched x hx
  rw [line_of_chosen hscanline hcartridge hchosen hfetch hfetched, Vector.getElem?_eq_getElem hx,
    getElem_ofSprites_found p q.ctrl _ hx]

/-- All sprites in the upper left corner, at the dot that finds them. Only the upper table has
patterns that are not blank. -/
def crowdedCorner : Picture :=
  { powerOn.insert (Cartridge.plain (.replicate 0x4000 0)
      (.ofFn fun place => if place.val < 0x1000 then 0 else 0xFF)) with
    mask := 0x14
    dot := 65 }

theorem patternByte_crowdedCorner {place : Nat} (hle : 0x1000 ≤ place) (hlt : place < 0x2000) :
    crowdedCorner.memory.patternByte place = 0xFF := by
  have hchr : crowdedCorner.memory.patternByte place =
      (Vector.ofFn fun k : Fin 0x2000 => if k.val < 0x1000 then (0 : UInt8) else 0xFF)[place]?.getD
        0 := rfl
  rw [hchr, Vector.getElem?_eq_getElem hlt, Vector.getElem_ofFn, if_neg (by dsimp only; omega)]
  rfl

/-- The first of the sprites is opaque where the upper table is selected. -/
theorem fetchedPixel_crowdedCorner :
    Compositor.fetchedPixel crowdedCorner 0x28 7 1 0 = some ⟨3, false, true⟩ := by
  have hplace : Compositor.fetchedPlace crowdedCorner 0x28 1 0 = 0x1000 := by decide
  have hpattern : Compositor.fetchedPattern crowdedCorner 0x28 7 1 0 =
      crowdedCorner.memory.patternPixel (Compositor.fetchedPlace crowdedCorner 0x28 1 0) 0 :=
    Compositor.fetchedPattern_of_mem 0x28 (by decide)
  rw [hplace, VideoMemory.patternPixel, patternByte_crowdedCorner (by decide) (by decide),
    patternByte_crowdedCorner (by decide) (by decide)] at hpattern
  unfold Compositor.fetchedPixel
  rw [hpattern]
  decide

/-- The control is written before the fetch: the sprites stay low, but their patterns are taken from
the other table. -/
theorem line_of_crowdedCorner : ∃ q, Awaits crowdedCorner q ∧ q.dot = 257 ∧ q.ctrl = 0x28 ∧
    (tick q).state.line[7]? = some (some ⟨3, false, true⟩) ∧
    (tick q).state.line[8]? = some none := by
  have hscanline : crowdedCorner.scanline < 240 := by decide
  have hcartridge : crowdedCorner.memory.cartridge.isSome = true := rfl
  have hshown : Mask.sprites crowdedCorner.mask = true := by decide
  obtain ⟨q, hq, hs, hdot⟩ :=
    exists_awaits hscanline hcartridge rfl hshown (n := 257) (by decide) (by decide)
  have hwrite := hq.write 0x2000 0x28 (by decide)
  have hmask : Mask.sprites q.mask = true := by
    rw [hs.mask]
    exact hshown
  have hctrl : (writeRegister 0x2000 0x28 q).state.ctrl = 0x28 := rfl
  have hfound : Compositor.spritesOf crowdedCorner 1 = [0, 1, 2, 3, 4, 5, 6, 7] := by decide
  obtain ⟨-, -, hline⟩ := line_of_awaits hscanline rfl hshown hcartridge hwrite
  rw [show crowdedCorner.scanline + 1 = 1 from rfl, hctrl, hfound] at hline
  refine ⟨_, hwrite, hdot, hctrl, ?_, ?_⟩
  · rw [hline hdot hmask 7 (by decide), List.findSome?_cons, fetchedPixel_crowdedCorner]
  · rw [hline hdot hmask 8 (by decide)]
    decide

end Famicom.Picture
