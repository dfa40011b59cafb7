import Famicom.Proofs.Picture.Bounds
import Famicom.Proofs.Picture.Still

/-! The sprites that a line shows are those of the line for which they were last fetched. That is
this line, unless nothing was rendered when the line above had come to its fetch. -/

namespace Famicom.Picture

open Famicom.Action

/-- A unit with an accepted cartridge, of which anything may be set before its first dot. -/
inductive Prepared : Picture → Prop
  | insert {image : Array UInt8} {c : Cartridge} :
      Cartridge.ofImage image = .ok c → Prepared (powerOn.insert c)
  | read {p : Picture} (addr : UInt16) : Prepared p → Prepared (readRegister addr p).state
  | write {p : Picture} (addr : UInt16) (data : UInt8) :
      Prepared p → Prepared (writeRegister addr data p).state
  | transfer {p : Picture} (bytes : List UInt8) : Prepared p → Prepared (p.writeOamAll bytes)

/-- The dot at which a line of sprites is fetched. -/
def atFetch (p : Picture) : Bool := (p.scanline < 240 ∨ p.scanline = 261) ∧ p.dot = 257

/-- The line of the screen for which sprites have been fetched after a dot, if for any. -/
def fetchedFor (p : Picture) (line : Option Nat) : Option Nat :=
  if p.atFetch && Mask.rendering p.mask then some (lineBelow p.scanline) else line

/-- Whether the last fetch, as it was due, was not left out. -/
def freshAfter (p : Picture) (fresh : Bool) : Bool :=
  if p.atFetch then Mask.rendering p.mask else fresh

/-- What becomes of a unit that is only ticked while its mask is written at any time: the line for
which sprites were last fetched, and whether the last fetch that was due was made. -/
inductive Masked (o : Picture) : Option Nat → Bool → Picture → Prop
  | start : Masked o none true o
  | tick {line : Option Nat} {fresh : Bool} {p : Picture} : Masked o line fresh p →
      Masked o (p.fetchedFor line) (p.freshAfter fresh) (tick p).state
  | mask {line : Option Nat} {fresh : Bool} {p : Picture} (addr : UInt16) (data : UInt8) :
      registerAt addr = 0x2001 → Masked o line fresh p →
      Masked o line fresh (writeRegister addr data p).state

/-- Sprite `i` covers a point of the screen. -/
structure CoversPoint (o : Picture) (i : Fin 64) (x y : Nat) : Prop where
  top_lt : (Compositor.spriteByte o i 0).toNat < 0xEF
  top_le : (Compositor.spriteByte o i 0).toNat + 1 ≤ y
  row_lt : y - 1 - (Compositor.spriteByte o i 0).toNat < Control.spriteHeight o.ctrl
  left_le : (Compositor.spriteByte o i 3).toNat ≤ x
  left_lt : x < (Compositor.spriteByte o i 3).toNat + 8

variable {o p p₁ q : Picture} {line : Option Nat} {fresh visible : Bool} {s d : Nat}

/-- A pixel of a line that shows the sprites of `y` belongs to one that covers its place there. -/
theorem covers_of_shows {row : SpriteLine} {x y : Nat} {pixel : SpritePixel} (h : Shows o y row)
    (hx : x < 256) (hpixel : row[x]? = some (some pixel)) : ∃ i, CoversPoint o i x y := by
  have hfirst := h x hx
  rw [hpixel, Option.join_some, Option.map_some] at hfirst
  obtain ⟨i, hi, hshown⟩ := List.exists_of_findSome?_eq_some hfirst.symm
  have hcovers : Compositor.covers o y i = true := Compositor.covers_of_mem hi
  have hpattern : Compositor.spritePattern o x y i ≠ 0 := by
    intro hzero
    unfold Compositor.spritePixel at hshown
    rw [if_pos hzero] at hshown
    cases hshown
  have hcolumn : (Compositor.spriteByte o i 3).toNat ≤ x ∧
      x < (Compositor.spriteByte o i 3).toNat + 8 := by
    by_contra hbeside
    exact hpattern (if_neg hbeside)
  unfold Compositor.covers at hcovers
  simp only [Bool.and_eq_true, decide_eq_true_iff, UInt8.lt_iff_toNat_lt] at hcovers
  obtain ⟨⟨htop, hle⟩, hlt⟩ := hcovers
  exact ⟨i, htop, hle, by omega, hcolumn.1, hcolumn.2⟩

/-- What is held before dot `d` of a scanline: no sprites, or those found for the line below, and a
blank line, or that of the last fetch. -/
structure Holds (o : Picture) (line : Option Nat) (fresh : Bool) (s d : Nat) (p : Picture) :
    Prop where
  ctrl : p.ctrl = o.ctrl
  oam : p.oam = o.oam
  memory : p.memory = o.memory
  found : Runs s → 65 < d → d ≤ 257 → p.sprites = [] ∨ p.sprites =
    (Compositor.spritesOf o (lineBelow s)).map (Compositor.found o (lineBelow s))
  shows : p.line = .blank ∨ ∃ y, line = some y ∧ Shows o y p.line
  above : fresh = true → s < height → d ≤ 257 → ∀ y, line = some y → y = s
  below : fresh = true → Runs s → 257 < d → ∀ y, line = some y → y = lineBelow s

theorem atFetch_iff (p : Picture) : p.atFetch = true ↔ Runs p.scanline ∧ p.dot = 257 :=
  decide_eq_true_iff

theorem fetchedFor_of_ne (h : ¬(Runs p.scanline ∧ p.dot = 257)) : p.fetchedFor line = line := by
  rw [← atFetch_iff, Bool.not_eq_true] at h
  unfold fetchedFor
  rw [h]
  rfl

theorem freshAfter_of_ne (h : ¬(Runs p.scanline ∧ p.dot = 257)) : p.freshAfter fresh = fresh := by
  rw [← atFetch_iff, Bool.not_eq_true] at h
  unfold freshAfter
  rw [h]
  rfl

theorem fetchedFor_of_fetch (hruns : Runs p.scanline) (hdot : p.dot = 257) : p.fetchedFor line =
    if Mask.rendering p.mask then some (lineBelow p.scanline) else line := by
  unfold fetchedFor
  rw [(atFetch_iff p).mpr ⟨hruns, hdot⟩, Bool.true_and]

theorem freshAfter_of_fetch (hruns : Runs p.scanline) (hdot : p.dot = 257) :
    p.freshAfter fresh = Mask.rendering p.mask :=
  if_pos ((atFetch_iff p).mpr ⟨hruns, hdot⟩)

/-- The sprites found for the line below, as far as they are shown. -/
theorem evaluated_cases (hctrl : p.ctrl = o.ctrl) (hoam : p.oam = o.oam)
    (hruns : Runs p.scanline) : p.evaluated = [] ∨ p.evaluated =
      (Compositor.spritesOf o (lineBelow p.scanline)).map
        (Compositor.found o (lineBelow p.scanline)) := by
  unfold evaluated
  split
  · right
    rcases hruns with hlt | hlast
    · rw [foundSprites_eq hctrl hoam, lineBelow_of_lt hlt]
    · rw [foundSprites_preRender hlast, hlast, lineBelow, if_pos rfl, Compositor.spritesOf_zero]
      rfl
  · exact Or.inl rfl

/-- The line of a fetch is blank or shows what was found, unless the fetch was left out. -/
theorem fetchedLine_cases (hctrl : p.ctrl = o.ctrl) (hmemory : p.memory = o.memory)
    (hfound : p.sprites = [] ∨ p.sprites =
      (Compositor.spritesOf o s).map (Compositor.found o s)) :
    (p.fetchedLine = .blank ∨ Mask.rendering p.mask = true ∧ Shows o s p.fetchedLine) ∨
      Mask.rendering p.mask = false ∧ p.fetchedLine = p.line := by
  cases hrendering : Mask.rendering p.mask with
  | false => exact Or.inr ⟨rfl, fetchedLine_of_hidden hrendering⟩
  | true =>
    left
    by_cases hshown : Mask.sprites p.mask = true
    · rw [fetchedLine_of_shown hshown, hctrl, hmemory]
      rcases hfound with hnone | hfound
      · rw [hnone]
        exact Or.inl rfl
      · rw [hfound]
        exact Or.inr ⟨rfl, shows_ofSprites o s⟩
    · exact Or.inl ((if_neg hshown).trans (if_pos hrendering))

section Dot

variable (hruns : Runs p.scanline) (h : Holds o line fresh p.scanline p.dot p)
  (he : Evaluates p p₁)
include hruns h he

theorem found_dot (hstart : 65 ≤ p.dot) (hend : p.dot ≤ 257) : p₁.sprites = [] ∨ p₁.sprites =
    (Compositor.spritesOf o (lineBelow p.scanline)).map
      (Compositor.found o (lineBelow p.scanline)) := by
  by_cases hnow : p.dot = 65
  · rw [he.found hnow]
    exact evaluated_cases h.ctrl h.oam hruns
  · rw [he.kept hnow]
    exact h.found hruns (by omega) hend

theorem shows_dot (hd : DotEffect visible p₁ q) :
    q.line = .blank ∨ ∃ y, p.fetchedFor line = some y ∧ Shows o y q.line := by
  have hfound := found_dot hruns h he
  obtain ⟨⟨status, sprites, rfl⟩, -, -⟩ := he
  by_cases hnow : p.dot = 257
  · have hctrl : { p with status, sprites }.ctrl = o.ctrl := h.ctrl
    have hmemory : { p with status, sprites }.memory = o.memory := h.memory
    rw [fetchedFor_of_fetch hruns hnow, hd.line_fetched hnow]
    rcases fetchedLine_cases hctrl hmemory (hfound (by omega) (by omega)) with
      (hblank | ⟨hrendering, hmade⟩) | ⟨hhidden, hleft⟩
    · exact Or.inl hblank
    · exact Or.inr ⟨_, if_pos hrendering, hmade⟩
    -- the fetch is left out, and the line stays what it was
    · have hhidden : ¬Mask.rendering p.mask = true := Bool.eq_false_iff.mp hhidden
      rw [hleft, if_neg hhidden]
      exact h.shows
  · have hne : ¬(Runs p.scanline ∧ p.dot = 257) := fun hfetch => hnow hfetch.2
    rw [hd.line_kept hnow, fetchedFor_of_ne hne]
    exact h.shows

/-- A dot of a scanline that runs: it finds the sprites at dot 65 and fetches them at dot 257. -/
theorem holds_dot (hd : DotEffect visible p₁ q) (hs : Static p q) :
    Holds o (p.fetchedFor line) (p.freshAfter fresh) p.scanline (p.dot + 1) q := by
  refine ⟨hs.ctrl.trans h.ctrl, hs.oam.trans h.oam, hs.memory.trans h.memory, ?_,
    shows_dot hruns h he hd, ?_, ?_⟩
  · intro _ hdot hend
    rw [hd.sprites]
    exact found_dot hruns h he (by omega) (by omega)
  · intro hfresh hlt hdot
    have hne : ¬(Runs p.scanline ∧ p.dot = 257) := fun hfetch => by omega
    rw [freshAfter_of_ne hne] at hfresh
    rw [fetchedFor_of_ne hne]
    exact h.above hfresh hlt (by omega)
  · intro hfresh _ hdot
    by_cases hnow : p.dot = 257
    · rw [freshAfter_of_fetch hruns hnow] at hfresh
      rw [fetchedFor_of_fetch hruns hnow, if_pos hfresh]
      exact fun y hy => (Option.some.inj hy).symm
    · have hne : ¬(Runs p.scanline ∧ p.dot = 257) := fun hfetch => hnow hfetch.2
      rw [freshAfter_of_ne hne] at hfresh
      rw [fetchedFor_of_ne hne]
      exact h.below hfresh hruns (by omega)

end Dot

/-- On the other scanlines nothing is found or fetched. -/
theorem holds_rest (hruns : ¬Runs s) (h : Holds o line fresh s d p) :
    Holds o line fresh s (d + 1) p :=
  { h with
    found := fun hr => absurd hr hruns
    above := fun _ hlt => absurd (Or.inl hlt) hruns
    below := fun _ hr => absurd hr hruns }

theorem holds_congr (hs : Static p q) (hsprites : q.sprites = p.sprites) (hline : q.line = p.line)
    (h : Holds o line fresh s d p) : Holds o line fresh s d q where
  ctrl := hs.ctrl.trans h.ctrl
  oam := hs.oam.trans h.oam
  memory := hs.memory.trans h.memory
  found := by
    rw [hsprites]
    exact h.found
  shows := by
    rw [hline]
    exact h.shows
  above := h.above
  below := h.below

/-- What is held at the end of a scanline is held at the beginning of the one below. -/
theorem holds_wrap {s' d' : Nat} (h : Holds o line fresh s d p) (hd : dotsPerScanline ≤ d)
    (hd' : d' ≤ 1) (hbelow : s' < height → Runs s ∧ lineBelow s = s') :
    Holds o line fresh s' d' p := by
  have hend : 341 ≤ d := hd
  refine { h with found := fun _ hlater => by omega, above := ?_, below := fun _ _ hlater => by omega }
  intro hfresh hlt _ y hy
  obtain ⟨hruns, rfl⟩ := hbelow hlt
  exact h.below hfresh hruns (by omega) y hy

theorem holds_next {x : Position} (hx : x.Bounded)
    (h : Holds o line fresh x.scanline (x.dot + 1) p) :
    Holds o line fresh x.next.scanline x.next.dot p := by
  rcases next_cases hx with ⟨hscanline, hdot⟩ | ⟨hend, hstart, hbelow⟩
  · rw [hscanline, hdot]
    exact h
  · exact holds_wrap h hend hstart hbelow

/-- The work of a dot, before the step to the next place. -/
theorem holds_drawDot (hp : Plugged p) (h : Holds o line fresh p.scanline p.dot p) :
    ∃ q es, drawDot p = ⟨.ok (), q, es⟩ ∧
      Holds o (p.fetchedFor line) (p.freshAfter fresh) p.scanline (p.dot + 1) q := by
  have hself : Static p p := ⟨rfl, rfl, rfl, rfl, rfl, rfl⟩
  by_cases hruns : Runs p.scanline
  · obtain ⟨p₁, q, es, hq, he, hd⟩ := effect_of_steady hruns (steady_of_plugged hp)
    exact ⟨q, es, hq, holds_dot hruns h he hd (static_of_drawDot hself hq).1⟩
  · have hne : ¬(Runs p.scanline ∧ p.dot = 257) := fun hfetch => hruns hfetch.1
    obtain ⟨status, nmiPending, hq⟩ := drawDot_of_not_runs hruns
    have hs := (static_of_drawDot hself hq).1
    rw [fetchedFor_of_ne hne, freshAfter_of_ne hne]
    exact ⟨_, _, hq, holds_congr hs rfl rfl (holds_rest hruns h)⟩

theorem holds_tick (hp : Plugged p) (h : Holds o line fresh p.scanline p.dot p) :
    Holds o (p.fetchedFor line) (p.freshAfter fresh) (tick p).state.scanline (tick p).state.dot
      (tick p).state := by
  obtain ⟨q, es, hq, hdot⟩ := holds_drawDot hp h
  obtain ⟨hit, es', htick⟩ := tick_of_drawDot hq
  have hnext := holds_next (steady_of_plugged hp).bounded hdot
  rw [htick]
  exact holds_congr (p := q) ⟨rfl, rfl, rfl, rfl, rfl, rfl⟩ rfl rfl hnext

/-- An access moves nothing and draws nothing. -/
theorem registerKeeps_unticked :
    RegisterKeeps (fun p => p.scanline = 0 ∧ p.dot = 0 ∧ p.line = .blank) (fun _ => True) where
  status _ h := h
  buffer _ _ h := h
  stepAddress _ h := h
  control _ _ h := h
  mask _ _ h := h
  oamAddress _ _ h := h
  oam _ _ h := h
  scroll _ _ h := by
    unfold writeScroll
    split <;> exact h
  address _ _ h := by
    unfold writeAddress
    split <;> exact h
  readFault _ _ _ _ _ := trivial
  memory _ _ := fun _ hp => ⟨hp, fun _ _ => trivial⟩

theorem unticked_of_prepared (h : Prepared p) :
    Plugged p ∧ p.scanline = 0 ∧ p.dot = 0 ∧ p.line = .blank := by
  induction h with
  | insert himage => exact ⟨.insert himage, rfl, rfl, rfl⟩
  | read addr _ ih => exact ⟨ih.1.read addr, (registerKeeps_unticked.readRegister addr _ ih.2).1⟩
  | write addr data _ ih =>
    exact ⟨ih.1.write addr data, (registerKeeps_unticked.write addr data _ ih.2).1⟩
  | transfer bytes _ ih => exact ⟨ih.1.transfer bytes, registerKeeps_unticked.writeOamAll ih.2 bytes⟩

theorem writeRegister_mask {addr : UInt16} (h : registerAt addr = 0x2001) (data : UInt8)
    (p : Picture) : (writeRegister addr data p).state = { p with mask := data } := by
  unfold writeRegister
  rw [bind_of_ok (report_apply _ p), h]
  rfl

theorem holds_of_masked (ho : Prepared o) (h : Masked o line fresh p) :
    Plugged p ∧ Holds o line fresh p.scanline p.dot p := by
  induction h with
  | start =>
    obtain ⟨hplugged, hscanline, hdot, hblank⟩ := unticked_of_prepared ho
    refine ⟨hplugged, ⟨rfl, rfl, rfl, ?_, Or.inl hblank, ?_, ?_⟩⟩
    · exact fun _ hlater => by omega
    · exact fun _ _ _ y hy => by cases hy
    · exact fun _ _ _ y hy => by cases hy
  | tick _ ih => exact ⟨ih.1.tick, holds_tick ih.1 ih.2⟩
  | mask addr data hmask _ ih =>
    refine ⟨ih.1.write addr data, ?_⟩
    rw [writeRegister_mask hmask]
    exact { ih.2 with }

/-- Whenever a visible dot finds a pixel in its line, a sprite covers the dot's column on the line
for which sprites were last fetched. If the fetch on the line above was made, that is the dot's own
line. -/
theorem sprites_of_masked (ho : Prepared o) (h : Masked o line fresh p) :
    (tick p).answer = .ok () ∧
    ∀ pixel, p.scanline < 240 → 1 ≤ p.dot → p.dot ≤ 256 →
      p.line[p.dot - 1]? = some (some pixel) →
      (∃ y i, line = some y ∧ CoversPoint o i (p.dot - 1) y) ∧
      (fresh = true → ∃ i, CoversPoint o i (p.dot - 1) p.scanline) := by
  obtain ⟨hplugged, hholds⟩ := holds_of_masked ho h
  obtain ⟨q, es, htick, -⟩ := tick_of_steady (steady_of_plugged hplugged)
  refine ⟨by rw [htick], ?_⟩
  intro pixel hscanline hfirst hlast hpixel
  have hx : p.dot - 1 < 256 := by omega
  rcases hholds.shows with hblank | ⟨y, hy, hshows⟩
  · rw [hblank, SpriteLine.blank, Vector.getElem?_replicate, if_pos hx] at hpixel
    cases hpixel
  · obtain ⟨i, hi⟩ := covers_of_shows hshows hx hpixel
    refine ⟨⟨y, i, hy, hi⟩, ?_⟩
    intro hfresh
    rw [← hholds.above hfresh hscanline (by omega) y hy]
    exact ⟨i, hi⟩

/-- While nothing is rendered, the line stays as it is. -/
theorem line_of_hidden (hp : Plugged p) (h : Mask.rendering p.mask = false) :
    (tick p).state.line = p.line := by
  have hkept : ∃ q es, drawDot p = ⟨.ok (), q, es⟩ ∧ q.line = p.line := by
    by_cases hruns : Runs p.scanline
    · obtain ⟨p₁, q, es, hq, he, hd⟩ := effect_of_steady hruns (steady_of_plugged hp)
      obtain ⟨⟨status, sprites, rfl⟩, -, -⟩ := he
      refine ⟨q, es, hq, ?_⟩
      by_cases hdot : p.dot = 257
      · rw [hd.line_fetched hdot]
        exact fetchedLine_of_hidden (p := { p with status, sprites }) h
      · exact hd.line_kept hdot
    · obtain ⟨status, nmiPending, hq⟩ := drawDot_of_not_runs hruns
      exact ⟨_, _, hq, rfl⟩
  obtain ⟨q, es, hq, hline⟩ := hkept
  obtain ⟨hit, es', htick⟩ := tick_of_drawDot hq
  rw [htick]
  exact hline

/-- Opaque patterns and all sprites in the upper left corner, shown without the background. -/
def corner : Picture :=
  { powerOn.insert (Cartridge.plain (.replicate 0x4000 0) (.replicate 0x2000 0xFF)) with
    mask := 0x14 }

theorem prepared_corner : Prepared corner := by
  have himage := Cartridge.ofImage_plainImage (.replicate 0x4000 0) (.replicate 0x2000 0xFF)
  have hwrite := (Prepared.insert himage).write 0x2001 0x14
  rw [writeRegister_mask (by decide)] at hwrite
  exact hwrite

/-- No sprite is shown on the first line. -/
theorem shows_blank (o : Picture) : Shows o 0 .blank := by
  intro x hx
  rw [Compositor.spritesOf_zero, SpriteLine.blank, Vector.getElem?_replicate, if_pos hx]
  rfl

theorem drawing_corner : Drawing corner 0 0 corner where
  toStatic := ⟨rfl, rfl, rfl, rfl, rfl, rfl⟩
  ready _ := ⟨fun _ hd => by omega, fun _ _ => shows_blank corner, fun _ hd => by omega⟩
  tiles hshown := by cases hshown

/-- The line fetched for the second line of the screen has a pixel at its left edge. -/
theorem masked_corner : ∃ p, (∃ line fresh, Masked corner line fresh p) ∧
    p.position = ⟨0, 258, false, 0, false⟩ ∧ ∃ pixel, p.line[0]? = some (some pixel) := by
  have hstep : ∀ p, (∃ line fresh, Masked corner line fresh p) ∧
      Drawing corner p.scanline p.dot p →
      ((∃ line fresh, Masked corner line fresh (tick p).state) ∧
        Drawing corner (tick p).state.scanline (tick p).state.dot (tick p).state) ∧
      (tick p).state.position = p.position.next := by
    rintro p ⟨⟨line, fresh, hmasked⟩, hdrawing⟩
    have hbounded := (steady_of_plugged (holds_of_masked prepared_corner hmasked).1).bounded
    obtain ⟨q, es, htick, hposition, hnext, -⟩ :=
      tick_of_drawing (o := corner) rfl (by decide) (by decide) hbounded hdrawing
    have hmasked' := hmasked.tick
    rw [htick] at hmasked' ⊢
    exact ⟨⟨⟨_, _, hmasked'⟩, hnext⟩, hposition⟩
  obtain ⟨p, ⟨hmasked, hdrawing⟩, hplace⟩ := exists_ahead (m := 0) hstep
    ⟨⟨_, _, .start⟩, drawing_corner⟩ rfl (by decide) (show 258 < 89342 by decide)
  have hscanline : p.scanline = 0 := congrArg Position.scanline hplace
  have hdot : p.dot = 258 := congrArg Position.dot hplace
  rw [hscanline, hdot] at hdrawing
  have hshows := (hdrawing.ready rfl).fetched (Or.inl (by decide)) (by decide) 0 (by decide)
  -- the first sprite is opaque there
  have hopaque : ((Compositor.spritesOf corner 1).findSome?
      (Compositor.spritePixel corner 0 1)).isSome = true := by decide
  refine ⟨p, hmasked, hplace, ?_⟩
  rw [lineBelow_of_lt (by decide), Vector.getElem?_eq_getElem (by decide), Option.join_some] at hshows
  rw [← hshows, Option.isSome_map] at hopaque
  obtain ⟨pixel, hpixel⟩ := Option.isSome_iff_exists.mp hopaque
  exact ⟨pixel, by rw [Vector.getElem?_eq_getElem (by decide), hpixel]⟩

/-- With nothing rendered from behind that fetch to the tenth line, its pixel is shown there,
where there is no sprite. -/
theorem sprites_of_corner : ∃ line p pixel, Prepared corner ∧ Masked corner line false p ∧
    p.scanline = 9 ∧ p.dot = 1 ∧ p.spriteAt (p.dot - 1) = some pixel ∧
    (¬∃ i, CoversPoint corner i (p.dot - 1) p.scanline) ∧
    ∃ y i, line = some y ∧ CoversPoint corner i (p.dot - 1) y := by
  obtain ⟨p, ⟨line, fresh, hmasked⟩, hplace, pixel, hpixel⟩ := masked_corner
  have hstep : ∀ q, (∃ line fresh, Masked corner line fresh q) ∧ q.mask = 0 ∧ q.line = p.line →
      ((∃ line fresh, Masked corner line fresh (tick q).state) ∧ (tick q).state.mask = 0 ∧
        (tick q).state.line = p.line) ∧
      (tick q).state.position = q.position.next := by
    rintro q ⟨⟨line, fresh, hmasked⟩, hmask, hline⟩
    have hplugged := (holds_of_masked prepared_corner hmasked).1
    have hhidden : Mask.rendering q.mask = false := by
      rw [hmask]
      rfl
    exact ⟨⟨⟨_, _, hmasked.tick⟩, (static_tick q).mask.trans hmask,
      (line_of_hidden hplugged hhidden).trans hline⟩, position_tick_of_plugged hplugged⟩
  -- nothing is rendered from here on
  have hoff := hmasked.mask 0x2001 0 (by decide)
  rw [writeRegister_mask (by decide)] at hoff
  obtain ⟨q, ⟨⟨line, fresh, hmasked⟩, -, hline⟩, hplace⟩ := exists_ahead (m := 258) hstep
    ⟨⟨_, _, hoff⟩, rfl, rfl⟩ hplace (by decide) (show 9 * 341 + 1 < 89342 by decide)
  -- and then the sprites are shown again
  have hon := hmasked.mask 0x2001 0x14 (by decide)
  rw [writeRegister_mask (by decide)] at hon
  have hscanline : q.scanline = 9 := congrArg Position.scanline hplace
  have hdot : q.dot = 1 := congrArg Position.dot hplace
  have hbare : ¬∃ i, CoversPoint corner i (q.dot - 1) q.scanline := by
    rintro ⟨i, hi⟩
    have htop : Compositor.spriteByte corner i 0 = 0 := Vector.getElem_replicate _
    have hrow := hi.row_lt
    rw [htop, hscanline] at hrow
    exact absurd hrow (by decide)
  have hleft : q.line[q.dot - 1]? = some (some pixel) := by
    rw [hline, hdot]
    exact hpixel
  obtain ⟨-, hcovered⟩ := sprites_of_masked prepared_corner hon
  obtain ⟨hfetched, hfresh⟩ := hcovered pixel (by dsimp only; omega) (by dsimp only; omega)
    (by dsimp only; omega) hleft
  obtain rfl : fresh = false := Bool.eq_false_iff.mpr fun h => hbare (hfresh h)
  refine ⟨line, _, pixel, prepared_corner, hon, hscanline, hdot, ?_, hbare, hfetched⟩
  have hshown : (Mask.sprites 0x14 && (decide (8 ≤ q.dot - 1) || Mask.spritesLeft 0x14)) = true := by
    rw [show Mask.spritesLeft 0x14 = true by decide, Bool.or_true]
    decide
  unfold spriteAt
  dsimp only
  rw [if_pos hshown, hleft]
  rfl

end Famicom.Picture
