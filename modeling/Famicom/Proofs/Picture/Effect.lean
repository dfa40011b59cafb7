import Famicom.Proofs.Picture.Pipeline

/-! What the work of one dot does to the sprites, to the line, to the pipelines and to the
picture, each by itself. -/

namespace Famicom.Picture

open Famicom.Action

variable {p q : Picture} {x : Position}

theorem rendering_eq (mask : UInt8) :
    Mask.rendering mask = (Mask.background mask || Mask.sprites mask) := by
  -- each mask is a digit of the byte, and the digit of the two layers is made of theirs
  have hboth : (mask &&& 0x18).toNat = mask.toNat / 8 % 4 * 8 := by
    rw [UInt8.toNat_and]
    exact Bits.and_digit _ 3 2
  have hbackground : (mask &&& 0x08).toNat = mask.toNat / 8 % 2 * 8 := by
    rw [UInt8.toNat_and]
    exact Bits.and_digit _ 3 1
  have hsprites : (mask &&& 0x10).toNat = mask.toNat / 16 % 2 * 16 := by
    rw [UInt8.toNat_and]
    exact Bits.and_digit _ 4 1
  unfold Mask.rendering Mask.background Mask.sprites
  rw [Bool.eq_iff_iff, Bool.or_eq_true, bne_iff_ne, bne_iff_ne, bne_iff_ne, ne_eq, ne_eq, ne_eq,
    ← UInt8.toNat_inj, ← UInt8.toNat_inj, ← UInt8.toNat_inj, hboth, hbackground, hsprites,
    UInt8.toNat_zero]
  omega

/-- The sprites that an evaluation leaves. -/
def evaluated (p : Picture) : List Sprite :=
  if Mask.sprites p.mask then p.foundSprites else []

/-- An evaluation finds more sprites than are kept. -/
def FindsTooMany (p : Picture) : Prop :=
  Mask.sprites p.mask = true ∧
    maxSprites < (Sprite.onLine p.oam (Control.spriteHeight p.ctrl) p.scanline).length

instance (p : Picture) : Decidable p.FindsTooMany := inferInstanceAs (Decidable (_ ∧ _))

/-- What an evaluation leaves. -/
def evaluate (p : Picture) : Picture :=
  { p with
    sprites := p.evaluated
    status := if p.FindsTooMany then p.status ||| Status.spriteOverflow else p.status }

theorem evaluateSprites_eq (p : Picture) :
    ∃ es, evaluateSprites p = ⟨.ok (), p.evaluate, es⟩ := by
  unfold evaluateSprites
  rw [view_bind, Action.ite_apply]
  by_cases hshown : Mask.sprites p.mask = true
  · have hfound : p.evaluated = p.foundSprites := if_pos hshown
    rw [if_pos hshown, view_bind, update_bind, Action.ite_apply, evaluate, hfound]
    by_cases hmany : p.FindsTooMany
    · rw [if_pos hmany, if_pos hmany.2]
      exact ⟨_, rfl⟩
    · rw [if_neg hmany, if_neg fun h => hmany ⟨hshown, h⟩]
      exact ⟨_, rfl⟩
  · have hnone : p.evaluated = [] := if_neg hshown
    rw [if_neg hshown, evaluate, hnone, if_neg fun h => hshown h.1]
    exact ⟨_, rfl⟩

/-- The colour that a dot draws. -/
def pixelColour (p : Picture) : UInt8 :=
  p.shownColour (colourAddress (p.shiftBackground.backgroundAt (p.dot - 1))
    (p.spriteAt (p.dot - 1)))

theorem shiftBackground_of_shown (h : Mask.background p.mask = true) :
    p.shiftBackground = { p with shifter := p.shifter.shift } :=
  if_pos h

theorem shiftBackground_of_hidden (h : Mask.background p.mask = false) : p.shiftBackground = p := by
  unfold shiftBackground
  rw [h]
  rfl

/-- The shift leaves everything but the shifter alone. -/
theorem shiftBackground_eq (p : Picture) :
    p.shiftBackground = { p with shifter := p.shiftBackground.shifter } := by
  unfold shiftBackground
  split <;> rfl

/-- Neither the sprites found for the next line nor an interrupt show in the colour. -/
theorem pixelColour_congr (status : UInt8) (sprites : List Sprite) (nmiPending : Bool)
    (p : Picture) : pixelColour { p with status, sprites, nmiPending } = p.pixelColour := by
  have hshift : shiftBackground { p with status, sprites, nmiPending } =
      { p.shiftBackground with status, sprites, nmiPending } := by
    unfold shiftBackground
    split <;> rfl
  unfold pixelColour
  rw [hshift]
  rfl

/-- The pixel of a dot, drawn behind its shift. -/
theorem composePixel_eq (p : Picture) : ∃ hit status, p.shiftBackground.composePixel =
    { p with
      shifter := p.shiftBackground.shifter
      hit, status
      pixels := p.pixels.setIfInBounds (p.scanline * width + (p.dot - 1)) p.pixelColour } := by
  -- only the shifter is shifted, so the pixel can be composed with any shifter in its place
  obtain ⟨shifter, heq⟩ : ∃ shifter, p.shiftBackground = { p with shifter } :=
    ⟨_, shiftBackground_eq p⟩
  unfold pixelColour
  rw [heq]
  unfold composePixel noteHit putPixel
  dsimp only
  split
  · split
    · exact ⟨_, _, rfl⟩
    · exact ⟨_, _, rfl⟩
  · exact ⟨_, _, rfl⟩

/-- What a dot fetches and shifts works on. -/
def pipelines (p : Picture) : UInt16 × TileLatch × Shifter := (p.v, p.latch, p.shifter)

/-- The dots that shift and fetch. -/
def fetches (p : Picture) : Prop := 1 ≤ p.dot ∧ p.dot ≤ 256 ∨ 321 ≤ p.dot ∧ p.dot ≤ 336

/-- The effect of a dot on the pipelines while the background is shown. -/
structure BackgroundEffect (visible : Bool) (p q : Picture) : Prop where
  fetched : p.dot ≠ 256 → p.fetches →
    q.pipelines = ({ p with shifter := p.shifter.shift }.fetchStep (p.dot % 8)).pipelines
  ended : p.dot = 256 → q.v = Scroll.nextLine (Scroll.nextTile p.v)
  horizontal : p.dot = 257 → q.v = Scroll.copyHorizontal p.v p.t
  vertical : visible = false → 280 ≤ p.dot → p.dot ≤ 305 → q.v = Scroll.copyVertical p.v p.t
  idle : ¬p.fetches → p.dot ≠ 257 → (visible = false → p.dot < 280 ∨ 305 < p.dot) →
    q.pipelines = p.pipelines

/-- The line behind the dot that fetches it. While nothing is rendered it stays as it was. -/
def fetchedLine (p : Picture) : SpriteLine :=
  if Mask.sprites p.mask then .ofSprites p.memory p.ctrl p.sprites
  else if Mask.rendering p.mask then .blank
  else p.line

/-- The effect of a dot on a scanline on which the pipelines run. -/
structure DotEffect (visible : Bool) (p q : Picture) : Prop where
  sprites : q.sprites = p.sprites
  line_kept : p.dot ≠ 257 → q.line = p.line
  line_fetched : p.dot = 257 → q.line = p.fetchedLine
  background : Mask.background p.mask = true → BackgroundEffect visible p q
  drawn : visible = true → 1 ≤ p.dot → p.dot ≤ 256 →
    q.pixels = p.pixels.setIfInBounds (p.scanline * width + (p.dot - 1)) p.pixelColour
  undrawn : visible = false ∨ p.dot = 0 ∨ 256 < p.dot → q.pixels = p.pixels

/-- A step of the eight changes the pipelines only, and it depends on nothing that a pixel
changes. -/
theorem fetchStep_eq (p : Picture) (k : Nat) : ∀ hit status pixels,
    { p with hit, status, pixels }.fetchStep k =
      { p with
        hit, status, pixels
        v := (p.fetchStep k).v
        latch := (p.fetchStep k).latch
        shifter := (p.fetchStep k).shifter } := by
  intro hit status pixels
  unfold fetchStep
  split <;> rfl

theorem fetchStep_sprites (p : Picture) (k : Nat) : (p.fetchStep k).sprites = p.sprites := by
  unfold fetchStep
  split <;> rfl

theorem fetchStep_line (p : Picture) (k : Nat) : (p.fetchStep k).line = p.line := by
  unfold fetchStep
  split <;> rfl

theorem fetchStep_pixels (p : Picture) (k : Nat) : (p.fetchStep k).pixels = p.pixels := by
  unfold fetchStep
  split <;> rfl

/-- A dot that draws, before its step: the shift, and the pixel if the scanline is visible. -/
theorem drawn_eq (visible : Bool) (p : Picture) : ∃ hit status pixels,
    (if visible then p.shiftBackground.composePixel else p.shiftBackground) =
      { p with shifter := p.shiftBackground.shifter, hit, status, pixels } ∧
    pixels = if visible then
      p.pixels.setIfInBounds (p.scanline * width + (p.dot - 1)) p.pixelColour else p.pixels := by
  cases visible with
  | false => exact ⟨p.hit, p.status, p.pixels, shiftBackground_eq p, rfl⟩
  | true =>
    obtain ⟨hit, status, heq⟩ := composePixel_eq p
    exact ⟨hit, status, _, heq, rfl⟩

/-- What a dot draws, whatever the background's fetches do behind it. -/
theorem effect_of_pixel {visible : Bool} {pixels : Vector UInt8 (width * height)}
    (h : 1 ≤ p.dot ∧ p.dot ≤ 256) (hpixels : pixels = if visible then
      p.pixels.setIfInBounds (p.scanline * width + (p.dot - 1)) p.pixelColour else p.pixels)
    (hsprites : q.sprites = p.sprites) (hline : q.line = p.line) (hq : q.pixels = pixels)
    (hbackground : Mask.background p.mask = true → BackgroundEffect visible p q) :
    DotEffect visible p q where
  sprites := hsprites
  line_kept _ := hline
  line_fetched hd := by omega
  background := hbackground
  drawn hv _ _ := by
    rw [hq, hpixels, hv]
    rfl
  undrawn hd := by
    rcases hd with hv | hd
    · rw [hq, hpixels, hv]
      rfl
    · omega

/-- The step of the eight behind a pixel, and with the last pixel the way to the next line. -/
theorem background_of_draw {visible : Bool} (h : 1 ≤ p.dot ∧ p.dot ≤ 256)
    (hfetched : p.dot ≠ 256 →
      q.pipelines = ({ p with shifter := p.shifter.shift }.fetchStep (p.dot % 8)).pipelines)
    (hended : p.dot = 256 → q.v = Scroll.nextLine (Scroll.nextTile p.v)) :
    BackgroundEffect visible p q where
  fetched hne _ := hfetched hne
  ended := hended
  horizontal hd := by omega
  vertical _ hd := by omega
  idle hf := absurd (Or.inl h) hf

theorem effect_of_draw (visible : Bool) (hm : p.memory.cartridge.isSome)
    (h : 1 ≤ p.dot ∧ p.dot ≤ 256) :
    ∃ q, renderDot visible p = ⟨.ok (), q, []⟩ ∧ DotEffect visible p q := by
  obtain ⟨hit, status, pixels, heq, hpixels⟩ := drawn_eq visible p
  rw [renderDot_of_draw visible h, heq]
  cases hshown : Mask.background p.mask with
  | false =>
    have hhidden : ∀ {q}, Mask.background p.mask = true → BackgroundEffect visible p q := by
      intro q hb
      rw [hshown] at hb
      cases hb
    have hfetch : fetchBackground { p with shifter := p.shiftBackground.shifter, hit, status, pixels } =
        ⟨.ok (), { p with shifter := p.shiftBackground.shifter, hit, status, pixels }, []⟩ :=
      fetchBackground_of_hidden hshown
    rw [bind_of_ok hfetch, Action.ite_apply]
    split
    · exact ⟨_, rfl, effect_of_pixel h hpixels rfl rfl rfl hhidden⟩
    · exact ⟨_, rfl, effect_of_pixel h hpixels rfl rfl rfl hhidden⟩
  | true =>
    rw [show p.shiftBackground.shifter = p.shifter.shift by rw [shiftBackground_of_shown hshown]]
    have hfetch : fetchBackground { p with shifter := p.shifter.shift, hit, status, pixels } =
        ⟨.ok (), { p with shifter := p.shifter.shift, hit, status, pixels }.fetchStep (p.dot % 8),
          []⟩ := fetchBackground_of_shown hshown hm
    have hstep := fetchStep_eq { p with shifter := p.shifter.shift } (p.dot % 8) hit status pixels
    rw [bind_of_ok hfetch, Action.ite_apply, hstep]
    dsimp only
    -- the last dot that draws goes on to the next tile and from there to the next line
    by_cases hd : p.dot = 256
    · have hv : ({ p with shifter := p.shifter.shift }.fetchStep (p.dot % 8)).v =
          Scroll.nextTile p.v := by
        rw [hd]
        rfl
      rw [if_pos hd, update_apply]
      refine ⟨_, rfl, effect_of_pixel h hpixels rfl rfl rfl fun _ => background_of_draw h ?_ ?_⟩
      · exact fun hne => absurd hd hne
      · exact fun _ => congrArg Scroll.nextLine hv
    · rw [if_neg hd, pure_apply]
      refine ⟨_, rfl, effect_of_pixel h hpixels rfl rfl rfl fun _ => background_of_draw h ?_ ?_⟩
      · exact fun _ => rfl
      · exact fun hd' => absurd hd' hd

/-! Behind the picture a scanline only fetches: first the pixels of its sprites, then two tiles of
the line below. -/

/-- What a dot behind the picture does that fetches no sprites. -/
theorem effect_of_rest {visible : Bool} (h : ¬(1 ≤ p.dot ∧ p.dot ≤ 256)) (hdot : p.dot ≠ 257)
    (hsprites : q.sprites = p.sprites) (hline : q.line = p.line) (hpixels : q.pixels = p.pixels)
    (hbackground : Mask.background p.mask = true → BackgroundEffect visible p q) :
    DotEffect visible p q where
  sprites := hsprites
  line_kept _ := hline
  line_fetched hd := absurd hd hdot
  background := hbackground
  drawn _ hd hd' := absurd ⟨hd, hd'⟩ h
  undrawn _ := hpixels

theorem fetchedLine_of_shown (h : Mask.sprites p.mask = true) :
    p.fetchedLine = .ofSprites p.memory p.ctrl p.sprites :=
  if_pos h

theorem fetchedLine_of_hidden (h : Mask.rendering p.mask = false) : p.fetchedLine = p.line := by
  have hhidden := h
  rw [rendering_eq, Bool.or_eq_false_iff] at hhidden
  unfold fetchedLine
  rw [hhidden.2, h, if_neg Bool.false_ne_true, if_neg Bool.false_ne_true]

theorem effect_of_spriteFetch (visible : Bool) (hm : p.memory.cartridge.isSome)
    (hrendering : Mask.rendering p.mask = true)
    (hrows : Mask.sprites p.mask = true → ∀ s ∈ p.sprites, s.row < s.height)
    (hdot : p.dot = 257) :
    ∃ q, (update (fun p => { p with v := Scroll.copyHorizontal p.v p.t }) >>= fun _ =>
      fetchSprites) p = ⟨.ok (), q, []⟩ ∧ DotEffect visible p q := by
  -- the line is cleared, and it is the sprites' if they are shown
  have heffect : ∀ row, row = p.fetchedLine →
      DotEffect visible p { p with v := Scroll.copyHorizontal p.v p.t, line := row } :=
    fun row hrow =>
    { sprites := rfl
      line_kept := fun hd => absurd hdot hd
      line_fetched := fun _ => hrow
      background := fun _ =>
      { fetched := fun _ hf => by unfold fetches at hf; omega
        ended := fun hd => by omega
        horizontal := fun _ => rfl
        vertical := fun _ hd => by omega
        idle := fun _ hd => absurd hdot hd }
      drawn := fun _ _ hd => by omega
      undrawn := fun _ => rfl }
  rw [update_bind]
  unfold fetchSprites
  rw [update_bind, view_bind, Action.ite_apply]
  split <;> rename_i hshown
  · have hline : { p with v := Scroll.copyHorizontal p.v p.t, line := .blank }.spriteLine =
        .ok (.ofSprites p.memory p.ctrl p.sprites) := spriteLine_eq hm (hrows hshown)
    rw [inspect_bind hline]
    exact ⟨_, rfl, heffect _ (fetchedLine_of_shown (p := p) hshown).symm⟩
  · have hblank : p.fetchedLine = .blank := (if_neg hshown).trans (if_pos hrendering)
    exact ⟨_, rfl, heffect _ hblank.symm⟩

theorem effect_of_copy (visible : Bool) (hcopy : 280 ≤ p.dot ∧ p.dot ≤ 305) :
    ∃ q, (unless visible do update fun p => { p with v := Scroll.copyVertical p.v p.t } :
      Action Bus.Fault Picture Unit) p = ⟨.ok (), q, []⟩ ∧ DotEffect visible p q := by
  have hbackground : ∀ {q : Picture}, (visible = true → q = p) →
      (visible = false → q.v = Scroll.copyVertical p.v p.t) → BackgroundEffect visible p q :=
    fun hkept hcopied =>
    { fetched := fun _ hf => by unfold fetches at hf; omega
      ended := fun hd => by omega
      horizontal := fun hd => by omega
      vertical := fun hv _ _ => hcopied hv
      idle := fun _ _ hv => by
        cases visible with
        | false => exact absurd (hv rfl) (by omega)
        | true => rw [hkept rfl] }
  cases visible with
  | false =>
    exact ⟨_, rfl, effect_of_rest (by omega) (by omega) rfl rfl rfl fun _ =>
      hbackground (fun hv => by cases hv) fun _ => rfl⟩
  | true =>
    exact ⟨p, rfl, effect_of_rest (by omega) (by omega) rfl rfl rfl fun _ =>
      hbackground (fun _ => rfl) fun hv => by cases hv⟩

theorem effect_of_ahead (visible : Bool) (hm : p.memory.cartridge.isSome)
    (hfetch : 321 ≤ p.dot ∧ p.dot ≤ 336) :
    ∃ q, (do update shiftBackground; fetchBackground) p = ⟨.ok (), q, []⟩ ∧
      DotEffect visible p q := by
  rw [update_bind]
  cases hshown : Mask.background p.mask with
  | false =>
    rw [shiftBackground_of_hidden hshown, fetchBackground_of_hidden hshown]
    refine ⟨p, rfl, effect_of_rest (by omega) (by omega) rfl rfl rfl ?_⟩
    intro hb
    rw [hshown] at hb
    cases hb
  | true =>
    have hrun : fetchBackground { p with shifter := p.shifter.shift } =
        ⟨.ok (), { p with shifter := p.shifter.shift }.fetchStep (p.dot % 8), []⟩ :=
      fetchBackground_of_shown hshown hm
    rw [shiftBackground_of_shown hshown, hrun]
    refine ⟨_, rfl, effect_of_rest (by omega) (by omega) (fetchStep_sprites _ _)
      (fetchStep_line _ _) (fetchStep_pixels _ _) fun _ => ?_⟩
    exact {
      fetched := fun _ _ => rfl
      ended := fun hd => by omega
      horizontal := fun hd => by omega
      vertical := fun _ _ hd => by omega
      idle := fun hf => absurd (Or.inr hfetch) hf }

/-- A dot that neither draws nor fetches nor copies. -/
theorem effect_of_idle (visible : Bool) (h : ¬(1 ≤ p.dot ∧ p.dot ≤ 256)) (hdot : p.dot ≠ 257)
    (hcopy : ¬(280 ≤ p.dot ∧ p.dot ≤ 305)) (hfetch : ¬(321 ≤ p.dot ∧ p.dot ≤ 336)) :
    DotEffect visible p p := by
  refine effect_of_rest h hdot rfl rfl rfl fun _ => ?_
  exact {
    fetched := fun _ hf => by unfold fetches at hf; omega
    ended := fun hd => by omega
    horizontal := fun hd => absurd hd hdot
    vertical := fun _ hd hd' => absurd ⟨hd, hd'⟩ hcopy
    idle := fun _ _ _ => rfl }

theorem effect_of_renderDot (visible : Bool) (hm : p.memory.cartridge.isSome)
    (hrendering : Mask.rendering p.mask = true)
    (hrows : p.dot = 257 → Mask.sprites p.mask = true → ∀ s ∈ p.sprites, s.row < s.height) :
    ∃ q, renderDot visible p = ⟨.ok (), q, []⟩ ∧ DotEffect visible p q := by
  by_cases h : 1 ≤ p.dot ∧ p.dot ≤ 256
  · exact effect_of_draw visible hm h
  unfold renderDot
  rw [view_bind, Action.ite_apply, if_neg h, Action.ite_apply]
  by_cases hsprites : p.dot = spriteFetchDot
  · rw [if_pos hsprites]
    exact effect_of_spriteFetch visible hm hrendering (hrows hsprites) hsprites
  rw [if_neg hsprites, Action.ite_apply]
  by_cases hcopy : 280 ≤ p.dot ∧ p.dot ≤ 305
  · rw [if_pos hcopy]
    exact effect_of_copy visible hcopy
  rw [if_neg hcopy, Action.ite_apply]
  by_cases hfetch : 321 ≤ p.dot ∧ p.dot ≤ 336
  · rw [if_pos hfetch]
    exact effect_of_ahead visible hm hfetch
  · rw [if_neg hfetch, pure_apply]
    exact ⟨p, rfl, effect_of_idle visible h hsprites hcopy hfetch⟩

/-- The scanlines on which the pipelines run. -/
def Runs (scanline : Nat) : Prop := scanline < height ∨ scanline = preRenderScanline

/-- The state in which the sprites of a scanline are found, if this is the dot for it. -/
structure Evaluates (p q : Picture) : Prop where
  eq : ∃ status sprites, q = { p with status, sprites }
  found : p.dot = 65 → q.sprites = p.evaluated
  kept : p.dot ≠ 65 → q.sprites = p.sprites

/-- While nothing is rendered, the backdrop is drawn. -/
theorem drawBackdrop_eq (h : Mask.rendering p.mask = false) (hd : 1 ≤ p.dot ∧ p.dot ≤ 256) :
    p.drawBackdrop = { p with
      pixels := p.pixels.setIfInBounds (p.scanline * width + (p.dot - 1)) p.pixelColour } := by
  rw [rendering_eq, Bool.or_eq_false_iff] at h
  -- with both layers hidden the pixel of a dot is the backdrop
  have hcolour : p.pixelColour = p.shownColour paletteBase := by
    unfold pixelColour backgroundAt spriteAt
    simp only [shiftBackground_of_hidden h.1, h.1, h.2, Bool.false_and, Bool.false_eq_true,
      if_false]
    rfl
  unfold drawBackdrop putPixel
  rw [if_pos hd, hcolour]

theorem effect_of_drawBackdrop (h : Mask.rendering p.mask = false) :
    DotEffect true p p.drawBackdrop := by
  have hhidden := h
  rw [rendering_eq, Bool.or_eq_false_iff] at hhidden
  by_cases hd : 1 ≤ p.dot ∧ p.dot ≤ 256
  · rw [drawBackdrop_eq h hd]
    exact {
      sprites := rfl
      line_kept := fun _ => rfl
      line_fetched := fun hd' => by omega
      background := fun hb => by rw [hhidden.1] at hb; cases hb
      drawn := fun _ _ _ => rfl
      undrawn := fun hd' => by
        rcases hd' with hd' | hd'
        · cases hd'
        · omega }
  · rw [show p.drawBackdrop = p from if_neg hd]
    exact {
      sprites := rfl
      line_kept := fun _ => rfl
      line_fetched := fun _ => (fetchedLine_of_hidden h).symm
      background := fun hb => by rw [hhidden.1] at hb; cases hb
      drawn := fun _ hd' hd'' => absurd ⟨hd', hd''⟩ hd
      undrawn := fun _ => rfl }

theorem effect_of_hidden (h : Mask.rendering p.mask = false) : DotEffect false p p := by
  have hhidden := h
  rw [rendering_eq, Bool.or_eq_false_iff] at hhidden
  exact {
    sprites := rfl
    line_kept := fun _ => rfl
    line_fetched := fun _ => (fetchedLine_of_hidden h).symm
    background := fun hb => by rw [hhidden.1] at hb; cases hb
    drawn := fun hv => by cases hv
    undrawn := fun _ => rfl }

theorem evaluates_of_evaluateSprites (h : p.dot = 65) :
    ∃ q es, evaluateSprites p = ⟨.ok (), q, es⟩ ∧ Evaluates p q := by
  obtain ⟨es, heq⟩ := evaluateSprites_eq p
  exact ⟨_, es, heq, ⟨_, _, rfl⟩, fun _ => rfl, fun hne => absurd h hne⟩

theorem evaluates_of_ne (h : p.dot ≠ 65) (status : UInt8) : Evaluates p { p with status } :=
  ⟨⟨_, _, rfl⟩, fun heq => absurd heq h, fun _ => rfl⟩

/-- The rows of the sprites that are fetched from `p` lie within these. -/
def RowsSound (p : Picture) : Prop :=
  p.dot = 257 → Mask.sprites p.mask = true → ∀ s ∈ p.sprites, s.row < s.height

theorem rowsSound_of_evaluates (he : Evaluates p q) (h : RowsSound p) : RowsSound q := by
  obtain ⟨⟨status, sprites, rfl⟩, -, hkept⟩ := he
  intro hdot hshown s hs
  have hdot : p.dot = 257 := hdot
  have hsprites : sprites = p.sprites := hkept (by omega)
  exact h hdot hshown s (hsprites ▸ hs)

theorem memory_of_evaluates (he : Evaluates p q) : q.memory = p.memory := by
  obtain ⟨⟨status, sprites, rfl⟩, -, -⟩ := he
  rfl

/-- What a dot of a visible scanline does when its sprites are found. -/
def drawVisible : Action Bus.Fault Picture Unit := do
  if ← .view fun p => Mask.rendering p.mask then renderDot true else .update drawBackdrop

/-- What a dot of the last scanline does when its sprites are found. -/
def drawHidden : Action Bus.Fault Picture Unit := do
  if ← .view fun p => Mask.rendering p.mask then renderDot false

theorem effect_of_drawVisible (hm : p.memory.cartridge.isSome) (hrows : RowsSound p) :
    ∃ q, drawVisible p = ⟨.ok (), q, []⟩ ∧ DotEffect true p q := by
  unfold drawVisible
  rw [view_bind, Action.ite_apply]
  split <;> rename_i hrendering
  · exact effect_of_renderDot true hm hrendering hrows
  · exact ⟨_, rfl, effect_of_drawBackdrop (Bool.eq_false_iff.mpr hrendering)⟩

theorem effect_of_drawHidden (hm : p.memory.cartridge.isSome) (hrows : RowsSound p) :
    ∃ q, drawHidden p = ⟨.ok (), q, []⟩ ∧ DotEffect false p q := by
  unfold drawHidden
  rw [view_bind, Action.ite_apply]
  split <;> rename_i hrendering
  · exact effect_of_renderDot false hm hrendering hrows
  · exact ⟨p, rfl, effect_of_hidden (Bool.eq_false_iff.mpr hrendering)⟩

/-- Sprites are found first, if this is the dot for it, and then the dot is drawn. -/
theorem effect_of_evaluation {visible : Bool} {draw : Action Bus.Fault Picture Unit}
    (hdraw : ∀ p₁, Evaluates p p₁ → ∃ q, draw p₁ = ⟨.ok (), q, []⟩ ∧ DotEffect visible p₁ q) :
    ∃ p₁ q es, (if p.dot = evaluationDot then evaluateSprites >>= fun _ => draw else draw) p =
      ⟨.ok (), q, es⟩ ∧ Evaluates p p₁ ∧ DotEffect visible p₁ q := by
  rw [Action.ite_apply]
  split <;> rename_i hdot
  · obtain ⟨p₁, es, heq, he⟩ := evaluates_of_evaluateSprites hdot
    obtain ⟨q, hq, heffect⟩ := hdraw p₁ he
    refine ⟨p₁, q, es ++ [], ?_, he, heffect⟩
    rw [bind_of_ok heq, hq]
  · obtain ⟨q, hq, heffect⟩ := hdraw p (evaluates_of_ne hdot p.status)
    exact ⟨p, q, [], hq, evaluates_of_ne hdot p.status, heffect⟩

theorem drawDot_of_visible (h : p.scanline < height) : drawDot p =
    (if p.dot = evaluationDot then evaluateSprites >>= fun _ => drawVisible else drawVisible) p := by
  unfold drawDot
  rw [view_bind, Action.ite_apply, if_pos h]
  rfl

/-- On the last scanline the second dot clears the status before anything else. -/
theorem drawDot_of_preRender (h : p.scanline = preRenderScanline) : drawDot p =
    (if p.dot = evaluationDot then evaluateSprites >>= fun _ => drawHidden else drawHidden)
      (if p.dot = 1 then p.clearStatus else p) := by
  unfold drawDot
  rw [view_bind, Action.ite_apply, if_neg (by rw [h]; decide), Action.ite_apply,
    if_neg (by rw [h]; decide), Action.ite_apply, if_pos h]
  unfold preRenderDot
  rw [view_bind, Action.ite_apply]
  split <;> rfl

theorem effect_of_drawDot (hruns : Runs p.scanline) (hm : p.memory.cartridge.isSome) (hrows : RowsSound p) :
    ∃ p₁ q es, drawDot p = ⟨.ok (), q, es⟩ ∧ Evaluates p p₁ ∧
      DotEffect (decide (p.scanline < height)) p₁ q := by
  have hvisible := fun p₁ (he : Evaluates p p₁) =>
    effect_of_drawVisible (memory_of_evaluates he ▸ hm) (rowsSound_of_evaluates he hrows)
  have hhidden := fun p₁ (he : Evaluates p p₁) =>
    effect_of_drawHidden (memory_of_evaluates he ▸ hm) (rowsSound_of_evaluates he hrows)
  rcases hruns with hscanline | hscanline
  · rw [drawDot_of_visible hscanline, decide_eq_true hscanline]
    exact effect_of_evaluation hvisible
  · have hbelow : ¬p.scanline < height := by
      rw [hscanline]
      decide
    rw [drawDot_of_preRender hscanline, decide_eq_false hbelow]
    -- the dot that clears the status finds no sprites
    by_cases hfirst : p.dot = 1
    · have hdot : p.dot ≠ evaluationDot := by
        rw [hfirst]
        decide
      have he : Evaluates p p.clearStatus := evaluates_of_ne hdot _
      obtain ⟨q, hq, heffect⟩ := hhidden _ he
      rw [if_pos hfirst, if_neg hdot]
      exact ⟨_, q, [], hq, he, heffect⟩
    · rw [if_neg hfirst]
      exact effect_of_evaluation hhidden

theorem effect_of_steady {x : Position} (hruns : Runs p.scanline) (h : Steady x p) :
    ∃ p₁ q es, drawDot p = ⟨.ok (), q, es⟩ ∧ Evaluates p p₁ ∧
      DotEffect (decide (p.scanline < height)) p₁ q :=
  effect_of_drawDot hruns h.cartridge fun _ _ => h.row_lt

/-- Between the last visible scanline and the one before the next frame only the vertical blank
does any work. -/
theorem drawDot_of_blank (h : ¬Runs p.scanline) : drawDot p =
    ⟨.ok (), if p.scanline = vblankScanline then p.vblankDot else p, []⟩ := by
  unfold Runs at h
  unfold drawDot
  rw [view_bind, Action.ite_apply, if_neg (by omega), Action.ite_apply, Action.ite_apply]
  split
  · rfl
  · rw [if_neg (by omega)]
    rfl

/-- On these scanlines nothing is drawn. -/
theorem drawDot_of_not_runs (h : ¬Runs p.scanline) : ∃ status nmiPending,
    drawDot p = ⟨.ok (), { p with status, nmiPending }, []⟩ := by
  rw [drawDot_of_blank h]
  split
  · unfold vblankDot
    split
    · exact ⟨_, p.nmiPending, rfl⟩
    split
    · exact ⟨p.status, _, rfl⟩
    · exact ⟨p.status, p.nmiPending, rfl⟩
  · exact ⟨p.status, p.nmiPending, rfl⟩

end Famicom.Picture
