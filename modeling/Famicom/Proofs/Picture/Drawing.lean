import Famicom.Proofs.Picture.Colour

/-! What holds at each dot of a picture that nothing but its dots changes: how far the
sprites of the next line are found and fetched, and how far the tiles of this line and the next. -/

namespace Famicom.Picture

open Famicom.Action

variable {o p q : Picture} {s d : Nat}

/-- The line of the screen that a scanline prepares. -/
def lineBelow (s : Nat) : Nat := if s = preRenderScanline then 0 else s + 1

theorem lineBelow_of_lt (h : s < height) : lineBelow s = s + 1 := by
  have hne : s ≠ preRenderScanline := by
    rintro rfl
    exact absurd h (by decide)
  exact if_neg hne

/-- Before dot `d` of a scanline: the sprites found for the line below, and the line of this
scanline or of the one below. -/
structure SpritesReady (o : Picture) (s d : Nat) (p : Picture) : Prop where
  found : Runs s → 65 < d → p.sprites =
    (Compositor.spritesOf o (lineBelow s)).map (Compositor.found o (lineBelow s))
  line : s < height → d ≤ 257 → Shows o s p.line
  fetched : Runs s → 257 < d → Shows o (lineBelow s) p.line

/-- Before dot `d` of a scanline: the tiles fetched, of the line that is drawn and then of the line
below, and the way of the scroll register from one to the other. -/
structure TilesReady (o : Picture) (s d : Nat) (p : Picture) : Prop where
  drawn : s < height → d ≤ 256 → Fetching o s (max d 1 + 15) p
  below : s < height → 256 < d → d ≤ 320 →
    ∃ column, PointsTo p.v column (Compositor.worldY o (s + 1)) ∧
      (257 < d → column = Compositor.columnOf o 0)
  column : s = preRenderScanline → 257 < d → d ≤ 320 →
    32 * (Scroll.parts p.v).tableX + (Scroll.parts p.v).column = Compositor.columnOf o 0
  start : s = preRenderScanline → 280 < d → d ≤ 320 →
    PointsTo p.v (Compositor.columnOf o 0) (Compositor.worldY o 0)
  ahead : Runs s → 320 < d → Fetching o (lineBelow s) (min d 337 - 321) p

/-- The picture is drawn with what `o` has set, up to dot `d` of a scanline. -/
structure Drawing (o : Picture) (s d : Nat) (p : Picture) : Prop extends Static o p where
  ready : Mask.sprites o.mask = true → SpritesReady o s d p
  tiles : Mask.background o.mask = true → TilesReady o s d p

/-- The pixels before dot `d` of a scanline are drawn. -/
def Drawn (o : Picture) (s d : Nat) (p : Picture) : Prop :=
  ∀ x y, x < width → y < height → y < s ∨ y = s ∧ x + 1 < d →
    p.pixels[y * width + x]? = some (Compositor.colour o x y)

theorem drawing_start (hs : Static o p) : Drawing o preRenderScanline 0 p where
  toStatic := hs
  ready _ :=
    { found := fun _ hd => by omega
      line := fun hlt => absurd hlt (by decide)
      fetched := fun _ hd => by omega }
  tiles _ :=
    { drawn := fun hlt => absurd hlt (by decide)
      below := fun hlt => absurd hlt (by decide)
      column := fun _ hd => by omega
      start := fun _ hd => by omega
      ahead := fun _ hd => by omega }

theorem drawn_start (hd : d ≤ 1) : Drawn o 0 d p := by
  intro x y _ _ h
  omega

/-! What depends on which fields. -/

theorem fetching_congr {y n : Nat} (heq : q.pipelines = p.pipelines) (h : Fetching o y n p) :
    Fetching o y n q := by
  simp only [pipelines, Prod.mk.injEq] at heq
  obtain ⟨hv, hlatch, hshifter⟩ := heq
  exact ⟨hv ▸ h.pointsTo, hlatch ▸ h.latches, hshifter ▸ h.carries⟩

theorem spritesReady_congr (hsprites : q.sprites = p.sprites) (hline : q.line = p.line)
    (h : SpritesReady o s d p) : SpritesReady o s d q := by
  constructor
  · rw [hsprites]
    exact h.found
  · rw [hline]
    exact h.line
  · rw [hline]
    exact h.fetched

theorem tilesReady_congr (heq : q.pipelines = p.pipelines) (h : TilesReady o s d p) :
    TilesReady o s d q := by
  have hv : q.v = p.v := congrArg Prod.fst heq
  constructor
  · exact fun hs hd => fetching_congr heq (h.drawn hs hd)
  · rw [hv]
    exact h.below
  · rw [hv]
    exact h.column
  · rw [hv]
    exact h.start
  · exact fun hs hd => fetching_congr heq (h.ahead hs hd)

/-! One dot. -/

theorem evaluated_eq (hs : Static o p) (hruns : Runs p.scanline)
    (hshown : Mask.sprites o.mask = true) : p.evaluated =
      (Compositor.spritesOf o (lineBelow p.scanline)).map
        (Compositor.found o (lineBelow p.scanline)) := by
  unfold evaluated
  rw [hs.mask, if_pos hshown]
  rcases hruns with hlt | hlast
  · rw [foundSprites_eq hs.ctrl hs.oam, lineBelow_of_lt hlt]
  · rw [foundSprites_preRender hlast, hlast, lineBelow, if_pos rfl, Compositor.spritesOf_zero]
    rfl

variable {p₁ : Picture} {visible : Bool}

theorem spritesReady_step (hs : Static o p) (hruns : Runs p.scanline)
    (hshown : Mask.sprites o.mask = true) (h : SpritesReady o p.scanline p.dot p)
    (he : Evaluates p p₁) (hd : DotEffect visible p₁ q) :
    SpritesReady o p.scanline (p.dot + 1) q := by
  obtain ⟨⟨status, sprites, rfl⟩, hfound, hkept⟩ := he
  -- found at dot 65, and kept to the end of the scanline
  have hsprites : 65 ≤ p.dot → q.sprites =
      (Compositor.spritesOf o (lineBelow p.scanline)).map
        (Compositor.found o (lineBelow p.scanline)) := by
    intro hdot
    rw [hd.sprites]
    by_cases hnow : p.dot = 65
    · rw [hfound hnow, evaluated_eq hs hruns hshown]
    · rw [hkept hnow]
      exact h.found hruns (by omega)
  refine ⟨fun _ hdot => hsprites (by omega), fun hlt hdot => ?_, fun _ hdot => ?_⟩
  · rw [hd.line_kept (show p.dot ≠ 257 by omega)]
    exact h.line hlt (by omega)
  · by_cases hnow : p.dot = 257
    · have hmask : Mask.sprites { p with status, sprites }.mask = true := hs.mask ▸ hshown
      rw [hd.line_fetched hnow, fetchedLine_of_shown hmask, ← hd.sprites, hsprites (by omega)]
      dsimp only
      rw [hs.memory, hs.ctrl]
      exact shows_ofSprites o _
    · rw [hd.line_kept hnow]
      exact h.fetched hruns (by omega)

/-- A dot that fetches is a step of the eight. -/
theorem fetching_dot {y n : Nat} (hs : Static o p) (h : Fetching o y n p)
    (hd : BackgroundEffect visible p q) (hdot : p.dot ≠ 256) (hfetches : p.fetches)
    (hn : p.dot % 8 = (n + 1) % 8) : Fetching o y (n + 1) q := by
  apply fetching_congr (hd.fetched hdot hfetches)
  rw [hn]
  exact fetching_step hs h

theorem worldY_succ (o : Picture) (y : Nat) :
    Compositor.worldY o (y + 1) = (Compositor.worldY o y + 1) % 480 := by
  unfold Compositor.worldY
  omega

theorem columnOf_zero (o : Picture) : Compositor.columnOf o 0 =
    32 * (Scroll.parts o.t).tableX + (Scroll.parts o.t).column := by
  obtain ⟨-, -, -, hx, -, hc⟩ := Scroll.bounded_parts o.t
  unfold Compositor.columnOf
  omega

/-- Between its fetches and its copies a scanline leaves the pipelines alone. -/
theorem pipelines_idle (hd : BackgroundEffect (decide (p.scanline < height)) p q)
    (hdot : p.dot = 0 ∨ 257 < p.dot ∧ p.dot ≤ 320 ∨ 336 < p.dot)
    (hcopy : p.scanline < height ∨ p.dot < 280 ∨ 305 < p.dot) : q.pipelines = p.pipelines := by
  apply hd.idle
  · unfold fetches
    omega
  · omega
  · intro hvisible
    exact hcopy.resolve_left (of_decide_eq_false hvisible)

theorem hidden_of_preRender (h : s = preRenderScanline) : decide (s < height) = false := by
  rw [h]
  rfl

theorem v_of_pipelines (h : q.pipelines = p.pipelines) : q.v = p.v := congrArg Prod.fst h

section Tiles

variable (hs : Static o p) (h : TilesReady o p.scanline p.dot p)
  (hd : BackgroundEffect (decide (p.scanline < height)) p q)
include hs h hd

/-- Behind the two tiles fetched ahead every dot fetches for the line that is drawn. -/
theorem drawn_step (hlt : p.scanline < height) (hdot : p.dot + 1 ≤ 256) :
    Fetching o p.scanline (max (p.dot + 1) 1 + 15) q := by
  have hbefore := h.drawn hlt (by omega)
  by_cases hfirst : p.dot = 0
  · rw [hfirst] at hbefore ⊢
    exact fetching_congr (pipelines_idle hd (Or.inl hfirst) (Or.inl hlt)) hbefore
  · rw [show max (p.dot + 1) 1 + 15 = p.dot + 15 + 1 by omega]
    rw [show max p.dot 1 + 15 = p.dot + 15 by omega] at hbefore
    exact fetching_dot hs hbefore hd (by omega) (Or.inl (by omega)) (by omega)

/-- The scroll register goes down one line at the end of a line, then back to its left edge. -/
theorem below_step (hlt : p.scanline < height) (hdot : 256 < p.dot + 1) (hend : p.dot + 1 ≤ 320) :
    ∃ column, PointsTo q.v column (Compositor.worldY o (p.scanline + 1)) ∧
      (257 < p.dot + 1 → column = Compositor.columnOf o 0) := by
  -- down at dot 256, to the left edge at dot 257, and then a wait for the next fetches
  rcases (by omega : p.dot = 256 ∨ p.dot = 257 ∨ 257 < p.dot) with hnow | hnow | hnow
  · have hpoints := (h.drawn hlt (by omega)).pointsTo
    rw [hd.ended hnow, worldY_succ]
    exact ⟨_, pointsTo_nextLine (pointsTo_nextTile hpoints), fun hlater => by omega⟩
  · obtain ⟨column, hpoints, -⟩ := h.below hlt (by omega) (by omega)
    have hleft := pointsTo_copyHorizontal (t := p.t) hpoints
    rw [hd.horizontal hnow, columnOf_zero, ← hs.t]
    exact ⟨_, hleft, fun _ => rfl⟩
  · obtain ⟨column, hpoints, hcolumn⟩ := h.below hlt (by omega) (by omega)
    rw [v_of_pipelines (pipelines_idle hd (by omega) (Or.inl hlt))]
    exact ⟨column, hpoints, fun _ => hcolumn hnow⟩

/-- On the last scanline the copies of the lines leave the column alone. -/
theorem column_step (hlast : p.scanline = preRenderScanline) (hdot : 257 < p.dot + 1)
    (hend : p.dot + 1 ≤ 320) :
    32 * (Scroll.parts q.v).tableX + (Scroll.parts q.v).column = Compositor.columnOf o 0 := by
  rcases (by omega : p.dot = 257 ∨ 257 < p.dot) with hnow | hnow
  · rw [hd.horizontal hnow, Scroll.parts_copyHorizontal, columnOf_zero, hs.t]
  · have hcolumn := h.column hlast hnow (by omega)
    by_cases hcopy : 280 ≤ p.dot ∧ p.dot ≤ 305
    · rw [hd.vertical (hidden_of_preRender hlast) hcopy.1 hcopy.2, Scroll.parts_copyVertical]
      exact hcolumn
    · rw [v_of_pipelines (pipelines_idle hd (by omega) (by omega))]
      exact hcolumn

/-- The copies of the lines bring the register to the start of the picture. -/
theorem start_step (ht : (Scroll.parts o.t).row ≤ 29) (hlast : p.scanline = preRenderScanline)
    (hdot : 280 < p.dot + 1) (hend : p.dot + 1 ≤ 320) :
    PointsTo q.v (Compositor.columnOf o 0) (Compositor.worldY o 0) := by
  by_cases hcopy : p.dot ≤ 305
  · have hpoints := pointsTo_copyVertical (t := p.t) (h.column hlast (by omega) (by omega))
      (hs.t ▸ ht)
    have hy : 240 * (Scroll.parts p.t).tableY + 8 * (Scroll.parts p.t).row +
        (Scroll.parts p.t).fine = Compositor.worldY o 0 := by
      obtain ⟨-, hfine, hy, -, -, -⟩ := Scroll.bounded_parts o.t
      unfold Compositor.worldY
      rw [hs.t]
      omega
    rw [hd.vertical (hidden_of_preRender hlast) (by omega) hcopy, ← hy]
    exact hpoints
  · rw [v_of_pipelines (pipelines_idle hd (by omega) (by omega))]
    exact h.start hlast (by omega) (by omega)

/-- At the end of a scanline two tiles of the line below are fetched. -/
theorem ahead_step (hruns : Runs p.scanline) (hdot : 320 < p.dot + 1) :
    Fetching o (lineBelow p.scanline) (min (p.dot + 1) 337 - 321) q := by
  rcases (by omega : p.dot = 320 ∨ 321 ≤ p.dot ∧ p.dot ≤ 336 ∨ 336 < p.dot) with
    hnow | hnow | hnow
  · have hpoints : PointsTo p.v (Compositor.columnOf o 0)
        (Compositor.worldY o (lineBelow p.scanline)) := by
      rcases hruns with hlt | hlast
      · obtain ⟨column, hpoints, hcolumn⟩ := h.below hlt (by omega) (by omega)
        rw [lineBelow_of_lt hlt, ← hcolumn (by omega)]
        exact hpoints
      · rw [hlast, lineBelow, if_pos rfl]
        exact h.start hlast (by omega) (by omega)
    rw [hnow]
    apply fetching_congr (pipelines_idle hd (by omega) (by omega))
    -- nothing is fetched yet, so the latch and the shifter may hold anything
    exact ⟨hpoints, fun hn => absurd hn (by decide), ⟨carries_zero _ _, carries_zero _ _,
      carries_zero _ _, carries_zero _ _⟩⟩
  · have hbefore := h.ahead hruns (by omega)
    rw [show min p.dot 337 - 321 = p.dot - 321 by omega] at hbefore
    rw [show min (p.dot + 1) 337 - 321 = p.dot - 321 + 1 by omega]
    exact fetching_dot hs hbefore hd (by omega) (Or.inr hnow) (by omega)
  · have hbefore := h.ahead hruns (by omega)
    rw [show min p.dot 337 - 321 = min (p.dot + 1) 337 - 321 by omega] at hbefore
    exact fetching_congr (pipelines_idle hd (by omega) (by omega)) hbefore

theorem tilesReady_step (ht : (Scroll.parts o.t).row ≤ 29) (hruns : Runs p.scanline) :
    TilesReady o p.scanline (p.dot + 1) q where
  drawn := drawn_step hs h hd
  below := below_step hs h hd
  column := column_step hs h hd
  start := start_step hs h hd ht
  ahead _ := ahead_step hs h hd hruns

end Tiles

theorem static_of_evaluates {p₁ : Picture} (hs : Static o p) (he : Evaluates p p₁) :
    Static o p₁ := by
  obtain ⟨⟨status, sprites, rfl⟩, -, -⟩ := he
  exact { hs with }

/-- The sprites whose pixels are fetched were found on this scanline. -/
theorem rowsSound_of_drawing (hruns : Runs p.scanline) (h : Drawing o p.scanline p.dot p) :
    RowsSound p := by
  intro hdot hshown s hs
  rw [h.mask] at hshown
  rw [(h.ready hshown).found hruns (by omega)] at hs
  obtain ⟨i, hi, rfl⟩ := List.mem_map.mp hs
  exact Compositor.row_found_lt (List.of_mem_filter (List.mem_of_mem_take hi))

/-- The pixel of a dot, beside those that are drawn. -/
theorem drawn_pixel {c : UInt8} (h : Drawn o p.scanline p.dot p) (hdot : 1 ≤ p.dot)
    (hend : p.dot ≤ 256) (hlt : p.scanline < height)
    (hpixels : q.pixels = p.pixels.setIfInBounds (p.scanline * width + (p.dot - 1)) c)
    (hc : c = Compositor.colour o (p.dot - 1) p.scanline) :
    Drawn o p.scanline (p.dot + 1) q := by
  intro x y hx hy hbefore
  rw [hpixels]
  by_cases hhere : y = p.scanline ∧ x = p.dot - 1
  · obtain ⟨rfl, rfl⟩ := hhere
    have hplace : p.scanline * width + (p.dot - 1) < width * height := by
      dsimp only [width, height] at *
      omega
    rw [Vector.getElem?_setIfInBounds_self_of_lt hplace, hc]
  -- different points of the screen have different places
  · have hplace : p.scanline * width + (p.dot - 1) ≠ y * width + x := by
      dsimp only [width] at *
      omega
    rw [Vector.getElem?_setIfInBounds_ne hplace]
    exact h x y hx hy (by omega)

theorem drawn_rest (h : Drawn o p.scanline p.dot p) (hpixels : q.pixels = p.pixels)
    (hdot : p.dot = 0 ∨ 256 < p.dot ∨ height ≤ p.scanline) :
    Drawn o p.scanline (p.dot + 1) q := by
  intro x y hx hy hbefore
  rw [hpixels]
  apply h x y hx hy
  dsimp only [width, height] at *
  omega

theorem tilesReady_dot (ht : (Scroll.parts o.t).row ≤ 29) (hruns : Runs p.scanline)
    (h : Drawing o p.scanline p.dot p) (hshown : Mask.background o.mask = true)
    (he : Evaluates p p₁) (hd : DotEffect (decide (p.scanline < height)) p₁ q) :
    TilesReady o p.scanline (p.dot + 1) q := by
  have hs := static_of_evaluates h.toStatic he
  have hbackground := hd.background (hs.mask ▸ hshown)
  obtain ⟨⟨status, sprites, rfl⟩, -, -⟩ := he
  have hready : TilesReady o p.scanline p.dot { p with status, sprites } :=
    tilesReady_congr (p := p) rfl (h.tiles hshown)
  exact tilesReady_step (p := { p with status, sprites }) hs hready hbackground ht hruns

theorem drawn_dot (hf : o.fineX.toNat ≤ 7) (h : Drawing o p.scanline p.dot p)
    (he : Evaluates p p₁) (hd : DotEffect (decide (p.scanline < height)) p₁ q)
    (hdrawn : Drawn o p.scanline p.dot p) : Drawn o p.scanline (p.dot + 1) q := by
  have hs := static_of_evaluates h.toStatic he
  obtain ⟨⟨status, sprites, rfl⟩, -, -⟩ := he
  -- the colour is drawn from the pipelines as they were before this dot
  by_cases hpixel : p.scanline < height ∧ 1 ≤ p.dot ∧ p.dot ≤ 256
  · obtain ⟨hlt, hfirst, hlast⟩ := hpixel
    have hcolour : pixelColour { p with status, sprites } =
        Compositor.colour o (p.dot - 1) p.scanline := by
      apply pixelColour_eq (p := { p with status, sprites }) hs hf
      · dsimp only
        omega
      · exact fun hshown => (h.ready hshown).line hlt (by omega)
      · intro hshown
        have hfetching := (h.tiles hshown).drawn hlt hlast
        rw [show max p.dot 1 + 15 = p.dot - 1 + 16 by omega] at hfetching
        exact fetching_congr (p := p) rfl hfetching
    exact drawn_pixel hdrawn hfirst hlast hlt (hd.drawn (decide_eq_true hlt) hfirst hlast) hcolour
  · have hpixels : q.pixels = p.pixels := by
      apply hd.undrawn
      rw [decide_eq_false_iff_not]
      dsimp only
      omega
    exact drawn_rest hdrawn hpixels (by omega)

theorem drawing_dot (hm : o.memory.cartridge.isSome) (hf : o.fineX.toNat ≤ 7)
    (ht : (Scroll.parts o.t).row ≤ 29) (h : Drawing o p.scanline p.dot p) :
    ∃ q es, drawDot p = ⟨.ok (), q, es⟩ ∧ Drawing o p.scanline (p.dot + 1) q ∧
      (Drawn o p.scanline p.dot p → Drawn o p.scanline (p.dot + 1) q) := by
  by_cases hruns : Runs p.scanline
  · obtain ⟨p₁, q, es, hq, he, hd⟩ := effect_of_drawDot hruns (h.memory ▸ hm)
      (rowsSound_of_drawing hruns h)
    refine ⟨q, es, hq, ⟨(static_of_drawDot h.toStatic hq).1, ?_, ?_⟩, ?_⟩
    · exact fun hshown => spritesReady_step h.toStatic hruns hshown (h.ready hshown) he hd
    · exact fun hshown => tilesReady_dot ht hruns h hshown he hd
    · exact drawn_dot hf h he hd
  · obtain ⟨status, nmiPending, hq⟩ := drawDot_of_not_runs hruns
    have hlt : ¬p.scanline < height := fun hlt => hruns (Or.inl hlt)
    refine ⟨_, [], hq, ⟨(static_of_drawDot h.toStatic hq).1, ?_, ?_⟩, ?_⟩
    · intro _
      exact ⟨fun hr => absurd hr hruns, fun hr => absurd hr hlt, fun hr => absurd hr hruns⟩
    · intro _
      -- nothing is asked of the tiles on these scanlines
      have hlast : p.scanline ≠ preRenderScanline := fun hlast => hruns (Or.inr hlast)
      exact ⟨fun hr => absurd hr hlt, fun hr => absurd hr hlt, fun hr => absurd hr hlast,
        fun hr => absurd hr hlast, fun hr => absurd hr hruns⟩
    · intro hdrawn
      exact drawn_rest hdrawn rfl (by omega)

end Famicom.Picture
