import Famicom.Proofs.Picture.Flags

/-! The scroll position while either layer is shown. Both layers move it alike but for the step to
the next tile, which the background alone takes, so that sprites without a background leave it
behind until it is taken from `t` again. -/

namespace Famicom.Picture

open Famicom.Action

variable {p q : Picture} {v w t : UInt16}

/-- The unit with another mask. -/
def withMask (p : Picture) (mask : UInt8) : Picture := { p with mask }

/-- The unit after `n` ticks. -/
def after (n : Nat) (p : Picture) : Picture := (fun p => (tick p).state)^[n] p

theorem after_succ (n : Nat) (p : Picture) : after (n + 1) p = (tick (after n p)).state :=
  Function.iterate_succ_apply' _ n p

namespace Scroll

/-- The digits of an address that a step to the side leaves alone. -/
def height (v : UInt16) : Parts := { parts v with tableX := 0, column := 0 }

theorem height_nextTile (v : UInt16) : height (nextTile v) = height v := by
  unfold height
  rw [parts_nextTile]
  split <;> rfl

theorem height_copyHorizontal (v t : UInt16) : height (copyHorizontal v t) = height v := by
  unfold height
  rw [parts_copyHorizontal]

theorem height_copyVertical (v t : UInt16) : height (copyVertical v t) =
    { height v with
      fine := (parts t).fine, tableY := (parts t).tableY, row := (parts t).row } := by
  unfold height
  rw [parts_copyVertical]

/-- The line below is decided by the line. -/
theorem height_nextLine (v : UInt16) : height (nextLine v) =
    if (height v).fine < 7 then { height v with fine := (height v).fine + 1 }
    else if (height v).row = 29 then
      { height v with fine := 0, row := 0, tableY := 1 - (height v).tableY }
    else if (height v).row = 31 then { height v with fine := 0, row := 0 }
    else { height v with fine := 0, row := (height v).row + 1 } := by
  unfold height
  rw [parts_nextLine]
  split_ifs <;> rfl

theorem eq_of_parts (h : parts v = parts w) : v = w := by
  rw [← UInt16.toNat_inj, toNat_eq_value, toNat_eq_value, h]

/-- A position at the same height is the same once its horizontal part has been taken anew. -/
theorem copyHorizontal_eq (h : height v = height w) : copyHorizontal v t = copyHorizontal w t := by
  have hrest := congrArg (fun d : Parts =>
    { d with tableX := (parts t).tableX, column := (parts t).column }) h
  apply eq_of_parts
  rw [parts_copyHorizontal, parts_copyHorizontal]
  exact hrest

theorem nextTile_ne (v : UInt16) : nextTile v ≠ v := by
  intro heq
  have hcolumn := congrArg (fun w => (parts w).column) heq
  rw [parts_nextTile] at hcolumn
  split at hcolumn <;> dsimp only at hcolumn <;> omega

end Scroll

/-! What a dot does to the address. -/

/-- The step to the next tile at the end of the eight, which only a shown background takes. -/
def stepped (p : Picture) : UInt16 :=
  if Mask.background p.mask = true ∧ p.dot % 8 = 0 then Scroll.nextTile p.v else p.v

/-- The address behind a dot on which the pipelines run. -/
def scrolledOn (visible : Bool) (p : Picture) : UInt16 :=
  if 1 ≤ p.dot ∧ p.dot ≤ 256 then
    if p.dot = 256 then Scroll.nextLine p.stepped else p.stepped
  else if p.dot = spriteFetchDot then Scroll.copyHorizontal p.v p.t
  else if 280 ≤ p.dot ∧ p.dot ≤ 305 then
    if visible then p.v else Scroll.copyVertical p.v p.t
  else if 321 ≤ p.dot ∧ p.dot ≤ 336 then p.stepped
  else p.v

/-- The address behind a dot while something is rendered. -/
def scrolled (p : Picture) : UInt16 :=
  if p.scanline < height then p.scrolledOn true
  else if p.scanline = preRenderScanline then p.scrolledOn false
  else p.v

theorem state_bind_pure (x : Action Bus.Fault Picture Unit) (p : Picture) :
    ((x >>= fun _ => pure ()) p).state = (x p).state := by
  rcases hx : x p with ⟨e | _, q, es⟩
  · rw [bind_of_error hx]
  · rw [bind_of_ok hx]
    rfl

/-- At the end of the eight dots of a tile nothing is read, and nothing can fail. -/
theorem fetchBackground_of_end (h : p.dot % 8 = 0) :
    fetchBackground p = ⟨.ok (), { p with v := p.stepped }, []⟩ := by
  unfold fetchBackground stepped
  rw [view_bind]
  cases hshown : Mask.background p.mask with
  | false => rfl
  | true =>
    rw [if_pos (And.intro rfl h)]
    change (view _ >>= _) p = _
    rw [view_bind, h]
    rfl

theorem v_fetchBackground (p : Picture) : (fetchBackground p).state.v = p.stepped := by
  by_cases hend : p.dot % 8 = 0
  · rw [fetchBackground_of_end hend]
  have hstepped : p.stepped = p.v := if_neg fun hs => hend hs.2
  -- every other step leaves the address alone, and so does a read that fails
  have hkeeps : Keeps (fun q => q.v = p.v ∧ q.dot = p.dot) (fun _ => True) fetchBackground := by
    unfold fetchBackground
    apply keeps_bind (keeps_view _)
    intro shown
    apply keeps_ite _ fun _ => keeps_pure _
    intro _
    apply keeps_bind_of (keeps_view _)
    intro q step hq hstep
    cases hstep
    dsimp only
    rw [hq.2]
    split
    · exact absurd ‹_› hend
    · exact keeps_update fun _ h => h
    · exact keeps_update fun _ h => h
    · exact keeps_bind (keeps_inspect fun _ _ _ _ => trivial) fun _ => keeps_update fun _ h => h
    · exact keeps_bind (keeps_inspect fun _ _ _ _ => trivial) fun _ => keeps_update fun _ h => h
    · exact keeps_pure _
  rw [hstepped]
  exact (hkeeps p ⟨rfl, rfl⟩).1.1

theorem v_fetchSprites (p : Picture) : (fetchSprites p).state.v = p.v := by
  have hkeeps : Keeps (fun q => q.v = p.v) (fun _ => True) fetchSprites := by
    unfold fetchSprites
    refine keeps_bind (keeps_update ?_) fun _ => ?_
    · exact fun _ h => h
    apply keeps_bind (keeps_view _)
    intro shown
    apply keeps_ite _ fun _ => keeps_pure _
    intro _
    exact keeps_bind (keeps_inspect fun _ _ _ _ => trivial) fun _ => keeps_update fun _ h => h
  exact (hkeeps p rfl).1

theorem v_renderDot (visible : Bool) (p : Picture) :
    (renderDot visible p).state.v = p.scrolledOn visible := by
  by_cases hdraw : 1 ≤ p.dot ∧ p.dot ≤ 256
  · obtain ⟨hit, status, pixels, heq, -⟩ := drawn_eq visible p
    rw [renderDot_of_draw visible hdraw, heq, scrolledOn, if_pos hdraw]
    generalize hq : ({ p with
      shifter := p.shiftBackground.shifter, hit, status, pixels } : Picture) = q
    have hdot : q.dot = p.dot := by rw [← hq]
    have hstepped : q.stepped = p.stepped := by rw [← hq]; rfl
    by_cases hlast : p.dot = 256
    · have hend : q.dot % 8 = 0 := by omega
      rw [bind_of_ok (fetchBackground_of_end hend), Action.ite_apply, if_pos hlast, if_pos hlast,
        ← hstepped]
      rfl
    · have hfetch := v_fetchBackground q
      rw [if_neg hlast, if_neg hlast, ← hstepped, ← hfetch, state_bind_pure]
  unfold renderDot scrolledOn
  rw [view_bind, Action.ite_apply, if_neg hdraw, if_neg hdraw, Action.ite_apply]
  split
  · rw [update_bind, v_fetchSprites]
  rw [Action.ite_apply]
  split
  · cases visible <;> rfl
  rw [Action.ite_apply]
  split
  · rw [update_bind, v_fetchBackground, shiftBackground_eq]
    rfl
  · rfl

theorem mask_finding (p : Picture) : p.finding.mask = p.mask := by
  unfold finding
  split <;> rfl

theorem scrolledOn_finding (visible : Bool) (p : Picture) :
    p.finding.scrolledOn visible = p.scrolledOn visible := by
  unfold finding
  split <;> rfl

/-- Once its sprites are found, a dot runs the pipelines as long as either layer is shown. -/
theorem v_drawVisible (h : Mask.rendering p.mask = true) :
    (drawVisible p).state.v = p.scrolledOn true := by
  unfold drawVisible
  rw [view_bind, Action.ite_apply, if_pos h, v_renderDot]

theorem v_drawHidden (h : Mask.rendering p.mask = true) :
    (drawHidden p).state.v = p.scrolledOn false := by
  unfold drawHidden
  rw [view_bind, Action.ite_apply, if_pos h, v_renderDot]

theorem v_drawDot (h : Mask.rendering p.mask = true) : (drawDot p).state.v = p.scrolled := by
  unfold scrolled
  by_cases hvisible : p.scanline < height
  · rw [drawDot_of_visible hvisible, state_of_finding, v_drawVisible (by rw [mask_finding, h]),
      scrolledOn_finding, if_pos hvisible]
  rw [if_neg hvisible]
  by_cases hlast : p.scanline = preRenderScanline
  · rw [drawDot_of_preRender hlast, if_pos hlast]
    -- the second dot clears the status first, which neither the address nor the mask is part of
    generalize hr : (if p.dot = 1 then p.clearStatus else p) = r
    have hkept : r.dot = p.dot ∧ r.mask = p.mask ∧ r.scrolledOn false = p.scrolledOn false := by
      rw [← hr]
      split <;> exact ⟨rfl, rfl, rfl⟩
    rw [← hkept.1, state_of_finding, v_drawHidden (by rw [mask_finding, hkept.2.1, h]),
      scrolledOn_finding, hkept.2.2]
  · rw [if_neg hlast, drawDot_of_blank (not_or.mpr ⟨hvisible, hlast⟩)]
    dsimp only
    split
    · unfold vblankDot
      split
      · rfl
      split <;> rfl
    · rfl

/-- Whether or not its dot fails, a tick moves the address by its dot alone. -/
theorem v_tick (h : Mask.rendering p.mask = true) : (tick p).state.v = p.scrolled := by
  rw [tick_eq_drawDot (f := v) fun _ _ _ => rfl]
  exact v_drawDot h

/-! Two units that differ in what they show. -/

/-- Units at the same place that both render, and whose addresses lie at the same height. They are
the same in all if both units show the background or neither does, and in any case from the dot that
takes the horizontal position until the next step to a tile. -/
structure Beside (p q : Picture) : Prop where
  left : Steady p.position p
  right : Steady q.position q
  rendering : Mask.rendering p.mask = true ∧ Mask.rendering q.mask = true
  position_eq : q.position = p.position
  t_eq : q.t = p.t
  height_eq : Scroll.height q.v = Scroll.height p.v
  taken : Runs p.scanline → 258 ≤ p.dot → p.dot ≤ 328 → q.v = p.v
  alike : Mask.background q.mask = Mask.background p.mask → q.v = p.v

theorem height_stepped (p : Picture) : Scroll.height p.stepped = Scroll.height p.v := by
  unfold stepped
  split
  · exact Scroll.height_nextTile p.v
  · rfl

/-- At the same height the dots of both units move to the same height. -/
theorem height_scrolledOn (visible : Bool) (hdot : q.dot = p.dot) (ht : q.t = p.t)
    (hheight : Scroll.height q.v = Scroll.height p.v) :
    Scroll.height (q.scrolledOn visible) = Scroll.height (p.scrolledOn visible) := by
  have hstepped : Scroll.height q.stepped = Scroll.height p.stepped := by
    rw [height_stepped, height_stepped, hheight]
  unfold scrolledOn
  rw [hdot, ht]
  split
  · split
    · rw [Scroll.height_nextLine, Scroll.height_nextLine, hstepped]
    · exact hstepped
  split
  · rw [Scroll.height_copyHorizontal, Scroll.height_copyHorizontal, hheight]
  split
  · cases visible with
    | true => exact hheight
    | false =>
      change Scroll.height (Scroll.copyVertical q.v p.t) =
        Scroll.height (Scroll.copyVertical p.v p.t)
      rw [Scroll.height_copyVertical, Scroll.height_copyVertical, hheight]
  split
  · exact hstepped
  · exact hheight

theorem height_scrolled (hscanline : q.scanline = p.scanline) (hdot : q.dot = p.dot)
    (ht : q.t = p.t) (hheight : Scroll.height q.v = Scroll.height p.v) :
    Scroll.height q.scrolled = Scroll.height p.scrolled := by
  unfold scrolled
  rw [hscanline]
  split
  · exact height_scrolledOn true hdot ht hheight
  split
  · exact height_scrolledOn false hdot ht hheight
  · exact hheight

/-- The same address is moved alike, but for a step to the next tile that only one unit takes. -/
theorem scrolled_eq (hscanline : q.scanline = p.scanline) (hdot : q.dot = p.dot) (ht : q.t = p.t)
    (hv : q.v = p.v) (hstep : Mask.background q.mask = Mask.background p.mask ∨
      (p.fetches → p.dot % 8 ≠ 0)) : q.scrolled = p.scrolled := by
  by_cases hfetches : p.fetches
  · have hstepped : q.stepped = p.stepped := by
      unfold stepped
      rw [hdot, hv]
      rcases hstep with hshown | hwithin
      · rw [hshown]
      · have hend : ¬p.dot % 8 = 0 := hwithin hfetches
        rw [if_neg fun h => hend h.2, if_neg fun h => hend h.2]
    unfold scrolled scrolledOn
    rw [hscanline, hdot, ht, hv, hstepped]
  · obtain ⟨hdraw, hahead⟩ := not_or.mp hfetches
    unfold scrolled scrolledOn
    rw [hscanline, hdot, ht, hv]
    simp only [if_neg hdraw, if_neg hahead]

/-- What the horizontal part was does not matter to the dot that takes it anew. -/
theorem scrolled_of_copy (hruns : Runs p.scanline) (hdot : p.dot = 257) :
    p.scrolled = Scroll.copyHorizontal p.v p.t := by
  have hon : ∀ visible, p.scrolledOn visible = Scroll.copyHorizontal p.v p.t := by
    intro visible
    unfold scrolledOn
    rw [if_neg (by omega), if_pos (show p.dot = spriteFetchDot from hdot)]
  unfold scrolled
  rw [hon, hon]
  rcases hruns with hvisible | hlast
  · rw [if_pos hvisible]
  · rw [if_pos hlast, ite_self]

theorem steady_after_tick (h : Steady p.position p) :
    Steady (tick p).state.position (tick p).state ∧
      (tick p).state.position = p.position.next := by
  obtain ⟨r, es, htick, hr⟩ := tick_of_steady h
  rw [htick]
  exact ⟨hr.here, hr.position_eq⟩

theorem beside_tick (h : Beside p q) : Beside (tick p).state (tick q).state := by
  obtain ⟨hleft, hright, ⟨hp, hq⟩, hplace, ht, hheight, htaken, halike⟩ := h
  have hscanline : q.scanline = p.scanline := congrArg Position.scanline hplace
  have hdot : q.dot = p.dot := congrArg Position.dot hplace
  obtain ⟨hleft', hnext⟩ := steady_after_tick hleft
  obtain ⟨hright', hnext'⟩ := steady_after_tick hright
  have hstatic := static_tick p
  have hstatic' := static_tick q
  have hrendering : Mask.rendering (tick p).state.mask = true ∧
      Mask.rendering (tick q).state.mask = true := by
    rw [hstatic.mask, hstatic'.mask]
    exact ⟨hp, hq⟩
  refine ⟨hleft', hright', hrendering, ?_, ?_, ?_, ?_, ?_⟩
  · rw [hnext, hnext', hplace]
  · rw [hstatic.t, hstatic'.t, ht]
  · rw [v_tick hp, v_tick hq]
    exact height_scrolled hscanline hdot ht hheight
  · intro hruns hlow hhigh
    rw [v_tick hp, v_tick hq]
    -- the place before is on the same line, since a line does not begin so far to the right
    have hbefore : Runs p.scanline ∧ p.dot + 1 = (tick p).state.dot := by
      have hscan : (tick p).state.scanline = p.position.next.scanline :=
        congrArg Position.scanline hnext
      have hcolumn : (tick p).state.dot = p.position.next.dot := congrArg Position.dot hnext
      rw [hscan] at hruns
      rw [hcolumn] at hlow ⊢
      unfold Position.next at hruns hlow ⊢
      split at hlow
      · rw [if_pos ‹_›] at hruns ⊢
        exact ⟨hruns, rfl⟩
      split at hlow
      · dsimp only at hlow
        omega
      · dsimp only at hlow
        split at hlow <;> omega
    obtain ⟨hruns, hcolumn⟩ := hbefore
    by_cases hcopy : p.dot = 257
    · have hruns' : Runs q.scanline := by rwa [hscanline]
      rw [scrolled_of_copy hruns hcopy, scrolled_of_copy hruns' (hdot.trans hcopy), ht]
      exact Scroll.copyHorizontal_eq hheight
    · refine scrolled_eq hscanline hdot ht (htaken hruns (by omega) (by omega)) (.inr ?_)
      intro hfetches
      unfold fetches at hfetches
      omega
  · intro hshown
    rw [hstatic.mask, hstatic'.mask] at hshown
    rw [v_tick hp, v_tick hq]
    exact scrolled_eq hscanline hdot ht (halike hshown) (.inl hshown)

theorem beside_after (h : Beside p q) (n : Nat) : Beside (after n p) (after n q) := by
  induction n with
  | zero => exact h
  | succ n ih =>
    rw [after_succ, after_succ]
    exact beside_tick ih

/-- Every place of a frame is come to: first the end of the frame, then all of the next one. -/
theorem exists_left_eq {k : Nat} (h : Steady p.position p) (hk : 1 ≤ k)
    (hle : k ≤ p.position.left) :
    ∃ n, Steady (after n p).position (after n p) ∧ (after n p).position.left = k := by
  obtain ⟨d, hd⟩ := Nat.exists_eq_add_of_le hle
  induction d generalizing p with
  | zero => exact ⟨0, h, hd⟩
  | succ d ih =>
    obtain ⟨hsteady, hnext⟩ := steady_after_tick h
    obtain ⟨hleft, -, -⟩ := Position.next_of_left h.bounded (by omega)
    rw [← hnext] at hleft
    obtain ⟨n, hn⟩ := ih hsteady (by omega) (by omega)
    exact ⟨n + 1, hn⟩

/-- A step to the next tile always comes. -/
theorem exists_step (h : Steady p.position p) :
    ∃ n, (after n p).scanline = preRenderScanline ∧ (after n p).dot = 328 := by
  have hplace : ∃ n, Steady (after n p).position (after n p) ∧ (after n p).position.left = 13 := by
    by_cases hfar : 13 ≤ p.position.left
    · exact exists_left_eq h (by decide) hfar
    have hpos : 1 ≤ p.position.left := by
      obtain ⟨hscanline, hdot⟩ := h.bounded
      unfold Position.left dotsPerScanline scanlinesPerFrame at *
      omega
    -- it is over in this frame, so that the one of the next frame is waited for
    obtain ⟨n, hlast, hone⟩ := exists_left_eq h le_rfl hpos
    obtain ⟨hfirst, hnext⟩ := steady_after_tick hlast
    obtain ⟨-, -, hlong⟩ := Position.next_of_last hlast.bounded hone.le
    rw [← hnext] at hlong
    obtain ⟨m, hm⟩ := exists_left_eq hfirst (k := 13) (by decide) (by omega)
    rw [← after_succ] at hm
    refine ⟨m + (n + 1), ?_⟩
    unfold after at hm ⊢
    rwa [Function.iterate_add_apply]
  obtain ⟨n, hsteady, hleft⟩ := hplace
  obtain ⟨hscanline, hdot⟩ := hsteady.bounded
  refine ⟨n, ?_⟩
  change (after n p).position.scanline = 261 ∧ (after n p).position.dot = 328
  unfold Position.left dotsPerScanline scanlinesPerFrame at *
  omega

/-- There the two part if only one of them shows the background. -/
theorem v_ne_of_step (h : Beside p q) (hscanline : p.scanline = preRenderScanline)
    (hdot : p.dot = 328) (hshown : Mask.background q.mask ≠ Mask.background p.mask) :
    (tick q).state.v ≠ (tick p).state.v := by
  have hv : q.v = p.v := h.taken (.inr hscanline) (by omega) (by omega)
  have hscrolled : ∀ r : Picture, r.scanline = preRenderScanline → r.dot = 328 →
      r.scrolled = if Mask.background r.mask = true then Scroll.nextTile r.v else r.v := by
    intro r hs hd
    unfold scrolled scrolledOn stepped spriteFetchDot
    rw [hs, hd]
    simp [preRenderScanline, height]
  have hplace : q.scanline = preRenderScanline ∧ q.dot = 328 :=
    ⟨(congrArg Position.scanline h.position_eq).trans hscanline,
      (congrArg Position.dot h.position_eq).trans hdot⟩
  rw [v_tick h.rendering.1, v_tick h.rendering.2, hscrolled p hscanline hdot,
    hscrolled q hplace.1 hplace.2, hv]
  cases hp : Mask.background p.mask with
  | false =>
    have hq : Mask.background q.mask = true := by
      rw [hp] at hshown
      exact Bool.not_eq_false _ ▸ hshown
    rw [if_pos hq, if_neg Bool.false_ne_true]
    exact Scroll.nextTile_ne p.v
  | true =>
    have hq : Mask.background q.mask ≠ true := by
      rwa [hp] at hshown
    rw [if_neg hq, if_pos rfl]
    exact (Scroll.nextTile_ne p.v).symm

/-- From one state, two masks that both render take the address to the same height at every tick,
and to the same position between the dot that takes its horizontal part from `t` and the next step
to a tile. They take it to the same position at every tick exactly if both show the background or
neither does: without it the steps from tile to tile are left out. -/
theorem scroll_of_masks (h : Sound p) (hm : p.memory.cartridge.isSome) {mask mask' : UInt8}
    (hr : Mask.rendering mask = true) (hr' : Mask.rendering mask' = true) :
    (∀ n, Scroll.height (after n (p.withMask mask')).v =
      Scroll.height (after n (p.withMask mask)).v) ∧
    (∀ n, Runs (after n (p.withMask mask)).scanline → 258 ≤ (after n (p.withMask mask)).dot →
      (after n (p.withMask mask)).dot ≤ 328 →
      (after n (p.withMask mask')).v = (after n (p.withMask mask)).v) ∧
    ((∀ n, (after n (p.withMask mask')).v = (after n (p.withMask mask)).v) ↔
      Mask.background mask' = Mask.background mask) := by
  have hsteady : ∀ m, Steady (p.withMask m).position (p.withMask m) :=
    fun m => { h with cartridge := hm, position_eq := rfl }
  have hstart : Beside (p.withMask mask) (p.withMask mask') :=
    ⟨hsteady _, hsteady _, ⟨hr, hr'⟩, rfl, rfl, rfl, fun _ _ _ => rfl, fun _ => rfl⟩
  have hbeside := beside_after hstart
  have hmask : ∀ m n, (after n (p.withMask m)).mask = m := by
    intro m n
    induction n with
    | zero => rfl
    | succ n ih => rw [after_succ, (static_tick _).mask, ih]
  refine ⟨fun n => (hbeside n).height_eq, fun n => (hbeside n).taken, ?_, ?_⟩
  · intro hsame
    by_contra hshown
    -- a step that one of them leaves out takes them apart
    obtain ⟨n, hscanline, hdot⟩ := exists_step (hsteady mask)
    refine v_ne_of_step (hbeside n) hscanline hdot ?_ ?_
    · rwa [hmask, hmask]
    · rw [← after_succ, ← after_succ]
      exact hsame (n + 1)
  · intro hshown n
    apply (hbeside n).alike
    rwa [hmask, hmask]

/-- A unit that has just been given a cartridge: sprites alone and the background alone part, and
both layers and the background alone do not. -/
theorem scroll_of_plain : ∃ p : Picture, Plugged p ∧
    ¬(∀ n, (after n (p.withMask 0x10)).v = (after n (p.withMask 0x08)).v) ∧
    (∀ n, (after n (p.withMask 0x18)).v = (after n (p.withMask 0x08)).v) := by
  have himage := Cartridge.ofImage_plainImage (.replicate 0x4000 0) (.replicate 0x2000 0)
  have hplugged := Plugged.insert himage
  have hsound := (steady_of_plugged hplugged).toSound
  refine ⟨_, hplugged, ?_, ?_⟩
  · rw [(scroll_of_masks hsound rfl rfl rfl).2.2]
    decide
  · rw [(scroll_of_masks hsound rfl rfl rfl).2.2]
    decide

end Famicom.Picture
