import Famicom.Picture.Dot
import Famicom.Proofs.Action

/-! The changes that the work of a dot is composed of. What each of them keeps, the work
of every dot keeps. -/

namespace Famicom.Picture

open Famicom.Action

/-- The sprites that are kept for a scanline. -/
def foundSprites (p : Picture) : List Sprite :=
  (Sprite.onLine p.oam (Control.spriteHeight p.ctrl) p.scanline).take maxSprites

/-- Each change by which a dot fetches keeps `J`, and from `J` the fetches fail only within `E`. -/
structure FetchKeeps (J : Picture → Prop) (E : Bus.Fault → Prop) : Prop where
  nextTile : ∀ p, J p → J { p with v := Scroll.nextTile p.v }
  nextLine : ∀ p, J p → J { p with v := Scroll.nextLine p.v }
  copyHorizontal : ∀ p, J p → J { p with v := Scroll.copyHorizontal p.v p.t }
  copyVertical : ∀ p, J p → J { p with v := Scroll.copyVertical p.v p.t }
  pipeline : ∀ p latch shifter, J p → J { p with latch, shifter }
  blank : ∀ p, J p → J { p with line := .blank }
  line : ∀ p line, J p → p.spriteLine = .ok line → J { p with line }
  lowFault : ∀ p e, J p → p.memory.pattern p.backgroundPatternAddress = .error e → E e
  highFault : ∀ p e, J p → p.memory.pattern (p.backgroundPatternAddress + 8) = .error e → E e
  lineFault : ∀ p e, J p → p.spriteLine = .error e → E e

/-- So does each change by which a dot draws. -/
structure DrawKeeps (J : Picture → Prop) (E : Bus.Fault → Prop) : Prop
    extends FetchKeeps J E where
  found : ∀ p, J p → J { p with sprites := p.foundSprites }
  noSprites : ∀ p, J p → J { p with sprites := [] }
  pixel : ∀ p x addr, J p → J (p.putPixel x (p.shownColour addr))
  noteHit : ∀ p, J p → J p.noteHit
  overflow : ∀ p, J p → J { p with status := p.status ||| Status.spriteOverflow }

/-- So does each change that a dot can make. -/
structure DotKeeps (J : Picture → Prop) (E : Bus.Fault → Prop) : Prop
    extends DrawKeeps J E where
  vblank : ∀ p, J p → J p.vblankDot
  clear : ∀ p, J p → J p.clearStatus

theorem renderDot_of_draw {p : Picture} (visible : Bool) (h : 1 ≤ p.dot ∧ p.dot ≤ 256) :
    renderDot visible p =
      (do fetchBackground
          if p.dot = 256 then update fun p => { p with v := Scroll.nextLine p.v })
        (if visible then p.shiftBackground.composePixel else p.shiftBackground) := by
  unfold renderDot
  rw [view_bind, Action.ite_apply, if_pos h]
  cases visible <;> rfl

namespace FetchKeeps

variable {J : Picture → Prop} {E : Bus.Fault → Prop} (h : FetchKeeps J E)
include h

theorem shiftBackground {p : Picture} (hp : J p) : J p.shiftBackground := by
  unfold Picture.shiftBackground
  split
  · exact h.pipeline p _ _ hp
  · exact hp

theorem fetchBackground : Keeps J E fetchBackground := by
  unfold Picture.fetchBackground
  apply keeps_bind (keeps_view _)
  intro shown
  apply keeps_ite _ fun _ => keeps_pure _
  intro _
  apply keeps_bind (keeps_view _)
  intro step
  split
  · exact keeps_update h.nextTile
  · exact keeps_update fun p hp => h.pipeline p _ _ hp
  · exact keeps_update fun p hp => h.pipeline p _ _ hp
  · apply keeps_bind (keeps_inspect fun p hp e he => h.lowFault p e hp he)
    exact fun low => keeps_update fun p hp => h.pipeline p _ _ hp
  · apply keeps_bind (keeps_inspect fun p hp e he => h.highFault p e hp he)
    exact fun high => keeps_update fun p hp => h.pipeline p _ _ hp
  · exact keeps_pure _

theorem fetchSprites : Keeps J E fetchSprites := by
  unfold Picture.fetchSprites
  apply keeps_bind (keeps_update h.blank)
  intro _
  apply keeps_bind (keeps_view _)
  intro shown
  apply keeps_ite _ fun _ => keeps_pure _
  intro _ p hp
  -- the line is known to come from the sprites of `p`, which `J` may speak of
  rcases hline : p.spriteLine with e | line
  · rw [bind_of_error (show inspect spriteLine p = ⟨.error e, p, []⟩ by
      rw [inspect_apply, hline])]
    refine ⟨hp, ?_⟩
    intro e' he'
    cases he'
    exact h.lineFault p e hp hline
  · rw [inspect_bind hline]
    exact ⟨h.line p line hp hline, fun e he => by cases he⟩

/-- The rest of a dot that draws, which follows with and without a pixel. -/
theorem drawRest (dot : Nat) : Keeps J E (do
    Picture.fetchBackground
    if dot = 256 then update fun p => { p with v := Scroll.nextLine p.v }) := by
  apply keeps_bind h.fetchBackground
  intro _
  exact keeps_ite (fun _ => keeps_update h.nextLine) fun _ => keeps_pure _

/-- Behind the picture a scanline only fetches. -/
theorem behindPicture {p : Picture} (visible : Bool) (hp : J p)
    (hdot : ¬(1 ≤ p.dot ∧ p.dot ≤ 256)) :
    J (renderDot visible p).state ∧ ∀ e, (renderDot visible p).answer = .error e → E e := by
  unfold Picture.renderDot
  rw [view_bind, Action.ite_apply, if_neg hdot]
  refine keeps_ite (I := J) (fun _ => ?_) (fun _ => ?_) p hp
  · exact keeps_bind (keeps_update h.copyHorizontal) fun _ => h.fetchSprites
  apply keeps_ite
  · intro _
    exact keeps_ite (fun _ => keeps_pure _) fun _ => keeps_update h.copyVertical
  intro _
  apply keeps_ite _ fun _ => keeps_pure _
  intro _
  exact keeps_bind (keeps_update fun p hp => h.shiftBackground hp) fun _ => h.fetchBackground

end FetchKeeps

namespace DrawKeeps

variable {J : Picture → Prop} {E : Bus.Fault → Prop} (h : DrawKeeps J E)
include h

theorem composePixel {p : Picture} (hp : J p) : J p.composePixel := by
  unfold Picture.composePixel
  dsimp only
  split
  · exact h.pixel _ _ _ (h.noteHit p hp)
  · exact h.pixel _ _ _ hp

theorem drawBackdrop {p : Picture} (hp : J p) : J p.drawBackdrop := by
  unfold Picture.drawBackdrop
  split
  · exact h.pixel _ _ _ hp
  · exact hp

theorem evaluateSprites : Keeps J E evaluateSprites := by
  intro p hp
  unfold Picture.evaluateSprites
  rw [view_bind]
  cases Mask.sprites p.mask with
  | false => exact ⟨h.noSprites p hp, fun e he => by cases he⟩
  | true =>
    have hrest : Keeps J E (do
        if maxSprites < (Sprite.onLine p.oam (Control.spriteHeight p.ctrl) p.scanline).length then
          update fun p => { p with status := p.status ||| Status.spriteOverflow }
          report (.spriteOverflow (← view (·.scanline)))) := by
      apply keeps_ite _ fun _ => keeps_pure _
      intro _
      apply keeps_bind (keeps_update h.overflow)
      exact fun _ => keeps_bind (keeps_view _) fun _ => keeps_report _
    exact hrest _ (h.found p hp)

theorem renderDot (visible : Bool) : Keeps J E (renderDot visible) := by
  intro p hp
  by_cases hdraw : 1 ≤ p.dot ∧ p.dot ≤ 256
  · rw [renderDot_of_draw visible hdraw]
    apply h.drawRest p.dot
    split
    · exact h.composePixel (h.shiftBackground hp)
    · exact h.shiftBackground hp
  · exact h.behindPicture visible hp hdraw

theorem visibleDot : Keeps J E visibleDot := by
  have hrest : Keeps J E (do
      if ← view fun p => Mask.rendering p.mask then Picture.renderDot true
      else update Picture.drawBackdrop) := by
    apply keeps_bind (keeps_view _)
    intro rendering
    apply keeps_ite fun _ => h.renderDot true
    exact fun _ => keeps_update fun p hp => h.drawBackdrop hp
  unfold Picture.visibleDot
  apply keeps_bind (keeps_view _)
  intro dot
  apply keeps_ite
  · exact fun _ => keeps_bind h.evaluateSprites fun _ => hrest
  · exact fun _ => hrest

theorem preRenderDot (hclear : ∀ p, J p → J p.clearStatus) : Keeps J E preRenderDot := by
  have hrender : Keeps J E (do
      if ← view fun p => Mask.rendering p.mask then Picture.renderDot false) := by
    apply keeps_bind (keeps_view _)
    intro rendering
    exact keeps_ite (fun _ => h.renderDot false) fun _ => keeps_pure _
  have hrest : Keeps J E (do
      if (← view (·.dot)) = evaluationDot then Picture.evaluateSprites
      if ← view fun p => Mask.rendering p.mask then Picture.renderDot false) := by
    apply keeps_bind (keeps_view _)
    intro dot
    apply keeps_ite
    · exact fun _ => keeps_bind h.evaluateSprites fun _ => hrender
    · exact fun _ => hrender
  unfold Picture.preRenderDot
  apply keeps_bind (keeps_view _)
  intro dot
  apply keeps_ite
  · exact fun _ => keeps_bind (keeps_update hclear) fun _ => hrest
  · exact fun _ => hrest

/-- Off the scanline on which the blank begins, a dot draws, or it clears the status. -/
theorem drawDot_of_ne (hclear : ∀ p, J p → J p.clearStatus) {p : Picture} (hp : J p)
    (hline : p.scanline ≠ vblankScanline) : J (drawDot p).state := by
  unfold drawDot
  rw [view_bind]
  refine (keeps_ite (I := J) (E := E) (fun _ => h.visibleDot) (fun _ => ?_) p hp).1
  apply keeps_ite fun hblank => absurd hblank hline
  intro _
  exact keeps_ite (fun _ => h.preRenderDot hclear) fun _ => keeps_pure _

end DrawKeeps

namespace DotKeeps

variable {J : Picture → Prop} {E : Bus.Fault → Prop} (h : DotKeeps J E)
include h

theorem drawDot : Keeps J E drawDot := by
  unfold Picture.drawDot
  apply keeps_bind (keeps_view _)
  intro scanline
  apply keeps_ite fun _ => h.visibleDot
  intro _
  apply keeps_ite fun _ => keeps_update h.vblank
  intro _
  exact keeps_ite (fun _ => h.preRenderDot h.clear) fun _ => keeps_pure _

end DotKeeps

end Famicom.Picture
