import Famicom.Picture.Basic
import Famicom.Picture.Scroll

/-!
The work of one dot. Scanlines 0 to 239 are visible and draw one pixel at each of the dots 1 to
256; the vertical blank starts on scanline 241; scanline 261 prepares the next frame. Only the
pattern tables can be missing, so a dot fails only without a cartridge.
-/

namespace Famicom.Picture

def dotsPerScanline : Nat := 341

def scanlinesPerFrame : Nat := 262

def vblankScanline : Nat := 241

/-- The last scanline, on which the pipelines are filled and nothing is drawn. -/
def preRenderScanline : Nat := 261

/-- The dot of the vertical blank at which its interrupt is raised. -/
def nmiDot : Nat := 16

/-- The dot at which the sprites of a scanline are found. -/
def evaluationDot : Nat := 65

/-- The dot at which their pixels are fetched for the scanline below. -/
def spriteFetchDot : Nat := 257

def paletteBase : UInt16 := 0x3F00

def spritePaletteBase : UInt16 := 0x3F10

/-- The colour at a palette address as it is shown. -/
def shownColour (p : Picture) (addr : UInt16) : UInt8 :=
  let colour := p.memory.colour addr
  if Mask.greyscale p.mask then colour &&& 0x30 else colour

def putPixel (p : Picture) (x : Nat) (colour : UInt8) : Picture :=
  { p with pixels := p.pixels.setIfInBounds (p.scanline * width + x) colour }

/-- Whether background bits are those of a pixel that hides what is behind it. -/
def isSolid (background : UInt8) : Bool := background &&& 0x03 != 0

/-- Where the background's colour lies; all pixels that are not solid share the backdrop. -/
def backgroundColourAddress (background : UInt8) : UInt16 :=
  if isSolid background then paletteBase + background.toUInt16 else paletteBase

/-- Where the colour of a pixel lies: a sprite wins unless it is behind a solid background. -/
def colourAddress (background : UInt8) : Option SpritePixel → UInt16
  | none => backgroundColourAddress background
  | some s =>
    if s.behind && isSolid background then backgroundColourAddress background
    else spritePaletteBase + s.colour.toUInt16

/-- The background's bits at `x`, 0 where it is not shown. -/
def backgroundAt (p : Picture) (x : Nat) : UInt8 :=
  if Mask.background p.mask && (8 ≤ x || Mask.backgroundLeft p.mask) then p.shifter.pixel p.fineX
  else 0

/-- The sprite pixel at `x`, if one is shown there. -/
def spriteAt (p : Picture) (x : Nat) : Option SpritePixel :=
  if Mask.sprites p.mask && (8 ≤ x || Mask.spritesLeft p.mask) then p.line[x]?.join else none

/-- Whether sprite zero meets a solid background. -/
def hitsSpriteZero (background : UInt8) (sprite : Option SpritePixel) : Bool :=
  isSolid background && sprite.any (·.spriteZero)

/-- A hit is noted once in a frame. -/
def noteHit (p : Picture) : Picture :=
  if p.hit then p else { p with hit := true, status := p.status ||| Status.spriteZeroHit }

def composePixel (p : Picture) : Picture :=
  let x := p.dot - 1
  let background := p.backgroundAt x
  let sprite := p.spriteAt x
  let p := if hitsSpriteZero background sprite then p.noteHit else p
  let colour := p.shownColour (colourAddress background sprite)
  p.putPixel x colour

def shiftBackground (p : Picture) : Picture :=
  if Mask.background p.mask then { p with shifter := p.shifter.shift } else p

/-- Where the lower bits of the current row of the latched tile lie. -/
def backgroundPatternAddress (p : Picture) : UInt16 :=
  Control.backgroundTable p.ctrl + p.latch.tile.toUInt16 * 16 + Scroll.fineY p.v

def latchTile (p : Picture) : Picture :=
  let tile := p.memory.tile (Scroll.tileAddress p.v)
  { p with shifter := p.shifter.reload p.latch, latch := { p.latch with tile } }

def latchPalette (p : Picture) : Picture :=
  let attributes := p.memory.tile (Scroll.attributeAddress p.v)
  let palette := attributes >>> Scroll.attributeShift p.v &&& 0x03
  { p with latch := { p.latch with palette } }

/-- One step of the eight in which a tile is fetched. -/
def fetchBackground : Action Bus.Fault Picture Unit := do
  if ← .view fun p => Mask.background p.mask then
    match ← .view fun p => p.dot % 8 with
    | 0 => .update fun p => { p with v := Scroll.nextTile p.v }
    | 1 => .update latchTile
    | 3 => .update latchPalette
    | 5 => do
      let low ← .inspect fun p => p.memory.pattern p.backgroundPatternAddress
      .update fun p => { p with latch := { p.latch with low } }
    | 7 => do
      let high ← .inspect fun p => p.memory.pattern (p.backgroundPatternAddress + 8)
      .update fun p => { p with latch := { p.latch with high } }
    | _ => return

/-- Finds the sprites of the scanline; those over the limit are only noted. -/
def evaluateSprites : Action Bus.Fault Picture Unit := do
  if ← .view fun p => Mask.sprites p.mask then
    let found ← .view fun p => Sprite.onLine p.oam (Control.spriteHeight p.ctrl) p.scanline
    .update fun p => { p with sprites := found.take maxSprites }
    if maxSprites < found.length then
      .update fun p => { p with status := p.status ||| Status.spriteOverflow }
      .report (.spriteOverflow (← .view (·.scanline)))
  else
    .update fun p => { p with sprites := [] }

/-- The line that the sprites leave, with the first of them on top. -/
def spriteLine (p : Picture) : Except Bus.Fault SpriteLine :=
  p.sprites.foldrM (fun s line => do
    let addr := s.patternAddress p.ctrl
    let low ← p.memory.pattern addr
    let high ← p.memory.pattern (addr + 8)
    return s.draw low high line) .blank

def fetchSprites : Action Bus.Fault Picture Unit := do
  .update fun p => { p with line := .blank }
  if ← .view fun p => Mask.sprites p.mask then
    let line ← .inspect spriteLine
    .update fun p => { p with line }

/-- A dot of a scanline on which the pipelines run. -/
def renderDot (visible : Bool) : Action Bus.Fault Picture Unit := do
  let dot ← .view (·.dot)
  if 1 ≤ dot ∧ dot ≤ 256 then
    .update shiftBackground
    if visible then
      .update composePixel
    fetchBackground
    if dot = 256 then
      .update fun p => { p with v := Scroll.nextLine p.v }
  else if dot = spriteFetchDot then
    .update fun p => { p with v := Scroll.copyHorizontal p.v p.t }
    fetchSprites
  else if 280 ≤ dot ∧ dot ≤ 305 then
    unless visible do
      .update fun p => { p with v := Scroll.copyVertical p.v p.t }
  else if 321 ≤ dot ∧ dot ≤ 336 then
    .update shiftBackground
    fetchBackground

/-- Draws the backdrop while nothing is rendered. -/
def drawBackdrop (p : Picture) : Picture :=
  if 1 ≤ p.dot ∧ p.dot ≤ 256 then p.putPixel (p.dot - 1) (p.shownColour paletteBase) else p

def visibleDot : Action Bus.Fault Picture Unit := do
  if (← .view (·.dot)) = evaluationDot then
    evaluateSprites
  if ← .view fun p => Mask.rendering p.mask then
    renderDot true
  else
    .update drawBackdrop

def vblankDot (p : Picture) : Picture :=
  if p.dot = 1 then { p with status := p.status ||| Status.vblank }
  else if p.dot = nmiDot ∧ Control.nmiEnabled p.ctrl ∧ p.status &&& Status.vblank ≠ 0 then
    { p with nmiPending := true }
  else p

def clearStatus (p : Picture) : Picture :=
  { p with
    status := p.status &&& ~~~(Status.vblank ||| Status.spriteZeroHit ||| Status.spriteOverflow) }

def preRenderDot : Action Bus.Fault Picture Unit := do
  if (← .view (·.dot)) = 1 then
    .update clearStatus
  if (← .view (·.dot)) = evaluationDot then
    evaluateSprites
  if ← .view fun p => Mask.rendering p.mask then
    renderDot false

def drawDot : Action Bus.Fault Picture Unit := do
  let scanline ← .view (·.scanline)
  if scanline < height then
    visibleDot
  else if scanline = vblankScanline then
    .update vblankDot
  else if scanline = preRenderScanline then
    preRenderDot

/-- Goes on to the next dot. Odd frames are one dot shorter. -/
def advance : Action Bus.Fault Picture Unit := fun p =>
  if p.dot + 1 < dotsPerScanline then
    ⟨.ok (), { p with dot := p.dot + 1 }, []⟩
  else if p.scanline + 1 < scanlinesPerFrame then
    ⟨.ok (), { p with dot := 0, scanline := p.scanline + 1 }, []⟩
  else
    let frameCount := p.frameCount + 1
    ⟨.ok (), { p with
      dot := if p.oddFrame then 0 else 1
      scanline := 0
      oddFrame := !p.oddFrame
      hit := false
      frameCount
      frameReady := true }, [.frameComplete frameCount]⟩

def tick : Action Bus.Fault Picture Unit := do
  drawDot
  advance

/-- The dots until the current frame is complete. -/
def dotsLeft (p : Picture) : Nat := dotsPerScanline * scanlinesPerFrame -
  (dotsPerScanline * p.scanline + p.dot)

end Famicom.Picture
