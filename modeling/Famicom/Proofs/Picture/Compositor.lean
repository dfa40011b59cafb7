import Famicom.Proofs.Picture.Pattern

/-! The picture that a state shows when nothing in it changes, point by point and
without any pipeline: the background by plain lookup of a point in the world of the
four nametables, and the sprites by plain search in the order of their indices. -/

namespace Famicom.Picture

namespace VideoMemory

/-- Which of the two nametables that the console holds stands for one of the four. -/
def heldTable (m : VideoMemory) (tableX tableY : Nat) : Nat :=
  match m.mirroring with
  | .horizontal => tableY
  | .vertical => tableX

/-- A byte of one of the four nametables. -/
def nametableByte (m : VideoMemory) (tableX tableY place : Nat) : UInt8 :=
  m.nametables[m.heldTable tableX tableY * 1024 + place]?.getD 0

/-- The two bits of a pixel of a pattern. -/
def patternPixel (m : VideoMemory) (place k : Nat) : Nat :=
  patternBits (m.patternByte place) (m.patternByte (place + 8)) k

end VideoMemory

namespace Compositor

variable (p : Picture)

/-- The column of the world at the left edge of the tile that the screen starts with. -/
def originX : Nat := 256 * (Scroll.parts p.t).tableX + 8 * (Scroll.parts p.t).column

def worldX (x : Nat) : Nat := (originX p + p.fineX.toNat + x) % 512

def worldY (y : Nat) : Nat :=
  (240 * (Scroll.parts p.t).tableY + 8 * (Scroll.parts p.t).row + (Scroll.parts p.t).fine + y) % 480

/-- The number of the tile at a point of the world. -/
def tileAt (x y : Nat) : UInt8 :=
  p.memory.nametableByte (x / 256) (y / 240) (y % 240 / 8 * 32 + x % 256 / 8)

/-- The palette at a point of the world: two bits for each quarter of a block of four tiles by
four, one byte for each block. -/
def paletteAt (x y : Nat) : Nat :=
  (p.memory.nametableByte (x / 256) (y / 240) (960 + y % 240 / 32 * 8 + x % 256 / 32)).toNat /
    2 ^ (y % 240 / 16 % 2 * 4 + x % 256 / 16 % 2 * 2) % 4

/-- Where the row of the tile at a point of the world lies in the pattern tables. -/
def rowAt (x y : Nat) : Nat :=
  Control.tableOf (p.ctrl &&& 0x10 != 0) + (tileAt p x y).toNat * 16 + y % 8

/-- The background at a place of the screen: the palette above the two bits of the pattern. -/
def background (x y : Nat) : Nat :=
  if Mask.background p.mask && (8 ≤ x || Mask.backgroundLeft p.mask) then
    4 * paletteAt p (worldX p x) (worldY p y) +
      p.memory.patternPixel (rowAt p (worldX p x) (worldY p y)) (7 - worldX p x % 8)
  else 0

/-- One of the four bytes of a sprite: its line, its tile, its attributes and its column. -/
def spriteByte (i : Fin 64) (k : Fin 4) : UInt8 := p.oam[4 * i.val + k.val]

/-- Whether a sprite lies on a line of the screen; it is shown one line below its place. -/
def covers (y : Nat) (i : Fin 64) : Bool :=
  let top := (spriteByte p i 0).toNat + 1
  spriteByte p i 0 < 0xEF && top ≤ y && y < top + Control.spriteHeight p.ctrl

/-- A sprite as it is found on the line above `y`. -/
def found (y : Nat) (i : Fin 64) : Sprite where
  index := i
  tile := spriteByte p i 1
  attributes := spriteByte p i 2
  x := spriteByte p i 3
  row := y - ((spriteByte p i 0).toNat + 1)
  tall := Control.spriteHeight p.ctrl = 16

/-- The row of its own picture that a sprite shows on a line of the screen. -/
def spriteRow (y : Nat) (i : Fin 64) : Nat :=
  let row := y - ((spriteByte p i 0).toNat + 1)
  if spriteByte p i 2 &&& 0x80 != 0 then Control.spriteHeight p.ctrl - 1 - row else row

/-- Where the row that a sprite shows lies in the pattern tables. -/
def spritePlace (y : Nat) (i : Fin 64) : Nat :=
  let tile := (spriteByte p i 1).toNat
  let row := spriteRow p y i
  if Control.spriteHeight p.ctrl = 16 then
    tile % 2 * 4096 + (tile / 2 * 2 + row / 8) * 16 + row % 8
  else Control.tableOf (p.ctrl &&& 0x08 != 0) + tile * 16 + row

/-- The two bits of a sprite's pattern at a place of the screen, 0 beside the sprite. -/
def spritePattern (x y : Nat) (i : Fin 64) : Nat :=
  let left := (spriteByte p i 3).toNat
  if left ≤ x ∧ x < left + 8 then
    let column := x - left
    p.memory.patternPixel (spritePlace p y i)
      (if spriteByte p i 2 &&& 0x40 != 0 then column else 7 - column)
  else 0

/-- What a sprite shows at a place of the screen, if it is opaque there: its palette above the two
bits of its pattern, and whether it lies behind the background. -/
def spritePixel (x y : Nat) (i : Fin 64) : Option (Nat × Bool) :=
  if spritePattern p x y i = 0 then none
  else some ((spriteByte p i 2).toNat % 4 * 4 + spritePattern p x y i,
    spriteByte p i 2 &&& 0x20 != 0)

/-- Where the row that a sprite shows is fetched from under a control of that time. It selects the
table of a sprite that is one tile high, and the sprite stays as high as it was found. -/
def fetchedPlace (ctrl : UInt8) (y : Nat) (i : Fin 64) : Nat :=
  let tile := (spriteByte p i 1).toNat
  let row := spriteRow p y i
  if Control.spriteHeight p.ctrl = 16 then
    tile % 2 * 4096 + (tile / 2 * 2 + row / 8) * 16 + row % 8
  else Control.tableOf (ctrl &&& 0x08 != 0) + tile * 16 + row

/-- The two bits of a sprite's pattern that are fetched for a place of the screen. -/
def fetchedPattern (ctrl : UInt8) (x y : Nat) (i : Fin 64) : Nat :=
  let left := (spriteByte p i 3).toNat
  if left ≤ x ∧ x < left + 8 then
    let column := x - left
    p.memory.patternPixel (fetchedPlace p ctrl y i)
      (if spriteByte p i 2 &&& 0x40 != 0 then column else 7 - column)
  else 0

/-- The pixel that a sprite leaves at a place of the screen, if it is opaque there. -/
def fetchedPixel (ctrl : UInt8) (x y : Nat) (i : Fin 64) : Option SpritePixel :=
  let pattern := fetchedPattern p ctrl x y i
  if pattern = 0 then none
  else some {
    colour := UInt8.ofNat ((spriteByte p i 2).toNat % 4 * 4 + pattern)
    behind := spriteByte p i 2 &&& 0x20 != 0
    spriteZero := i.val = 0 }

/-- The sprites of a line, of which only the first eight are shown. -/
def spritesOf (y : Nat) : List (Fin 64) := ((List.finRange 64).filter (covers p y)).take 8

/-- The first sprite that is opaque at a place of the screen. -/
def sprite (x y : Nat) : Option (Nat × Bool) :=
  if Mask.sprites p.mask && (8 ≤ x || Mask.spritesLeft p.mask) then
    (spritesOf p y).findSome? (spritePixel p x y)
  else none

/-- The entry of the palette that is shown: a sprite's unless it lies behind an opaque background,
else the background's if it is opaque, else the backdrop. -/
def entry (background : Nat) : Option (Nat × Bool) → Nat
  | some (colour, behind) =>
    if behind ∧ background % 4 ≠ 0 then background else 16 + colour
  | none => if background % 4 ≠ 0 then background else 0

/-- The colour at a place of the screen. -/
def colour (x y : Nat) : UInt8 :=
  let c := p.memory.palette[entry (background p x y) (sprite p x y)]?.getD 0
  if Mask.greyscale p.mask then c &&& 0x30 else c

end Compositor

end Famicom.Picture
