import Famicom.Picture.Control

/-!
Sprites: which of them lie on a scanline, where their patterns are, and the pixels that they leave
on a line.
-/

namespace Famicom.Picture

/-- A sprite as it was found on a scanline. Its row and height are kept from then on, so that a
later change of the control register cannot move it. -/
structure Sprite where
  index : Nat
  tile : UInt8
  attributes : UInt8
  x : UInt8
  row : Nat
  tall : Bool
deriving DecidableEq, Repr

/-- A sprite's pixel on a line, never a transparent one. -/
structure SpritePixel where
  /-- The palette in the upper two bits, the pattern in the lower two. -/
  colour : UInt8
  behind : Bool
  spriteZero : Bool
deriving DecidableEq, Repr

abbrev SpriteLine := Vector (Option SpritePixel) 256

def SpriteLine.blank : SpriteLine := .replicate 256 none

/-- The sprites of a scanline that are kept. -/
def maxSprites : Nat := 8

/-- A sprite placed at or below this line is hidden. -/
def spriteLimit : UInt8 := 0xEF

namespace Sprite

/-- The sprite at `index` if it covers the scanline. -/
def onLine? (oam : Vector UInt8 256) (height scanline : Nat) (index : Fin 64) : Option Sprite :=
  let y := oam[4 * index.val]
  if y < spriteLimit ∧ y.toNat ≤ scanline ∧ scanline < y.toNat + height then
    some {
      index
      tile := oam[4 * index.val + 1]
      attributes := oam[4 * index.val + 2]
      x := oam[4 * index.val + 3]
      row := scanline - y.toNat
      tall := height = 16 }
  else
    none

/-- The sprites that cover the scanline, in the order of their indices. -/
def onLine (oam : Vector UInt8 256) (height scanline : Nat) : List Sprite :=
  (List.finRange 64).filterMap (onLine? oam height scanline)

def paletteBits (s : Sprite) : UInt8 := (s.attributes &&& 0x03) <<< 2

def behind (s : Sprite) : Bool := s.attributes &&& 0x20 != 0

def flippedHorizontally (s : Sprite) : Bool := s.attributes &&& 0x40 != 0

def flippedVertically (s : Sprite) : Bool := s.attributes &&& 0x80 != 0

/-- The row of the sprite's own picture that is drawn. -/
def patternRow (s : Sprite) : Nat :=
  if s.flippedVertically then (if s.tall then 15 else 7) - s.row else s.row

/-- Where the lower bits of the row lie; the upper ones lie eight bytes on. A tall sprite takes
its table from the last bit of its tile, and its lower half is the next tile. -/
def patternAddress (s : Sprite) (ctrl : UInt8) : UInt16 :=
  let row := s.patternRow
  if s.tall then
    let table : UInt16 := (s.tile &&& 0x01).toUInt16 * 0x1000
    let tile : UInt16 := (s.tile &&& 0xFE).toUInt16 + if 8 ≤ row then 1 else 0
    table + tile * 16 + UInt16.ofNat (row % 8)
  else
    Control.spriteTable ctrl + s.tile.toUInt16 * 16 + UInt16.ofNat row

/-- The sprite's pixel in a column, given both bytes of its pattern. -/
def pixel? (s : Sprite) (low high : UInt8) (column : Fin 8) : Option SpritePixel :=
  let bit := UInt8.ofNat (if s.flippedHorizontally then column else 7 - column)
  let upper : UInt8 := (high >>> bit &&& 1) <<< 1
  let bits := upper ||| (low >>> bit &&& 1)
  if bits = 0 then none
  else some { colour := s.paletteBits ||| bits, behind := s.behind, spriteZero := s.index = 0 }

/-- Draws the sprite over a line; what lies right of the screen is cut off. -/
def draw (s : Sprite) (low high : UInt8) (line : SpriteLine) : SpriteLine :=
  (List.finRange 8).foldl (fun line column =>
    match s.pixel? low high column with
    | none => line
    | some p => line.setIfInBounds (s.x.toNat + column) (some p)) line

end Sprite

end Famicom.Picture
