/-!
The two scroll registers, one for the address in use and one for the address to go back to.
From the top: three bits of fine Y, two bits that select a nametable (Y, then X), five bits of
coarse Y and five of coarse X.
-/

namespace Famicom.Picture.Scroll

def coarseXBits : UInt16 := 0x001F

def coarseYBits : UInt16 := 0x03E0

def nametableXBit : UInt16 := 0x0400

def nametableYBit : UInt16 := 0x0800

def nametableBits : UInt16 := nametableYBit ||| nametableXBit

def fineYBits : UInt16 := 0x7000

def horizontalBits : UInt16 := nametableXBit ||| coarseXBits

def verticalBits : UInt16 := fineYBits ||| nametableYBit ||| coarseYBits

def coarseX (v : UInt16) : UInt16 := v &&& coarseXBits

def coarseY (v : UInt16) : UInt16 := (v &&& coarseYBits) >>> 5

def fineY (v : UInt16) : UInt16 := (v &&& fineYBits) >>> 12

/-- One tile to the right, into the nametable beside after column 31. -/
def nextTile (v : UInt16) : UInt16 :=
  if coarseX v = 31 then (v &&& ~~~coarseXBits) ^^^ nametableXBit else v + 1

/-- The row of tiles below: row 29 goes on in the nametable below, and row 31, which lies in the
attributes, starts the same one again. -/
def nextRow (v : UInt16) : UInt16 :=
  let y := coarseY v
  if y = 29 then (v &&& ~~~coarseYBits) ^^^ nametableYBit
  else if y = 31 then v &&& ~~~coarseYBits
  else (v &&& ~~~coarseYBits) ||| (y + 1) <<< 5

/-- One line of pixels down. -/
def nextLine (v : UInt16) : UInt16 :=
  if fineY v < 7 then v + 0x1000 else nextRow (v &&& ~~~fineYBits)

/-- Takes the horizontal position from `t`. -/
def copyHorizontal (v t : UInt16) : UInt16 := (v &&& ~~~horizontalBits) ||| (t &&& horizontalBits)

/-- Takes the vertical position from `t`. -/
def copyVertical (v t : UInt16) : UInt16 := (v &&& ~~~verticalBits) ||| (t &&& verticalBits)

/-- A control write selects the nametable. -/
def selectNametable (t : UInt16) (ctrl : UInt8) : UInt16 :=
  let select : UInt16 := (ctrl &&& 0x03).toUInt16 <<< 10
  (t &&& ~~~nametableBits) ||| select

/-- The first scroll write sets coarse X, and fine X beside it. -/
def scrollX (t : UInt16) (data : UInt8) : UInt16 × UInt8 :=
  ((t &&& ~~~coarseXBits) ||| (data >>> 3).toUInt16, data &&& 0x07)

/-- The second scroll write sets fine and coarse Y. -/
def scrollY (t : UInt16) (data : UInt8) : UInt16 :=
  let fine : UInt16 := (data &&& 0x07).toUInt16 <<< 12
  let coarse : UInt16 := (data &&& 0xF8).toUInt16 <<< 2
  (t &&& ~~~(fineYBits ||| coarseYBits)) ||| fine ||| coarse

/-- The first address write sets the high six bits and clears the top one. -/
def addressHigh (t : UInt16) (data : UInt8) : UInt16 :=
  let high : UInt16 := (data &&& 0x3F).toUInt16 <<< 8
  (t &&& 0x00FF) ||| high

def addressLow (t : UInt16) (data : UInt8) : UInt16 := (t &&& 0x7F00) ||| data.toUInt16

/-- Where the number of the current tile lies. -/
def tileAddress (v : UInt16) : UInt16 := 0x2000 ||| (v &&& 0x0FFF)

/-- Where the attributes of the current tile lie. -/
def attributeAddress (v : UInt16) : UInt16 :=
  let row : UInt16 := (v >>> 4) &&& 0x38
  let column : UInt16 := (v >>> 2) &&& 0x07
  0x23C0 ||| (v &&& nametableBits) ||| row ||| column

/-- The place of the current tile's two bits in its attribute byte. -/
def attributeShift (v : UInt16) : UInt8 :=
  let down : UInt16 := (coarseY v &&& 0x02) <<< 1
  let right : UInt16 := coarseX v &&& 0x02
  (down ||| right).toUInt8

end Famicom.Picture.Scroll
