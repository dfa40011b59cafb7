import Famicom.Picture.Memory
import Famicom.Picture.Sprite

/-!
The picture unit: its registers, its pipelines and the picture that it draws, one dot at a time.
-/

namespace Famicom

namespace Picture

def width : Nat := 256

def height : Nat := 240

/-- The next tile of the background, fetched over eight dots. -/
structure TileLatch where
  tile : UInt8 := 0
  palette : UInt8 := 0
  low : UInt8 := 0
  high : UInt8 := 0
deriving DecidableEq, Repr

/-- The bits of the background that are about to be drawn, sixteen pixels of each kind. -/
structure Shifter where
  low : UInt16 := 0
  high : UInt16 := 0
  paletteLow : UInt16 := 0
  paletteHigh : UInt16 := 0
deriving DecidableEq, Repr

namespace Shifter

def shift (s : Shifter) : Shifter :=
  ⟨s.low <<< 1, s.high <<< 1, s.paletteLow <<< 1, s.paletteHigh <<< 1⟩

/-- Puts a byte into the lower half of a word. -/
def withLow (w : UInt16) (b : UInt8) : UInt16 := (w &&& 0xFF00) ||| b.toUInt16

/-- Takes in the next tile behind the current one. -/
def reload (s : Shifter) (latch : TileLatch) : Shifter :=
  let spread (bit : UInt8) : UInt8 := if latch.palette &&& bit != 0 then 0xFF else 0
  ⟨withLow s.low latch.low, withLow s.high latch.high,
    withLow s.paletteLow (spread 1), withLow s.paletteHigh (spread 2)⟩

/-- The palette and pattern bits of the current pixel. -/
def pixel (s : Shifter) (fineX : UInt8) : UInt8 :=
  let place := 15 - fineX.toUInt16
  let bit (w : UInt16) : UInt8 := (w >>> place &&& 1).toUInt8
  bit s.paletteHigh <<< 3 ||| bit s.paletteLow <<< 2 ||| bit s.high <<< 1 ||| bit s.low

end Shifter

end Picture

open Picture in
structure Picture where
  ctrl : UInt8 := 0
  mask : UInt8 := 0
  status : UInt8 := 0
  oamAddress : UInt8 := 0
  oam : Vector UInt8 256 := .replicate 256 0
  /-- The video address in use. -/
  v : UInt16 := 0
  /-- The video address to go back to, which is where the next frame starts. -/
  t : UInt16 := 0
  fineX : UInt8 := 0
  /-- Whether the next write to a register of two halves is its second. -/
  secondWrite : Bool := false
  readBuffer : UInt8 := 0
  latch : TileLatch := {}
  shifter : Shifter := {}
  /-- The sprites found on the current scanline. -/
  sprites : List Sprite := []
  /-- The pixels of the sprites found on the scanline before. -/
  line : SpriteLine := .blank
  /-- Whether sprite zero has been hit in this frame. -/
  hit : Bool := false
  scanline : Nat := 0
  dot : Nat := 0
  oddFrame : Bool := false
  /-- The frames completed so far. -/
  frameCount : Nat := 0
  pixels : Vector UInt8 (width * height) := .replicate (width * height) 0
  nmiPending : Bool := false
  frameReady : Bool := false
  memory : VideoMemory := {}

namespace Picture

def powerOn : Picture := {}

def add (p : Picture) (c : Cartridge) : Picture := { p with memory := p.memory.add c }

def connect (p : Picture) (number : Nat) : Picture := { p with memory := p.memory.connect number }

def insert (p : Picture) (c : Cartridge) : Picture := { p with memory := p.memory.insert c }

def eject (p : Picture) : Picture := { p with memory := p.memory.eject }

variable {ε α : Type}

/-- An operation of the picture unit's memory, which is taken out for it so that nobody else holds
it when it changes. -/
@[inline] def onMemory (x : Action ε VideoMemory α) : Action ε Picture α := fun p =>
  let memory := p.memory
  let p := { p with memory := {} }
  match x memory with
  | ⟨answer, memory, es⟩ => ⟨answer, { p with memory }, es⟩

/-- Whether the picture unit has raised an interrupt that nobody has taken yet. -/
def takeNmi : Action ε Picture Bool := fun p =>
  ⟨.ok p.nmiPending, { p with nmiPending := false }, []⟩

/-- The picture if a frame has been completed since it was last taken. -/
def takeFrame : Action ε Picture (Option (Vector UInt8 (width * height))) := fun p =>
  ⟨.ok (if p.frameReady then some p.pixels else none), { p with frameReady := false }, []⟩

end Picture

end Famicom
