import Famicom.Picture.Dot

/-!
The picture unit's eight registers as the processor sees them.
-/

namespace Famicom.Picture

/-- Steps the video address after an access to its data. -/
def stepAddress (p : Picture) : Picture :=
  { p with v := (p.v + Control.addressStep p.ctrl) &&& 0x7FFF }

def readStatus : Action Bus.Fault Picture UInt8 := fun p =>
  ⟨.ok p.status, { p with status := p.status &&& ~~~Status.vblank, secondWrite := false }, []⟩

def readOam (p : Picture) : UInt8 :=
  have := p.oamAddress.toNat_lt
  p.oam[p.oamAddress.toNat]

/-- Reads are one behind, through a buffer. A colour is read at once, and the buffer then takes
the byte of the nametables below it. -/
def readData : Action Bus.Fault Picture UInt8 := do
  let addr ← .view fun p => p.v &&& 0x3FFF
  let data ← .inspect (·.memory.read addr)
  let buffered ← .view (·.readBuffer)
  if paletteBase ≤ addr then
    let below ← .inspect (·.memory.read (addr - 0x1000))
    .update fun p => { p with readBuffer := below }
  else
    .update fun p => { p with readBuffer := data }
  .update stepAddress
  return if paletteBase ≤ addr then data else buffered

/-- The register that an address stands for. -/
def registerAt (addr : UInt16) : UInt16 := addr &&& 0x2007

def readRegister (addr : UInt16) : Action Bus.Fault Picture UInt8 :=
  match registerAt addr with
  | 0x2002 => readStatus
  | 0x2004 => .view readOam
  | 0x2007 => readData
  | _ => .fail (.writeOnlyRegister addr)

/-- Enabling the interrupt during the vertical blank raises it at once. -/
def writeControl (data : UInt8) (p : Picture) : Picture :=
  { p with
    ctrl := data
    t := Scroll.selectNametable p.t data
    nmiPending := p.nmiPending ||
      (!Control.nmiEnabled p.ctrl && Control.nmiEnabled data && p.status &&& Status.vblank != 0) }

def writeOam (data : UInt8) (p : Picture) : Picture :=
  { p with
    oam := p.oam.set p.oamAddress.toNat data p.oamAddress.toNat_lt
    oamAddress := p.oamAddress + 1 }

def writeScroll (data : UInt8) (p : Picture) : Picture :=
  if p.secondWrite then { p with t := Scroll.scrollY p.t data, secondWrite := false }
  else
    let (t, fineX) := Scroll.scrollX p.t data
    { p with t, fineX, secondWrite := true }

def writeAddress (data : UInt8) (p : Picture) : Picture :=
  if p.secondWrite then
    let t := Scroll.addressLow p.t data
    { p with t, v := t, secondWrite := false }
  else
    { p with t := Scroll.addressHigh p.t data, secondWrite := true }

def writeData (data : UInt8) : Action Bus.Fault Picture Unit := do
  let addr ← .view fun p => p.v &&& 0x3FFF
  onMemory (VideoMemory.write addr data)
  .update stepAddress

def writeRegister (addr : UInt16) (data : UInt8) : Action Bus.Fault Picture Unit := do
  .report (.registerWrite data (registerAt addr))
  match registerAt addr with
  | 0x2000 => .update (writeControl data)
  | 0x2001 => .update fun p => { p with mask := data }
  | 0x2002 => .fail (.readOnlyRegister addr)
  | 0x2003 => .update fun p => { p with oamAddress := data }
  | 0x2004 => .update (writeOam data)
  | 0x2005 => .update (writeScroll data)
  | 0x2006 => .update (writeAddress data)
  | _ => writeData data

/-- Stores bytes one after another through the sprite address, as a transfer does. -/
def writeOamAll (p : Picture) (bytes : List UInt8) : Picture :=
  bytes.foldl (fun p data => p.writeOam data) p

end Famicom.Picture
