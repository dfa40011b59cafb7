import Famicom.Controller
import Famicom.Picture.Register
import Famicom.Processor.Memory

/-!
The processor's view of the console: 2 KB of work RAM, the picture unit's registers, the transfer
of sprites, the controllers and the cartridge. Sound registers read 0 and take any write; the
expansion area is not wired.
-/

namespace Famicom

structure Bus where
  ram : Vector UInt8 0x800 := .replicate 0x800 0
  picture : Picture := {}
  one : Controller := {}
  two : Controller := {}
  /-- Whether a transfer of sprites has been done for which the processor must still stall. -/
  dmaPending : Bool := false
  /-- The number of the cartridge that the processor reaches. -/
  slot : Option Nat := none

namespace Bus

def oamDmaAddress : UInt16 := 0x4014

def controllerOneAddress : UInt16 := 0x4016

def controllerTwoAddress : UInt16 := 0x4017

variable {ε α : Type}

@[inline] def onPicture (x : Action ε Picture α) : Action ε Bus α :=
  fun ⟨ram, picture, one, two, dmaPending, slot⟩ =>
    match x picture with
    | ⟨answer, picture, es⟩ => ⟨answer, ⟨ram, picture, one, two, dmaPending, slot⟩, es⟩

@[inline] def onController (player : Player) (x : Action ε Controller α) : Action ε Bus α :=
  fun ⟨ram, picture, one, two, dmaPending, slot⟩ =>
    match player with
    | .one =>
      match x one with
      | ⟨answer, one, es⟩ => ⟨answer, ⟨ram, picture, one, two, dmaPending, slot⟩, es⟩
    | .two =>
      match x two with
      | ⟨answer, two, es⟩ => ⟨answer, ⟨ram, picture, one, two, dmaPending, slot⟩, es⟩

/-- The cartridge that the processor reaches. -/
def cartridge (b : Bus) : Option Cartridge := b.picture.memory.cartridgeIn b.slot

def nextNumber (b : Bus) : Nat := b.picture.memory.nextNumber

def add (b : Bus) (c : Cartridge) : Bus := { b with picture := b.picture.add c }

/-- Puts the cartridge with a number into the slots of both sides. -/
def connect (b : Bus) (number : Nat) : Bus :=
  { b with picture := b.picture.connect number, slot := some number }

def insert (b : Bus) (c : Cartridge) : Bus := (b.add c).connect b.nextNumber

def eject (b : Bus) : Bus := { b with picture := b.picture.eject, slot := none }

/-- Where an address lies in the work RAM, which repeats. -/
def ramIndex (addr : UInt16) : Fin 0x800 := ⟨addr.toNat % 0x800, by omega⟩

/-- Work RAM without going through the bus. -/
def peekRam (b : Bus) (addr : UInt16) : UInt8 := b.ram[ramIndex addr]

/-- Whether a transfer is waiting for its stall, which it is only once. -/
def takeDma : Action ε Bus Bool := fun b => ⟨.ok b.dmaPending, { b with dmaPending := false }, []⟩

def readCartridge (b : Bus) (addr : UInt16) : Except Fault UInt8 :=
  match b.cartridge with
  | none => .error .noCartridge
  | some c => (c.read addr).mapError .cartridge

def read (addr : UInt16) : Action Fault Bus UInt8 :=
  if addr < 0x2000 then .view (·.peekRam addr)
  else if addr < 0x4000 then onPicture (Picture.readRegister addr)
  else if addr = oamDmaAddress then .fail (.writeOnlyRegister addr)
  else if addr = controllerOneAddress then onController .one Controller.read
  else if addr = controllerTwoAddress then onController .two Controller.read
  else if addr < 0x4020 then return 0
  else if addr < 0x6000 then .fail (.invalidAddress addr)
  else .inspect (·.readCartridge addr)

/-- The address of a byte in a page. -/
def pageAddress (page : UInt8) (i : Nat) : UInt16 := page.toUInt16 <<< 8 ||| UInt16.ofNat i

/-- Reads a whole page and stores it as the sprites. -/
def oamDma (page : UInt8) : Action Fault Bus Unit := do
  let bytes ← (List.range 256).mapM fun i => read (pageAddress page i)
  onPicture (.update (·.writeOamAll bytes))
  .update fun b => { b with dmaPending := true }
  .report (.oamDma page)

def write (addr : UInt16) (v : UInt8) : Action Fault Bus Unit :=
  if addr < 0x2000 then .update fun b => { b with ram := b.ram.set (ramIndex addr) v }
  else if addr < 0x4000 then onPicture (Picture.writeRegister addr v)
  else if addr = oamDmaAddress then oamDma v
  else if addr = controllerOneAddress then do
    onController .one (Controller.write v)
    onController .two (Controller.write v)
  else if addr < 0x4020 then return
  else if addr < 0x6000 then .fail (.invalidAddress addr)
  else do
    let slot ← .view (·.slot)
    onPicture (Picture.onMemory (Picture.VideoMemory.onSlot slot (Cartridge.write addr v)))

instance : Memory Bus Fault := ⟨read, write⟩

end Bus

end Famicom
