import Famicom.Cartridge.Basic

/-!
The memory of the picture unit: the pattern tables of the cartridge, nametables and palette.
-/

namespace Famicom.Picture

/-- What the picture unit can address. Cartridges are shared between the parts of the console, so
that they lie side by side here, and a part that has one in its slot has its number. The mirroring
is that of the last cartridge. -/
structure VideoMemory where
  nametables : Vector UInt8 0x800 := .replicate 0x800 0
  palette : Vector UInt8 32 := .replicate 32 0
  mirroring : Mirroring := .horizontal
  /-- All cartridges that there have been. -/
  cartridges : List Cartridge := []
  /-- The number of the cartridge that the picture unit has. -/
  slot : Option Nat := none

/-- A byte of the two nametables, by the number of its table and its place there. -/
def nametableByte (table place : Nat) : Fin 0x800 :=
  ⟨table % 2 * 0x400 + place % 0x400, by omega⟩

/-- The byte of the two nametables that an address stands for. Horizontal mirroring repeats a table
to its right, and vertical mirroring below it. -/
def nametableIndex (mirroring : Mirroring) (addr : UInt16) : Fin 0x800 :=
  match mirroring with
  | .horizontal => nametableByte (addr.toNat / 0x800) addr.toNat
  | .vertical => nametableByte (addr.toNat / 0x400) addr.toNat

/-- The palette entry that an address stands for. The first colour of each sprite palette is that
of a background palette. -/
def paletteIndex (addr : UInt16) : Fin 32 :=
  let i := addr.toNat % 32
  if i % 4 = 0 then ⟨i % 16, by omega⟩ else ⟨i, by omega⟩

namespace VideoMemory

/-- The cartridge in a slot. -/
def cartridgeIn (m : VideoMemory) (slot : Option Nat) : Option Cartridge :=
  slot.bind (m.cartridges[·]?)

def cartridge (m : VideoMemory) : Option Cartridge := m.cartridgeIn m.slot

/-- The number of the cartridge that is added next. -/
def nextNumber (m : VideoMemory) : Nat := m.cartridges.length

def add (m : VideoMemory) (c : Cartridge) : VideoMemory :=
  { m with cartridges := m.cartridges ++ [c] }

/-- Puts the cartridge with a number into the slot of the picture unit. -/
def connect (m : VideoMemory) (number : Nat) : VideoMemory :=
  { m with
    slot := some number
    mirroring := (m.cartridges[number]?).elim m.mirroring (·.header.mirroring) }

def insert (m : VideoMemory) (c : Cartridge) : VideoMemory := (m.add c).connect m.nextNumber

def eject (m : VideoMemory) : VideoMemory := { m with slot := none }

def tile (m : VideoMemory) (addr : UInt16) : UInt8 :=
  m.nametables[nametableIndex m.mirroring addr]

def colour (m : VideoMemory) (addr : UInt16) : UInt8 := m.palette[paletteIndex addr]

def pattern (m : VideoMemory) (addr : UInt16) : Except Bus.Fault UInt8 :=
  match m.cartridge with
  | none => .error .noCartridge
  | some c => (c.readPattern addr).mapError .cartridge

/-- A read of the 14-bit address space, which repeats. -/
def read (m : VideoMemory) (addr : UInt16) : Except Bus.Fault UInt8 :=
  let addr := addr &&& 0x3FFF
  if addr < 0x2000 then m.pattern addr
  else if addr < 0x3F00 then .ok (m.tile addr)
  else .ok (m.colour addr)

variable {α : Type}

/-- An operation on the cartridge with a number. -/
def onNumber (x : Action Cartridge.Fault Cartridge α) : Nat → Action Bus.Fault (List Cartridge) α
  | _, [] => ⟨.error .noCartridge, [], []⟩
  | 0, c :: cs =>
    match x c with
    | ⟨answer, c, es⟩ => ⟨answer.mapError .cartridge, c :: cs, es⟩
  | n + 1, c :: cs =>
    match onNumber x n cs with
    | ⟨answer, cs, es⟩ => ⟨answer, c :: cs, es⟩

/-- An operation on the cartridge in a slot. -/
@[inline] def onSlot (slot : Option Nat) (x : Action Cartridge.Fault Cartridge α) :
    Action Bus.Fault VideoMemory α :=
  match slot with
  | none => .fail .noCartridge
  | some number => fun ⟨nametables, palette, mirroring, cartridges, slot⟩ =>
    match onNumber x number cartridges with
    | ⟨answer, cartridges, es⟩ => ⟨answer, ⟨nametables, palette, mirroring, cartridges, slot⟩, es⟩

@[inline] def onCartridge (x : Action Cartridge.Fault Cartridge α) :
    Action Bus.Fault VideoMemory α := do
  onSlot (← .view (·.slot)) x

/-- Colours have six bits. -/
def write (addr : UInt16) (v : UInt8) : Action Bus.Fault VideoMemory Unit :=
  let addr := addr &&& 0x3FFF
  if addr < 0x2000 then onCartridge (Cartridge.writePattern addr v)
  else if addr < 0x3F00 then
    .update fun m => { m with nametables := m.nametables.set (nametableIndex m.mirroring addr) v }
  else
    .update fun m => { m with palette := m.palette.set (paletteIndex addr) (v &&& 0x3F) }

end VideoMemory

end Famicom.Picture
