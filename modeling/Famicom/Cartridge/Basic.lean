import Famicom.Action

/-!
A cartridge with an NROM board: one or two banks of program ROM without switching, one bank of
pattern ROM or RAM, and 8 KB of RAM on the processor's side.
-/

namespace Famicom

structure Cartridge where
  header : Header
  prg : Array UInt8
  chr : Vector UInt8 0x2000
  ram : Vector UInt8 0x2000
  prg_size : prg.size = 0x4000 ∨ prg.size = 0x8000

namespace Cartridge

/-- What an image lacks for a board that the console supports. -/
def boardFault? (h : Header) : Option Fault :=
  if h.mapper ≠ 0 then some (.unsupportedMapper h.mapper)
  else if h.prgBanks ≠ 1 ∧ h.prgBanks ≠ 2 then some (.unsupportedPrgSize h.prgSize)
  else if 1 < h.chrBanks then some (.unsupportedChrSize h.chrSize)
  else none

/-- The header of an image that holds all that the header declares. -/
def header? (image : Array UInt8) : Except Fault Header := do
  let h ← Header.parse image
  if image.size < h.imageSize then .error (.truncated h.imageSize image.size) else .ok h

/-- The part of an image that starts at `start`. -/
def slice (image : Array UInt8) (start size : Nat) : Vector UInt8 size :=
  .ofFn fun i => image.getD (start + i) 0

def ofImage (image : Array UInt8) : Except Fault Cartridge := do
  let h ← header? image
  match hf : boardFault? h with
  | some fault => .error fault
  | none =>
    .ok {
      header := h
      prg := (slice image h.prgStart h.prgSize).toArray
      chr := if h.hasChrRam then .replicate 0x2000 0 else slice image h.chrStart 0x2000
      ram := .replicate 0x2000 0
      prg_size := by
        have : h.prgBanks = 1 ∨ h.prgBanks = 2 := by grind [boardFault?]
        rcases this with hp | hp <;> simp [Header.prgSize, Header.prgBankSize, hp] }

/-- What is reported while an image is read, whether or not a cartridge comes of it. -/
def loadEvents (image : Array UInt8) : List Event :=
  match header? image with
  | .error _ => []
  | .ok h =>
    (if h.fourScreen then [.fourScreen h.mirroring] else []) ++
      if (boardFault? h).isNone then [.loaded h] else []

theorem prg_size_pos (c : Cartridge) : 0 < c.prg.size := by
  have := c.prg_size
  omega

/-- Program ROM seen from the processor; a single bank is seen twice. -/
def prgByte (c : Cartridge) (addr : UInt16) : UInt8 :=
  have := Nat.mod_lt addr.toNat c.prg_size_pos
  c.prg[addr.toNat % c.prg.size]

/-- Where an address lies in the RAM on the processor's side. -/
def ramIndex (addr : UInt16) : Fin 0x2000 := ⟨addr.toNat % 0x2000, by omega⟩

/-- A read by the processor. -/
def read (c : Cartridge) (addr : UInt16) : Except Fault UInt8 :=
  if addr < 0x6000 then .error (.addressOutOfRange addr)
  else if addr < 0x8000 then .ok c.ram[ramIndex addr]
  else .ok (c.prgByte addr)

/-- A write by the processor. -/
def write (addr : UInt16) (v : UInt8) : Action Fault Cartridge Unit :=
  if addr < 0x6000 then .fail (.addressOutOfRange addr)
  else if addr < 0x8000 then
    .update fun c => { c with ram := c.ram.set (ramIndex addr) v }
  else .report (.prgWriteIgnored v addr)

/-- A read of the pattern tables. -/
def readPattern (c : Cartridge) (addr : UInt16) : Except Fault UInt8 :=
  if h : addr.toNat < 0x2000 then .ok c.chr[addr.toNat] else .error (.addressOutOfRange addr)

/-- A write to the pattern tables. -/
def writePattern (addr : UInt16) (v : UInt8) : Action Fault Cartridge Unit :=
  if h : addr.toNat < 0x2000 then do
    if ← .view fun c => c.header.hasChrRam then
      .update fun c => { c with chr := c.chr.set addr.toNat v }
    else
      .report (.chrWriteIgnored v addr)
  else
    .fail (.addressOutOfRange addr)

end Cartridge

end Famicom
