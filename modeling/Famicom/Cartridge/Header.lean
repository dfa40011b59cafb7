import Famicom.Text.Hex

/-!
The header of an iNES image, and what can be wrong with an image or an access to its contents.
-/

namespace Famicom

/-- How the four nametables share the two that the console holds. -/
inductive Mirroring
  /-- The upper two are one, and the lower two are one. -/
  | horizontal
  /-- The left two are one, and the right two are one. -/
  | vertical
deriving DecidableEq, Repr

def Mirroring.name : Mirroring → String
  | .horizontal => "Horizontal"
  | .vertical => "Vertical"

namespace Header

def size : Nat := 16

def trainerSize : Nat := 512

def prgBankSize : Nat := 0x4000

def chrBankSize : Nat := 0x2000

/-- A header, one program bank and one pattern bank. -/
def minImageSize : Nat := size + prgBankSize + chrBankSize

/-- The letters NES and an end-of-file mark. -/
def magic : Array UInt8 := #[0x4E, 0x45, 0x53, 0x1A]

end Header

/-- The parts of an iNES header that the console understands. -/
structure Header where
  prgBanks : UInt8
  chrBanks : UInt8
  mapper : UInt8
  mirroring : Mirroring
  hasTrainer : Bool
  fourScreen : Bool
deriving DecidableEq, Repr

inductive Cartridge.Fault
  | tooSmall (size : Nat)
  | badMagic
  | truncated (expected actual : Nat)
  | unsupportedMapper (id : UInt8)
  | unsupportedPrgSize (size : Nat)
  | unsupportedChrSize (size : Nat)
  | addressOutOfRange (addr : UInt16)
deriving DecidableEq, Repr

def Cartridge.Fault.message : Fault → String
  | .tooSmall size => s!"ROM image is {size} bytes, need at least {Header.minImageSize}"
  | .badMagic => "missing iNES magic bytes"
  | .truncated expected actual =>
    s!"ROM image is {actual} bytes but its header declares {expected}"
  | .unsupportedMapper id => s!"mapper {id.toNat} is not supported"
  | .unsupportedPrgSize size => s!"unsupported PRG ROM size 0x{Text.hex 1 size}"
  | .unsupportedChrSize size => s!"unsupported CHR size 0x{Text.hex 1 size}"
  | .addressOutOfRange addr => s!"cartridge address {Text.hexWord addr} is out of range"

namespace Header

def parse (image : Array UInt8) : Except Cartridge.Fault Header :=
  if image.size < minImageSize then .error (.tooSmall image.size)
  else if image.extract 0 4 ≠ magic then .error .badMagic
  else
    let flags6 := image.getD 6 0
    let flags7 := image.getD 7 0
    .ok {
      prgBanks := image.getD 4 0
      chrBanks := image.getD 5 0
      mapper := flags6 >>> 4 ||| flags7 &&& 0xF0
      mirroring := if flags6 &&& 0x01 ≠ 0 then .vertical else .horizontal
      hasTrainer := flags6 &&& 0x04 ≠ 0
      fourScreen := flags6 &&& 0x08 ≠ 0 }

variable (h : Header)

def prgSize : Nat := h.prgBanks.toNat * prgBankSize

def chrSize : Nat := h.chrBanks.toNat * chrBankSize

/-- Where the program image starts. -/
def prgStart : Nat := size + if h.hasTrainer then trainerSize else 0

def chrStart : Nat := h.prgStart + h.prgSize

/-- The bytes that the whole image should hold. -/
def imageSize : Nat := h.chrStart + h.chrSize

/-- A board without pattern ROM carries pattern RAM. -/
def hasChrRam : Bool := h.chrBanks == 0

end Header

end Famicom
