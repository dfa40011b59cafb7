import Famicom.Fault
import Famicom.Log.Level

/-!
What the devices report while they work, each with its category, its level and its message.
-/

namespace Famicom

inductive Event
  | reset (pc : UInt16)
  | brk (source target : UInt16)
  | jam (opcode : UInt8) (pc : UInt16)
  | halted (pc : UInt16) (fault : Processor.Fault Bus.Fault)
  | nmi (source target : UInt16)
  | irq (source target : UInt16)
  | oamDma (page : UInt8)
  | registerWrite (data : UInt8) (register : UInt16)
  | spriteOverflow (scanline : Nat)
  | frameComplete (count : Nat)
  | fourScreen (mirroring : Mirroring)
  | loaded (header : Header)
  | prgWriteIgnored (data : UInt8) (addr : UInt16)
  | chrWriteIgnored (data : UInt8) (addr : UInt16)
  | mounted (size : Nat)
  | strobe (high : Bool)
deriving DecidableEq, Repr

namespace Event

def category : Event → Log.Category
  | .reset .. | .brk .. | .jam .. | .halted .. => .cpu
  | .nmi .. | .irq .. => .interrupts
  | .oamDma .. => .bus
  | .registerWrite .. | .spriteOverflow .. | .frameComplete .. => .ppu
  | .fourScreen .. | .loaded .. | .prgWriteIgnored .. | .chrWriteIgnored .. | .mounted .. =>
    .cartridge
  | .strobe .. => .input

def level : Event → Log.Level
  | .jam .. | .halted .. => .error
  | .fourScreen .. => .warn
  | .reset .. | .loaded .. | .mounted .. => .info
  | .brk .. | .nmi .. | .irq .. | .oamDma .. | .spriteOverflow .. | .prgWriteIgnored ..
  | .chrWriteIgnored .. => .debug
  | .registerWrite .. | .frameComplete .. | .strobe .. => .trace

open Text in
def message : Event → String
  | .reset pc => s!"reset, PC={hexWord pc}"
  | .brk source target => s!"BRK at {hexWord source} -> {hexWord target}"
  | .jam opcode pc => s!"JAM opcode {hexByte opcode} at {hexWord pc}"
  | .halted pc fault => s!"halted at PC={hexWord pc}: {fault.message Bus.Fault.message}"
  | .nmi source target => s!"NMI from {hexWord source} -> {hexWord target}"
  | .irq source target => s!"IRQ from {hexWord source} -> {hexWord target}"
  | .oamDma page => s!"OAM DMA from page {hexByte page}"
  | .registerWrite data register => s!"write {hexByte data} -> {hexWord register}"
  | .spriteOverflow scanline => s!"sprite overflow on scanline {scanline}"
  | .frameComplete count => s!"frame {count} complete"
  | .fourScreen mirroring => s!"four-screen VRAM not supported, using {mirroring.name} mirroring"
  | .loaded header =>
    let kind := if header.hasChrRam then "RAM" else "ROM"
    s!"loaded mapper {header.mapper.toNat} (NROM): {header.prgSize / 1024}KB PRG, " ++
      s!"8KB CHR {kind}, {header.mirroring.name} mirroring"
  | .prgWriteIgnored data addr => s!"ignored PRG ROM write {hexByte data} -> {hexWord addr}"
  | .chrWriteIgnored data addr => s!"ignored CHR ROM write {hexByte data} -> {hexWord addr}"
  | .mounted size => s!"mounted {size} bytes"
  | .strobe high =>
    let line := if high then "high" else "low"
    s!"strobe {line}"

end Event

end Famicom
