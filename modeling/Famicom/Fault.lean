import Famicom.Cartridge.Header

/-!
What can go wrong while the console runs, from the buses up to the processor.
-/

namespace Famicom

inductive Bus.Fault
  | writeOnlyRegister (addr : UInt16)
  | readOnlyRegister (addr : UInt16)
  | invalidAddress (addr : UInt16)
  | noCartridge
  | cartridge (fault : Cartridge.Fault)
deriving DecidableEq, Repr

def Bus.Fault.message : Bus.Fault → String
  | .writeOnlyRegister addr => s!"read from write-only register {Text.hexWord addr}"
  | .readOnlyRegister addr => s!"write to read-only register {Text.hexWord addr}"
  | .invalidAddress addr => s!"no device mapped at {Text.hexWord addr}"
  | .noCartridge => "no cartridge inserted"
  | .cartridge fault => fault.message

/-- A processor stops at an opcode that locks it up, or at an access that its memory refuses. -/
inductive Processor.Fault (ε : Type)
  | jammed (opcode : UInt8) (pc : UInt16)
  | memory (fault : ε)
deriving DecidableEq, Repr

def Processor.Fault.message {ε : Type} (memoryMessage : ε → String) : Fault ε → String
  | .jammed opcode pc => s!"CPU jammed by opcode {Text.hexByte opcode} at {Text.hexWord pc}"
  | .memory fault => memoryMessage fault

end Famicom
