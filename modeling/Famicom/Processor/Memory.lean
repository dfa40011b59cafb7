import Famicom.Action

/-!
What a processor needs of a memory: bytes that can be read and written, where a read may change
the memory and either access may be refused.
-/

namespace Famicom

class Memory (M : Type) (ε : outParam Type) where
  read : UInt16 → Action ε M UInt8
  write : UInt16 → UInt8 → Action ε M Unit

/-- 64 KB of plain memory. -/
structure FlatMemory where
  bytes : Vector UInt8 0x10000

namespace FlatMemory

def blank : FlatMemory := ⟨Vector.replicate 0x10000 0⟩

def get (m : FlatMemory) (addr : UInt16) : UInt8 :=
  have := addr.toNat_lt
  m.bytes[addr.toNat]

def set (m : FlatMemory) (addr : UInt16) (v : UInt8) : FlatMemory :=
  ⟨m.bytes.set addr.toNat v addr.toNat_lt⟩

/-- Stores bytes one after another from `addr` on. -/
def setAll (m : FlatMemory) (addr : UInt16) : List UInt8 → FlatMemory
  | [] => m
  | v :: vs => (m.set addr v).setAll (addr + 1) vs

/-- Stores a program and points the reset vector at its start. -/
def load (m : FlatMemory) (start : UInt16) (program : List UInt8) : FlatMemory :=
  ((m.setAll start program).set 0xFFFC start.toUInt8).set 0xFFFD (start >>> 8).toUInt8

instance : Memory FlatMemory Empty where
  read addr := .view (·.get addr)
  write addr v := .update (·.set addr v)

end FlatMemory

end Famicom
