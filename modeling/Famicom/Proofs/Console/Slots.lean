import Famicom.Console
import Famicom.Proofs.Bus

/-! The parts of the console that have a slot of their own: the console, the processor's bus and the
picture unit. Media are put into all of them and taken out of all of them. -/

namespace Famicom.Console

open Famicom.Action

variable {c : Console} {k : Cartridge}

/-- All parts have the same cartridge in their slots, or none. -/
structure Wired (c : Console) : Prop where
  slot_eq : c.slot = c.bus.slot
  bus : c.bus.Wired

theorem Wired.memory_slot (h : c.Wired) : c.slot = c.picture.memory.slot := h.slot_eq.trans h.bus

theorem Wired.bus_cartridge (h : c.Wired) : c.bus.cartridge = c.cartridge :=
  (congrArg c.picture.memory.cartridgeIn h.slot_eq).symm

theorem Wired.memory_cartridge (h : c.Wired) : c.picture.memory.cartridge = c.cartridge :=
  (congrArg c.picture.memory.cartridgeIn h.memory_slot).symm

theorem Wired.steady (h : c.Wired) (hp : c.picture.Sound) (hc : c.cartridge.isSome) :
    c.bus.Steady c.slot c.picture.position where
  picture := { hp with
    cartridge := (congrArg Option.isSome h.memory_cartridge).trans hc
    position_eq := rfl }
  slot_eq := h.slot_eq.symm
  memory_slot := h.memory_slot.symm

/-- The console with another cartridge in its slots. -/
def inserted (c : Console) (k : Cartridge) : Console :=
  ⟨{ c.processor with memory := c.bus.insert k }, some c.bus.nextNumber, false⟩

def ejected (c : Console) : Console :=
  ⟨{ c.processor with memory := c.bus.eject }, none, false⟩

theorem insert_of_ok {image : Array UInt8} (h : Cartridge.ofImage image = .ok k) (c : Console) :
    Console.insert image c = ⟨.ok (), c.inserted k, Cartridge.loadEvents image⟩ := by
  unfold Console.insert
  rw [h]
  rfl

theorem insert_of_error {image : Array UInt8} {e : Cartridge.Fault}
    (h : Cartridge.ofImage image = .error e) (c : Console) :
    Console.insert image c = ⟨.error (.cartridge e), c, Cartridge.loadEvents image⟩ := by
  unfold Console.insert
  rw [h]

theorem wired_inserted (c : Console) (k : Cartridge) : (c.inserted k).Wired := ⟨rfl, rfl⟩

theorem wired_ejected (c : Console) : c.ejected.Wired := ⟨rfl, rfl⟩

theorem cartridge_inserted (c : Console) (k : Cartridge) : (c.inserted k).cartridge = some k :=
  Picture.VideoMemory.cartridgeIn_add _ _

theorem cartridge_insert {image : Array UInt8} (h : Cartridge.ofImage image = .ok k) :
    (Console.insert image c).state.cartridge = some k := by
  rw [insert_of_ok h]
  exact cartridge_inserted c k

end Famicom.Console
