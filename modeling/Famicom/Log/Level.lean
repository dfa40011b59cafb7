/-!
How much is logged, and for which part of the console.
-/

namespace Famicom.Log

inductive Level
  | off | error | warn | info | debug | trace
deriving DecidableEq, Repr, Inhabited

/-- Levels are ordered by how much they let through. -/
def Level.rank : Level → Nat
  | .off => 0
  | .error => 1
  | .warn => 2
  | .info => 3
  | .debug => 4
  | .trace => 5

instance : LE Level := ⟨fun l m => l.rank ≤ m.rank⟩

instance (l m : Level) : Decidable (l ≤ m) := inferInstanceAs (Decidable (l.rank ≤ m.rank))

/-- The part of the console that a message comes from. -/
inductive Category
  | cpu | bus | ppu | interrupts | cartridge | input
deriving DecidableEq, Repr

namespace Category

def all : List Category := [.cpu, .bus, .ppu, .interrupts, .cartridge, .input]

/-- The tag in front of each line. -/
def tag : Category → String
  | .cpu => "CPU"
  | .bus => "BUS"
  | .ppu => "PPU"
  | .interrupts => "INT"
  | .cartridge => "CART"
  | .input => "INPUT"

end Category

/-- One value for each category. -/
structure PerCategory (α : Type) where
  cpu : α
  bus : α
  ppu : α
  interrupts : α
  cartridge : α
  input : α
deriving DecidableEq, Repr

namespace PerCategory

variable {α : Type}

def const (v : α) : PerCategory α := ⟨v, v, v, v, v, v⟩

def get (t : PerCategory α) : Category → α
  | .cpu => t.cpu
  | .bus => t.bus
  | .ppu => t.ppu
  | .interrupts => t.interrupts
  | .cartridge => t.cartridge
  | .input => t.input

def set (t : PerCategory α) (c : Category) (v : α) : PerCategory α :=
  match c with
  | .cpu => { t with cpu := v }
  | .bus => { t with bus := v }
  | .ppu => { t with ppu := v }
  | .interrupts => { t with interrupts := v }
  | .cartridge => { t with cartridge := v }
  | .input => { t with input := v }

@[simp] theorem get_const (v : α) (c : Category) : (const v).get c = v := by
  cases c <;> rfl

@[simp] theorem get_set_self (t : PerCategory α) (c : Category) (v : α) :
    (t.set c v).get c = v := by
  cases c <;> rfl

theorem get_set_ne (t : PerCategory α) {c d : Category} (v : α) (h : d ≠ c) :
    (t.set c v).get d = t.get d := by
  cases c <;> cases d <;> simp_all [get, set]

end PerCategory

end Famicom.Log
