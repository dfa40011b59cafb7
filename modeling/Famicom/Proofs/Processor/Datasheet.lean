import Famicom.Proofs.Processor.Stepping

/-! The data sheet: the documented cycles of the official opcodes. The table of instructions agrees
with it, and gives the other opcodes what an instruction of their mode and use costs. -/

namespace Famicom

/-- The cycles of the documented opcodes; branches are not among them. -/
def datasheet : List (UInt8 × Nat) := [
  (0x00, 7), (0x01, 6), (0x05, 3), (0x06, 5), (0x08, 3), (0x09, 2), (0x0A, 2), (0x0D, 4),
  (0x0E, 6), (0x11, 5), (0x15, 4), (0x16, 6), (0x18, 2), (0x19, 4), (0x1D, 4), (0x1E, 7),
  (0x20, 6), (0x21, 6), (0x24, 3), (0x25, 3), (0x26, 5), (0x28, 4), (0x29, 2), (0x2A, 2),
  (0x2C, 4), (0x2D, 4), (0x2E, 6), (0x31, 5), (0x35, 4), (0x36, 6), (0x38, 2), (0x39, 4),
  (0x3D, 4), (0x3E, 7), (0x40, 6), (0x41, 6), (0x45, 3), (0x46, 5), (0x48, 3), (0x49, 2),
  (0x4A, 2), (0x4C, 3), (0x4D, 4), (0x4E, 6), (0x51, 5), (0x55, 4), (0x56, 6), (0x58, 2),
  (0x59, 4), (0x5D, 4), (0x5E, 7), (0x60, 6), (0x61, 6), (0x65, 3), (0x66, 5), (0x68, 4),
  (0x69, 2), (0x6A, 2), (0x6C, 5), (0x6D, 4), (0x6E, 6), (0x71, 5), (0x75, 4), (0x76, 6),
  (0x78, 2), (0x79, 4), (0x7D, 4), (0x7E, 7), (0x81, 6), (0x84, 3), (0x85, 3), (0x86, 3),
  (0x88, 2), (0x8A, 2), (0x8C, 4), (0x8D, 4), (0x8E, 4), (0x91, 6), (0x94, 4), (0x95, 4),
  (0x96, 4), (0x98, 2), (0x99, 5), (0x9A, 2), (0x9D, 5), (0xA0, 2), (0xA1, 6), (0xA2, 2),
  (0xA4, 3), (0xA5, 3), (0xA6, 3), (0xA8, 2), (0xA9, 2), (0xAA, 2), (0xAC, 4), (0xAD, 4),
  (0xAE, 4), (0xB1, 5), (0xB4, 4), (0xB5, 4), (0xB6, 4), (0xB8, 2), (0xB9, 4), (0xBA, 2),
  (0xBC, 4), (0xBD, 4), (0xBE, 4), (0xC0, 2), (0xC1, 6), (0xC4, 3), (0xC5, 3), (0xC6, 5),
  (0xC8, 2), (0xC9, 2), (0xCA, 2), (0xCC, 4), (0xCD, 4), (0xCE, 6), (0xD1, 5), (0xD5, 4),
  (0xD6, 6), (0xD8, 2), (0xD9, 4), (0xDD, 4), (0xDE, 7), (0xE0, 2), (0xE1, 6), (0xE4, 3),
  (0xE5, 3), (0xE6, 5), (0xE8, 2), (0xE9, 2), (0xEA, 2), (0xEC, 4), (0xED, 4), (0xEE, 6),
  (0xF1, 5), (0xF5, 4), (0xF6, 6), (0xF8, 2), (0xF9, 4), (0xFD, 4), (0xFE, 7)]

/-- How an instruction uses its operand in memory. -/
inductive Use
  | read | store | modify

def Behaviour.use : Behaviour → Use
  | .store _ => .store
  | .modify _ _ => .modify
  | _ => .read

/-- What an opcode outside the data sheet costs. It follows its mode and its use of the operand. -/
def Mode.cycles : Use → Mode → Nat
  | _, .implied | _, .accumulator | _, .immediate | _, .relative => 2
  | .modify, .zeroPage => 5
  | _, .zeroPage => 3
  | .modify, .zeroPageX | .modify, .zeroPageY | .modify, .absolute => 6
  | _, .zeroPageX | _, .zeroPageY | _, .absolute => 4
  | .read, .absoluteX | .read, .absoluteY => 4
  | .store, .absoluteX | .store, .absoluteY => 5
  | .modify, .absoluteX | .modify, .absoluteY => 7
  | _, .indirect => 5
  | .read, .indirectY => 5
  | .store, .indirectY | .store, .indirectX | .read, .indirectX => 6
  | .modify, .indirectX | .modify, .indirectY => 8

/-- The cycles of an opcode before page crossings and branches. -/
def documentedCost (opcode : UInt8) : Nat :=
  (datasheet.lookup opcode).getD
    ((Instruction.decode opcode).mode.cycles (Instruction.decode opcode).operation.behaviour.use)

namespace Instruction

/-- An instruction is in the data sheet if it is official and not a branch. -/
def isListed (i : Instruction) : Bool := i.official && i.mode ≠ .relative

/-- The opcodes in their order. -/
def opcodes : List UInt8 := (List.range 256).map UInt8.ofNat

theorem mem_opcodes (opcode : UInt8) : opcode ∈ opcodes :=
  List.mem_map.mpr ⟨opcode.toNat, List.mem_range.mpr opcode.toNat_lt, UInt8.ofNat_toNat⟩

/-- The data sheet is the table without the unofficial opcodes and without the branches. -/
theorem datasheet_eq : datasheet =
    (opcodes.filter fun opcode => (decode opcode).isListed).map fun opcode =>
      (opcode, (decode opcode).cycles) := by
  decide +kernel

theorem lookup_datasheet (opcode : UInt8) : datasheet.lookup opcode =
    if (decode opcode).isListed then some (decode opcode).cycles else none := by
  rw [datasheet_eq]
  split
  next h =>
    apply List.lookup_graph (fun opcode => (decode opcode).cycles)
    exact List.mem_filter.mpr ⟨mem_opcodes opcode, h⟩
  next h =>
    apply List.lookup_eq_none_iff.mpr
    intro entry hentry
    obtain ⟨listed, hlisted, rfl⟩ := List.mem_map.mp hentry
    apply bne_iff_ne.mpr
    rintro rfl
    exact h (List.mem_filter.mp hlisted).2

/-- The table gives each opcode its documented cost. -/
theorem documentedCost_eq (opcode : UInt8) : documentedCost opcode = (decode opcode).cycles := by
  have hrule := forall_decode (P := fun i => i.isListed = false →
    i.mode.cycles i.operation.behaviour.use = i.cycles) (by decide) opcode
  unfold documentedCost
  rw [lookup_datasheet]
  split
  next => rfl
  next h => exact hrule (Bool.not_eq_true _ ▸ h)

/-- The official opcodes are those of the data sheet and the branches. -/
theorem official_iff (opcode : UInt8) : (decode opcode).official = true ↔
    (datasheet.lookup opcode).isSome = true ∨ (decode opcode).mode = .relative := by
  have hbranch := forall_decode (P := fun i => i.official = true ↔
    i.isListed = true ∨ i.mode = .relative) (by decide) opcode
  rw [hbranch, lookup_datasheet]
  split
  next h => simp [h]
  next h => simp [h]

end Instruction

end Famicom
