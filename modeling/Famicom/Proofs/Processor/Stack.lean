import Famicom.Proofs.Bits
import Famicom.Proofs.Processor.Account

/-! The stack of a processor over plain memory, where no access is refused: the bytes above the
stack pointer, which wraps around within its page. -/

namespace Famicom

namespace FlatMemory

variable {m : FlatMemory} {a b : UInt16} {v : UInt8}

@[simp] theorem get_set_self (m : FlatMemory) (a : UInt16) (v : UInt8) :
    (m.set a v).get a = v :=
  Vector.getElem_set_self _

theorem get_set_of_ne (h : a ≠ b) : (m.set a v).get b = m.get b :=
  Vector.getElem_set_ne a.toNat_lt b.toNat_lt fun heq => h (UInt16.toNat_inj.mp heq)

end FlatMemory

namespace Processor

@[simp] theorem stackAddress_inj {a b : UInt8} : stackAddress a = stackAddress b ↔ a = b := by
  have hlow : ∀ sp : UInt8, (stackAddress sp).toUInt8 = sp := by
    intro sp
    unfold stackAddress
    rw [UInt16.toUInt8_or, UInt8.toUInt8_toUInt16]
    exact UInt8.zero_or
  constructor
  · intro h
    rw [← hlow a, h, hlow]
  · rintro rfl
    rfl

/-- A word is put together again from the two bytes that it is pushed in. -/
theorem word_halves (w : UInt16) : word w.toUInt8 (w >>> 8).toUInt8 = w := by
  have hlt := w.toNat_lt
  have hlow : w.toNat % 256 < 2 ^ 8 := by omega
  have hhigh : w.toNat / 256 % 256 = w.toNat / 256 := by omega
  have hshift : (w.toNat / 256) <<< 8 % 2 ^ 16 = (w.toNat / 256) <<< 8 := by
    rw [Nat.shiftLeft_eq]
    omega
  apply UInt16.toNat_inj.mp
  calc (word w.toUInt8 (w >>> 8).toUInt8).toNat
    _ = (w.toNat / 256 % 256) <<< 8 % 2 ^ 16 ||| w.toNat % 256 := by
      simp [word, Nat.shiftRight_eq_div_pow]
    _ = (w.toNat / 256) <<< 8 + w.toNat % 256 := by
      rw [hhigh, hshift, Nat.shiftLeft_add_eq_or_of_lt hlow]
    _ = w.toNat := by
      rw [Nat.shiftLeft_eq]
      omega

/-- The bytes on the stack, from the last one that has been pushed. -/
def bytesAbove (m : FlatMemory) (sp : UInt8) : Nat → List UInt8
  | 0 => []
  | n + 1 => m.get (stackAddress (sp + 1)) :: bytesAbove m (sp + 1) n

variable {m m' : FlatMemory} {sp : UInt8} {n : Nat}

@[simp] theorem length_bytesAbove (m : FlatMemory) (sp : UInt8) (n : Nat) :
    (bytesAbove m sp n).length = n := by
  induction n generalizing sp with
  | zero => rfl
  | succ n ih => rw [bytesAbove, List.length_cons, ih]

theorem bytesAbove_add (m : FlatMemory) (sp : UInt8) (k n : Nat) :
    bytesAbove m sp (k + n) = bytesAbove m sp k ++ bytesAbove m (sp + UInt8.ofNat k) n := by
  induction k generalizing sp with
  | zero =>
    have hsp : sp + UInt8.ofNat 0 = sp := UInt8.add_zero sp
    rw [Nat.zero_add, hsp]
    rfl
  | succ k ih =>
    have hsp : sp + 1 + UInt8.ofNat k = sp + UInt8.ofNat (k + 1) := by
      rw [UInt8.ofNat_add, UInt8.add_comm (UInt8.ofNat k), UInt8.add_assoc]
      rfl
    rw [Nat.succ_add, bytesAbove, ih, hsp]
    rfl

theorem bytesAbove_congr (h : ∀ a, m'.get (stackAddress a) = m.get (stackAddress a)) :
    bytesAbove m' sp n = bytesAbove m sp n := by
  induction n generalizing sp with
  | zero => rfl
  | succ n ih => rw [bytesAbove, bytesAbove, h, ih]

/-- A byte elsewhere in the page is none of those on the stack. -/
theorem bytesAbove_set {a v : UInt8} (h : ∀ k, 0 < k → k ≤ n → sp + UInt8.ofNat k ≠ a) :
    bytesAbove (m.set (stackAddress a) v) sp n = bytesAbove m sp n := by
  induction n generalizing sp with
  | zero => rfl
  | succ n ih =>
    -- the byte is neither the first of those on the stack nor one of the rest
    have hhead : stackAddress a ≠ stackAddress (sp + 1) := by
      intro heq
      exact h 1 Nat.one_pos (by omega) (stackAddress_inj.mp heq).symm
    have htail : ∀ k, 0 < k → k ≤ n → sp + 1 + UInt8.ofNat k ≠ a := by
      intro k hk hn
      have hnext := h (k + 1) (by omega) (by omega)
      rwa [UInt8.ofNat_add, UInt8.add_comm (UInt8.ofNat k), ← UInt8.add_assoc] at hnext
    rw [bytesAbove, bytesAbove, FlatMemory.get_set_of_ne hhead, ih htail]

/-- As long as the page has room, a byte is pushed on top of those on the stack. -/
theorem bytesAbove_push (m : FlatMemory) (sp v : UInt8) (h : n < 256) :
    bytesAbove (m.set (stackAddress sp) v) (sp - 1) (n + 1) = v :: bytesAbove m sp n := by
  have hback : sp - 1 + 1 = sp := UInt8.sub_add_cancel sp 1
  rw [bytesAbove, hback, FlatMemory.get_set_self, bytesAbove_set]
  -- the page wraps around after 256 bytes, and there are fewer
  intro k hk hn heq
  have hmod := congrArg UInt8.toNat heq
  rw [UInt8.toNat_add, UInt8.toNat_ofNat_of_lt' (by omega : k < 256)] at hmod
  have hlt := sp.toNat_lt
  omega

/-- The processor after it has pushed bytes one after another. -/
def pushing (p : Processor FlatMemory) : List UInt8 → Processor FlatMemory
  | [] => p
  | v :: vs =>
    { p with
      registers := { p.registers with sp := p.registers.sp - 1 }
      memory := p.memory.set (stackAddress p.registers.sp) v }.pushing vs

/-- The bytes that are pushed come to lie on those that are there, the last of them on top. -/
theorem bytesAbove_pushing (p : Processor FlatMemory) (vs : List UInt8)
    (h : vs.length + n ≤ 256) :
    bytesAbove (p.pushing vs).memory (p.pushing vs).registers.sp (vs.length + n) =
      vs.reverse ++ bytesAbove p.memory p.registers.sp n := by
  induction vs generalizing p n with
  | nil =>
    rw [List.length_nil, Nat.zero_add]
    rfl
  | cons v vs ih =>
    rw [List.length_cons] at h
    -- the first byte is one of those that the rest are pushed onto
    have hrest := ih { p with
      registers := { p.registers with sp := p.registers.sp - 1 }
      memory := p.memory.set (stackAddress p.registers.sp) v } (n := n + 1) (by omega)
    have hlength : (v :: vs).length + n = vs.length + (n + 1) := by
      rw [List.length_cons]
      omega
    rw [hlength, List.reverse_cons, List.append_assoc]
    refine hrest.trans ?_
    rw [bytesAbove_push _ _ _ (by omega)]
    rfl

/-- Nothing is pushed outside the page of the stack. -/
theorem get_pushing {a : UInt16} (h : 0x200 ≤ a.toNat) (p : Processor FlatMemory)
    (vs : List UInt8) : (p.pushing vs).memory.get a = p.memory.get a := by
  induction vs generalizing p with
  | nil => rfl
  | cons v vs ih =>
    refine (ih _).trans (FlatMemory.get_set_of_ne ?_)
    rintro rfl
    exact absurd (toNat_stackAddress_lt p.registers.sp) (Nat.not_lt.mpr h)

theorem sp_pushing (p : Processor FlatMemory) (vs : List UInt8) :
    (p.pushing vs).registers.sp + UInt8.ofNat vs.length = p.registers.sp := by
  induction vs generalizing p with
  | nil => exact UInt8.add_zero _
  | cons v vs ih =>
    rw [List.length_cons, UInt8.ofNat_add, ← UInt8.add_assoc, pushing, ih]
    exact UInt8.sub_add_cancel _ 1

end Processor

end Famicom
