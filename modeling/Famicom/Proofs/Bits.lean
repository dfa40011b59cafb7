import Mathlib.Tactic

/-! What a mask sees of a byte in which bits have been set or cleared. -/

namespace Famicom.Bits

variable {m b : UInt8}

theorem and_of_or (v m b : UInt8) : (v ||| m) &&& b = v &&& b ||| m &&& b := by
  apply UInt8.toBitVec_inj.mp
  simp only [UInt8.toBitVec_and, UInt8.toBitVec_or]
  exact BitVec.and_or_distrib_right

theorem or_and_self (v m : UInt8) : (v ||| m) &&& m = m := by
  apply UInt8.toBitVec_inj.mp
  ext i hi
  simp only [UInt8.toBitVec_and, UInt8.toBitVec_or, BitVec.getElem_and, BitVec.getElem_or]
  cases v.toBitVec[i] <;> cases m.toBitVec[i] <;> rfl

theorem and_or_self (v m : UInt8) : v &&& m ||| m = m := by
  apply UInt8.toBitVec_inj.mp
  ext i hi
  simp only [UInt8.toBitVec_and, UInt8.toBitVec_or, BitVec.getElem_and, BitVec.getElem_or]
  cases v.toBitVec[i] <;> cases m.toBitVec[i] <;> rfl

/-- Bits that are set elsewhere do not show under the mask. -/
theorem or_and_of_disjoint (v : UInt8) (h : m &&& b = 0) : (v ||| m) &&& b = v &&& b := by
  rw [and_of_or, h, UInt8.or_zero]

/-- Nor do bits that are cleared elsewhere. -/
theorem and_not_and_of_disjoint (v : UInt8) (h : m &&& b = 0) : v &&& ~~~m &&& b = v &&& b := by
  apply UInt8.toBitVec_inj.mp
  ext i hi
  have hbit : (m.toBitVec[i] && b.toBitVec[i]) = false := by
    rw [← BitVec.getElem_and, ← UInt8.toBitVec_and, h]
    exact BitVec.getElem_zero hi
  simp only [UInt8.toBitVec_and, UInt8.toBitVec_not, BitVec.getElem_and, BitVec.getElem_not]
  revert hbit
  cases v.toBitVec[i] <;> cases m.toBitVec[i] <;> cases b.toBitVec[i] <;> decide

/-- A byte is known from what a mask and its complement see of it. -/
theorem eq_of_and {v w : UInt8} (h : v &&& m = w &&& m) (h' : v &&& ~~~m = w &&& ~~~m) : v = w := by
  have hsplit : ∀ u : UInt8, u &&& m ||| u &&& ~~~m = u := by
    intro u
    apply UInt8.toBitVec_inj.mp
    ext i hi
    simp only [UInt8.toBitVec_and, UInt8.toBitVec_or, UInt8.toBitVec_not, BitVec.getElem_and,
      BitVec.getElem_or, BitVec.getElem_not]
    cases u.toBitVec[i] <;> cases m.toBitVec[i] <;> rfl
  rw [← hsplit v, h, h', hsplit]

/-- A mask of `m` bits above the lowest `k` cuts out a digit. -/
theorem and_digit (n k m : Nat) : n &&& (2 ^ m - 1) * 2 ^ k = n / 2 ^ k % 2 ^ m * 2 ^ k := by
  apply Nat.eq_of_testBit_eq
  intro i
  rw [Nat.testBit_and, Nat.testBit_mul_two_pow, Nat.testBit_mul_two_pow,
    Nat.testBit_two_pow_sub_one, Nat.testBit_mod_two_pow, Nat.testBit_div_two_pow]
  -- below the mask both sides have no bit
  by_cases hk : k ≤ i
  · rw [Nat.sub_add_cancel hk]
    simp only [hk, decide_true, Bool.true_and, Bool.and_comm]
  · simp only [hk, decide_false, Bool.false_and, Bool.and_false]

end Famicom.Bits
