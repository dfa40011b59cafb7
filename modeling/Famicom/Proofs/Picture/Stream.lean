import Famicom.Proofs.Picture.Pattern

/-! The shifter holds a window of an endless row of pixels. It moves one pixel on with
every shift, and every eighth shift takes in the byte behind the window. -/

namespace Famicom.Picture

theorem testBit_shift (w : UInt16) {k : Nat} (hk : k < 15) :
    (w <<< 1).toNat.testBit (k + 1) = w.toNat.testBit k := by
  rw [UInt16.toNat_shiftLeft, Nat.testBit_mod_two_pow, show UInt16.toNat 1 % 16 = 1 from rfl,
    Nat.testBit_shiftLeft, Nat.add_sub_cancel]
  simp only [show k + 1 < 16 by omega, ge_iff_le, Nat.le_add_left, decide_true, Bool.true_and]

theorem testBit_withLow (w : UInt16) (b : UInt8) {k : Nat} (hk : k < 16) :
    (Shifter.withLow w b).toNat.testBit k =
      if k < 8 then b.toNat.testBit k else w.toNat.testBit k := by
  -- the mask keeps the upper half, and a byte reaches no further than the lower one
  have hmask : ∀ k < 16, Nat.testBit 0xFF00 k = decide (8 ≤ k) := by decide
  rw [Shifter.withLow, UInt16.toNat_or, UInt16.toNat_and, UInt8.toNat_toUInt16, Nat.testBit_or,
    Nat.testBit_and, show UInt16.toNat 0xFF00 = 0xFF00 from rfl, hmask k hk]
  split
  · rw [decide_eq_false (by omega), Bool.and_false, Bool.false_or]
  · have hhigh : b.toNat.testBit k = false :=
      Nat.testBit_lt_two_pow (lt_of_lt_of_le b.toNat_lt (Nat.pow_le_pow_right (by decide)
        (by omega : 8 ≤ k)))
    rw [decide_eq_true (by omega), Bool.and_true, hhigh, Bool.or_false]

/-- A word of the shifter before its shift number `n`. The pixels of the bytes `b` enter the window
with shift 16; those within eight places, and those behind up to the last byte taken in, are
there. -/
def Carries (b : Nat → UInt8) (n : Nat) (w : UInt16) : Prop :=
  ∀ i, i < 8 + (8 - n % 8) % 8 → 16 ≤ n + i →
    w.toNat.testBit (14 - i) = (b ((n + i) / 8 - 2)).toNat.testBit (7 - (n + i) % 8)

variable {b : Nat → UInt8} {n : Nat} {w : UInt16}

theorem carries_zero (b : Nat → UInt8) (w : UInt16) : Carries b 0 w := by
  intro i hi hn
  omega

theorem carries_shift (h : Carries b n w) (hn : n % 8 ≠ 0) : Carries b (n + 1) (w <<< 1) := by
  intro i hi hi'
  have hnext := h (i + 1) (by omega) (by omega)
  rw [show 14 - i = 14 - (i + 1) + 1 by omega, testBit_shift w (by omega), hnext]
  rw [show n + (i + 1) = n + 1 + i by omega]

/-- Before the first byte there is nothing to be taken in. -/
theorem carries_reload (h : Carries b n w) (hn : n % 8 = 0) {byte : UInt8}
    (hbyte : 8 ≤ n → byte = b (n / 8 - 1)) :
    Carries b (n + 1) (Shifter.withLow (w <<< 1) byte) := by
  intro i hi hi'
  rw [testBit_withLow _ _ (by omega)]
  -- the lower half is the byte that is taken in, the upper half is what was there before
  by_cases hlow : 14 - i < 8
  · rw [if_pos hlow, hbyte (by omega), show (n + 1 + i) / 8 - 2 = n / 8 - 1 by omega,
      show 14 - i = 7 - (n + 1 + i) % 8 by omega]
  · have hnext := h (i + 1) (by omega) (by omega)
    rw [if_neg hlow, show 14 - i = 14 - (i + 1) + 1 by omega, testBit_shift w (by omega), hnext,
      show n + (i + 1) = n + 1 + i by omega]

/-- A shift brings the next pixel to the place that fine X selects. -/
theorem testBit_of_carries (h : Carries b n w) (hn : 16 ≤ n) {f : Nat} (hf : f ≤ 7) :
    (w <<< 1).toNat.testBit (15 - f) =
      (b ((n - 16 + f) / 8)).toNat.testBit (7 - (n - 16 + f) % 8) := by
  rw [show 15 - f = 14 - f + 1 by omega, testBit_shift w (by omega), h f (by omega) (by omega),
    show (n + f) / 8 - 2 = (n - 16 + f) / 8 by omega,
    show (n + f) % 8 = (n - 16 + f) % 8 by omega]

namespace Shifter

theorem toNat_bit (w : UInt16) {fineX : UInt8} (hf : fineX.toNat ≤ 7) :
    ((w >>> (15 - fineX.toUInt16) &&& 1).toUInt8).toNat =
      (w.toNat.testBit (15 - fineX.toNat)).toNat := by
  have hplace : (15 - fineX.toUInt16).toNat = 15 - fineX.toNat := by
    rw [UInt16.toNat_sub_of_le]
    · rw [UInt8.toNat_toUInt16]
      rfl
    · rw [UInt16.le_iff_toNat_le, UInt8.toNat_toUInt16]
      exact le_trans hf (by decide)
  have hbit : (w >>> (15 - fineX.toUInt16) &&& 1).toNat = w.toNat / 2 ^ (15 - fineX.toNat) % 2 := by
    rw [UInt16.toNat_and, UInt16.toNat_shiftRight, hplace, Nat.mod_eq_of_lt (by omega),
      Nat.shiftRight_eq_div_pow]
    exact Nat.and_two_pow_sub_one_eq_mod _ 1
  rw [UInt16.toNat_toUInt8, hbit, Nat.toNat_testBit]
  omega

/-- The pixel, as a number. -/
theorem toNat_pixel (s : Shifter) {fineX : UInt8} (hf : fineX.toNat ≤ 7) :
    (s.pixel fineX).toNat =
      8 * (s.paletteHigh.toNat.testBit (15 - fineX.toNat)).toNat +
        4 * (s.paletteLow.toNat.testBit (15 - fineX.toNat)).toNat +
        2 * (s.high.toNat.testBit (15 - fineX.toNat)).toNat +
        (s.low.toNat.testBit (15 - fineX.toNat)).toNat := by
  have hone : ∀ w : UInt16, (w >>> (15 - fineX.toUInt16) &&& 1).toUInt8 =
      UInt8.ofNat (w.toNat.testBit (15 - fineX.toNat)).toNat := by
    intro w
    rw [← toNat_bit w hf, UInt8.ofNat_toNat]
  unfold pixel
  dsimp only
  rw [hone, hone, hone, hone]
  cases s.paletteHigh.toNat.testBit (15 - fineX.toNat) <;>
    cases s.paletteLow.toNat.testBit (15 - fineX.toNat) <;>
    cases s.high.toNat.testBit (15 - fineX.toNat) <;>
    cases s.low.toNat.testBit (15 - fineX.toNat) <;> rfl

end Shifter

end Famicom.Picture
