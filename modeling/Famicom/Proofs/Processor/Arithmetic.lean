import Famicom.Proofs.Bits
import Famicom.Processor.Registers

/-! The arithmetic of single bytes, in numbers, and the flags that it leaves. -/

namespace Famicom.Registers

variable {r : Registers} {m n v w : UInt8} {on b : Bool}

/-! Flags under the masks of other flags. -/

theorem flag_setFlag_self (h : m ≠ 0) (r : Registers) (on : Bool) :
    (r.setFlag m on).flag m = on := by
  unfold flag setFlag
  cases on with
  | true =>
    change (r.status ||| m) &&& m != 0
    rw [Bits.or_and_self]
    exact bne_iff_ne.mpr h
  | false =>
    change (r.status &&& ~~~m &&& m != 0) = false
    rw [UInt8.and_assoc, UInt8.and_comm _ m, UInt8.and_not_self, UInt8.and_zero]
    rfl

theorem flag_setFlag_of_disjoint (h : m &&& n = 0) (r : Registers) (on : Bool) :
    (r.setFlag m on).flag n = r.flag n := by
  unfold flag setFlag
  cases on with
  | true => exact congrArg (· != 0) (Bits.or_and_of_disjoint r.status h)
  | false => exact congrArg (· != 0) (Bits.and_not_and_of_disjoint r.status h)

/-- A flag takes the bits under its mask and leaves the others. -/
theorem getElem_setFlag (r : Registers) (m : UInt8) (on : Bool) {i : Nat} (hi : i < 8) :
    (r.setFlag m on).status.toBitVec[i] =
      if m.toBitVec[i] then on else r.status.toBitVec[i] := by
  unfold setFlag
  cases on <;> cases hm : m.toBitVec[i] <;> simp [hm]

theorem setFlag_setFlag_self (r : Registers) (m : UInt8) (on b : Bool) :
    (r.setFlag m on).setFlag m b = r.setFlag m b := by
  have hstatus : ((r.setFlag m on).setFlag m b).status = (r.setFlag m b).status := by
    apply UInt8.toBitVec_inj.mp
    ext i hi
    rw [getElem_setFlag _ _ _ hi, getElem_setFlag _ _ _ hi, getElem_setFlag _ _ _ hi]
    cases m.toBitVec[i] <;> rfl
  exact congrArg (fun status => { r with status := status }) hstatus

theorem setFlag_comm (h : m &&& n = 0) (r : Registers) (on b : Bool) :
    (r.setFlag m on).setFlag n b = (r.setFlag n b).setFlag m on := by
  have hstatus : ((r.setFlag m on).setFlag n b).status = ((r.setFlag n b).setFlag m on).status := by
    apply UInt8.toBitVec_inj.mp
    ext i hi
    have hbit : (m.toBitVec[i] && n.toBitVec[i]) = false := by
      rw [← BitVec.getElem_and, ← UInt8.toBitVec_and, h]
      exact BitVec.getElem_zero hi
    rw [getElem_setFlag _ _ _ hi, getElem_setFlag _ _ _ hi, getElem_setFlag _ _ _ hi,
      getElem_setFlag _ _ _ hi]
    revert hbit
    cases m.toBitVec[i] <;> cases n.toBitVec[i] <;> simp
  exact congrArg (fun status => { r with status := status }) hstatus

theorem setZeroNegative_setZeroNegative (r : Registers) (v w : UInt8) :
    (r.setZeroNegative v).setZeroNegative w = r.setZeroNegative w := by
  unfold setZeroNegative
  rw [setFlag_comm (by decide) _ _ (w == 0), setFlag_setFlag_self, setFlag_setFlag_self]

/-- Other flags do not matter to the zero and negative flags. -/
theorem setFlag_setZeroNegative (hz : Flag.zero &&& m = 0) (hn : Flag.negative &&& m = 0)
    (r : Registers) (v : UInt8) (on : Bool) :
    (r.setZeroNegative v).setFlag m on = (r.setFlag m on).setZeroNegative v := by
  unfold setZeroNegative
  rw [setFlag_comm hn, setFlag_comm hz]

theorem flag_setZeroNegative (hz : Flag.zero &&& m = 0) (hn : Flag.negative &&& m = 0)
    (r : Registers) (v : UInt8) : (r.setZeroNegative v).flag m = r.flag m := by
  unfold setZeroNegative
  rw [flag_setFlag_of_disjoint hn, flag_setFlag_of_disjoint hz]

theorem setA_setZeroNegative (r : Registers) (v w : UInt8) :
    (r.setZeroNegative v).setA w = r.setA w :=
  setZeroNegative_setZeroNegative { r with a := w } v w

theorem compare_setZeroNegative (r : Registers) (v value m : UInt8) :
    (r.setZeroNegative v).compare value m = r.compare value m := by
  unfold compare
  rw [setFlag_setZeroNegative (by decide) (by decide), setZeroNegative_setZeroNegative]

theorem shiftRight_setZeroNegative (r : Registers) (v w : UInt8) (carryIn : Bool) :
    (r.setZeroNegative v).shiftRight w carryIn = r.shiftRight w carryIn := by
  unfold shiftRight
  rw [setFlag_setZeroNegative (by decide) (by decide)]
  exact congrArg (Prod.mk _) (setZeroNegative_setZeroNegative _ v _)

/-! The carry as a number. -/

/-- The carry flag is the lowest bit of the status. -/
theorem toUInt8_carry (r : Registers) : (r.flag Flag.carry).toUInt8 = r.status &&& 0x01 := by
  have hbit : (r.status &&& 0x01).toNat = r.status.toNat % 2 :=
    (UInt8.toNat_and _ _).trans (Nat.and_one_is_mod _)
  unfold flag Flag.carry
  by_cases h : r.status &&& 0x01 = 0
  · rw [h]
    rfl
  · have hone : r.status &&& 0x01 = 0x01 := by
      have hne : (r.status &&& 0x01).toNat ≠ 0 := fun h' => h (UInt8.toNat_inj.mp h')
      exact UInt8.toNat_inj.mp (show _ = 1 by omega)
    rw [hone]
    rfl

theorem carry_eq_toNat (r : Registers) : r.carry = (r.flag Flag.carry).toNat := by
  unfold carry
  change (r.status &&& 0x01).toNat = _
  rw [← toUInt8_carry]
  cases r.flag Flag.carry <;> rfl

theorem carry_le_one (r : Registers) : r.carry ≤ 1 := by
  rw [carry_eq_toNat]
  exact Bool.toNat_le _

theorem carry_setFlag_carry (r : Registers) (on : Bool) :
    (r.setFlag Flag.carry on).carry = on.toNat := by
  rw [carry_eq_toNat, flag_setFlag_self (by decide)]

theorem carry_setZeroNegative (r : Registers) (v : UInt8) :
    (r.setZeroNegative v).carry = r.carry := by
  rw [carry_eq_toNat, carry_eq_toNat, flag_setZeroNegative (by decide) (by decide)]

theorem carry_setOverflow (r : Registers) (on : Bool) :
    (r.setFlag Flag.overflow on).carry = r.carry := by
  rw [carry_eq_toNat, carry_eq_toNat, flag_setFlag_of_disjoint (by decide)]

theorem subtractWithBorrow_setZeroNegative (r : Registers) (v m : UInt8) :
    (r.setZeroNegative v).subtractWithBorrow m = r.subtractWithBorrow m := by
  dsimp only [subtractWithBorrow]
  rw [carry_setZeroNegative, setFlag_setZeroNegative (by decide) (by decide),
    setFlag_setZeroNegative (by decide) (by decide), setA_setZeroNegative]
  rfl

/-! What the operations make of a byte and the carry. -/

theorem carry_addWithCarry (r : Registers) (v : UInt8) :
    (r.addWithCarry v).carry = (decide (0xFF < r.a.toNat + v.toNat + r.carry)).toNat := by
  unfold addWithCarry
  exact (carry_setZeroNegative _ _).trans ((carry_setOverflow _ _).trans (carry_setFlag_carry _ _))

theorem overflow_addWithCarry (r : Registers) (v : UInt8) :
    (r.addWithCarry v).flag Flag.overflow =
      overflows (r.a.toInt8.toInt + v.toInt8.toInt + r.carry) := by
  unfold addWithCarry
  exact (flag_setZeroNegative (by decide) (by decide) _ _).trans (flag_setFlag_self (by decide) _ _)

theorem value_addWithCarry (r : Registers) (v : UInt8) :
    (r.addWithCarry v).a.toNat + 256 * (r.addWithCarry v).carry =
      r.a.toNat + v.toNat + r.carry := by
  have ha := r.a.toNat_lt
  have hv := v.toNat_lt
  have hcarry := r.carry_le_one
  have hsum : (r.addWithCarry v).a.toNat = (r.a.toNat + v.toNat + r.carry) % 256 :=
    UInt8.toNat_ofNat
  rw [hsum, carry_addWithCarry]
  by_cases h : 0xFF < r.a.toNat + v.toNat + r.carry
  · rw [decide_eq_true h, Bool.toNat_true]
    omega
  · rw [decide_eq_false h, Bool.toNat_false]
    omega

theorem toNat_not (v : UInt8) : (~~~v).toNat = 255 - v.toNat := UInt8.toNat_not v

theorem toInt_toInt8 (v : UInt8) :
    v.toInt8.toInt = if v.toNat < 128 then (v.toNat : Int) else v.toNat - 256 := by
  have hv : v.toInt8.toInt = v.toBitVec.toInt := rfl
  rw [hv, BitVec.toInt_eq_toNat_cond]
  change (if 2 * v.toNat < 256 then (v.toNat : Int) else v.toNat - 256) = _
  split <;> split <;> omega

theorem toInt_not (v : UInt8) : (~~~v).toInt8.toInt = -1 - v.toInt8.toInt := by
  have hv := v.toNat_lt
  rw [toInt_toInt8, toInt_toInt8, toNat_not]
  split <;> split <;> omega

/-- A byte is subtracted by adding its complement; a borrow is a carry that is clear. -/
theorem subtractWithBorrow_eq (r : Registers) (v : UInt8) :
    r.subtractWithBorrow v = r.addWithCarry (~~~v) := by
  have ha := r.a.toNat_lt
  have hv := v.toNat_lt
  have hcarry := r.carry_le_one
  have hborrow : (UInt8.ofNat (1 - r.carry)).toNat = 1 - r.carry :=
    UInt8.toNat_ofNat_of_lt' (by omega : 1 - r.carry < 256)
  have hunsigned : v.toNat + (1 - r.carry) ≤ r.a.toNat ↔
      0xFF < r.a.toNat + (~~~v).toNat + r.carry := by
    rw [toNat_not]
    omega
  have hsigned : r.a.toInt8.toInt - v.toInt8.toInt - (1 - r.carry : Nat) =
      r.a.toInt8.toInt + (~~~v).toInt8.toInt + r.carry := by
    rw [toInt_not]
    omega
  have hbyte : r.a - v - UInt8.ofNat (1 - r.carry) =
      UInt8.ofNat (r.a.toNat + (~~~v).toNat + r.carry) := by
    apply UInt8.toNat_inj.mp
    rw [UInt8.toNat_sub, UInt8.toNat_sub, hborrow, UInt8.toNat_ofNat', toNat_not]
    omega
  unfold subtractWithBorrow addWithCarry
  simp only [hunsigned, hsigned, hbyte]

/-- A bit of a byte as a number. -/
theorem toNat_bit {m : UInt8} {k : Nat} (hm : m.toNat = 2 ^ k) (v : UInt8) :
    (v &&& m != 0).toNat = v.toNat / 2 ^ k % 2 := by
  have hdigit : (v &&& m).toNat = v.toNat / 2 ^ k % 2 * 2 ^ k := by
    rw [UInt8.toNat_and, hm]
    simpa using Bits.and_digit v.toNat k 1
  rcases Nat.mod_two_eq_zero_or_one (v.toNat / 2 ^ k) with h | h
  · rw [h, Nat.zero_mul] at hdigit
    rw [h, show v &&& m = 0 from UInt8.toNat_inj.mp hdigit]
    rfl
  · rw [h, Nat.one_mul] at hdigit
    have hne : v &&& m ≠ 0 := by
      intro hzero
      rw [hzero] at hdigit
      exact (Nat.two_pow_pos k).ne hdigit
    rw [h, bne_iff_ne.mpr hne]
    rfl

/-- One bit to the left doubles a byte with the carry below it. -/
theorem value_shiftLeft (r : Registers) (v : UInt8) (carryIn : Bool) :
    (r.shiftLeft v carryIn).1.toNat + 256 * (r.shiftLeft v carryIn).2.carry =
      2 * v.toNat + carryIn.toNat := by
  have hv := v.toNat_lt
  have hc : carryIn.toNat < 2 ^ 1 := carryIn.toNat_lt
  have hlow : carryIn.toUInt8.toNat = carryIn.toNat := by cases carryIn <;> rfl
  have hdouble : (v <<< 1).toNat = (v.toNat % 128) <<< 1 := by
    simp [Nat.shiftLeft_eq]
    omega
  have hshifted : (r.shiftLeft v carryIn).1.toNat = v.toNat % 128 * 2 + carryIn.toNat := by
    change (v <<< 1 ||| carryIn.toUInt8).toNat = _
    rw [UInt8.toNat_or, hlow, hdouble, ← Nat.shiftLeft_add_eq_or_of_lt hc, Nat.shiftLeft_eq]
  have hcarry : (r.shiftLeft v carryIn).2.carry = v.toNat / 128 % 2 := by
    refine (carry_setZeroNegative _ _).trans ((carry_setFlag_carry _ _).trans ?_)
    exact toNat_bit (k := 7) rfl v
  omega

/-- One bit to the right halves a byte with the carry above it. -/
theorem value_shiftRight (r : Registers) (v : UInt8) (carryIn : Bool) :
    2 * (r.shiftRight v carryIn).1.toNat + (r.shiftRight v carryIn).2.carry =
      v.toNat + 256 * carryIn.toNat := by
  have hv := v.toNat_lt
  have hhalf : (v >>> 1).toNat = v.toNat / 2 := by simp [Nat.shiftRight_eq_div_pow]
  have htop : (carryIn.toUInt8 <<< 7).toNat = carryIn.toNat <<< 7 := by cases carryIn <;> rfl
  have hshifted : (r.shiftRight v carryIn).1.toNat = carryIn.toNat * 128 + v.toNat / 2 := by
    change (v >>> 1 ||| carryIn.toUInt8 <<< 7).toNat = _
    rw [UInt8.toNat_or, hhalf, htop, Nat.or_comm,
      ← Nat.shiftLeft_add_eq_or_of_lt (by omega : v.toNat / 2 < 2 ^ 7), Nat.shiftLeft_eq]
  have hcarry : (r.shiftRight v carryIn).2.carry = v.toNat % 2 := by
    refine (carry_setZeroNegative _ _).trans ((carry_setFlag_carry _ _).trans ?_)
    simpa using toNat_bit (k := 0) rfl v
  omega

end Famicom.Registers
