import Famicom.Proofs.Processor.Flat

/-! Numbers of several bytes. Instructions that work on one byte after another hand on a carry, and
what they leave is the sum, the difference, the double or the half of the whole numbers. -/

namespace Famicom

/-- The number that bytes stand for, the lowest byte first. -/
def littleEndian : List UInt8 → Nat
  | [] => 0
  | b :: bs => b.toNat + 256 * littleEndian bs

/-- The number that they stand for if the highest byte has a sign. -/
def twosComplement : List UInt8 → Int
  | [] => 0
  | [b] => b.toInt8.toInt
  | b :: c :: bs => b.toNat + 256 * twosComplement (c :: bs)

/-- The numbers with a sign that `n` bytes can stand for. -/
def Fits (n : Nat) (i : Int) : Prop := -(256 ^ n) ≤ 2 * i ∧ 2 * i < 256 ^ n

section

variable {bs : List UInt8}

theorem littleEndian_lt (bs : List UInt8) : littleEndian bs < 256 ^ bs.length := by
  induction bs with
  | nil => exact Nat.one_pos
  | cons b bs ih =>
    have hb := b.toNat_lt
    rw [littleEndian, List.length_cons, Nat.pow_succ]
    omega

theorem littleEndian_append (bs cs : List UInt8) :
    littleEndian (bs ++ cs) = littleEndian bs + 256 ^ bs.length * littleEndian cs := by
  induction bs with
  | nil => simp [littleEndian]
  | cons b bs ih =>
    rw [List.cons_append, littleEndian, littleEndian, ih, List.length_cons]
    ring

theorem littleEndian_reverse_cons (b : UInt8) (bs : List UInt8) :
    littleEndian (b :: bs).reverse = littleEndian bs.reverse + 256 ^ bs.length * b.toNat := by
  rw [List.reverse_cons, littleEndian_append, List.length_reverse]
  rfl

theorem littleEndian_not (bs : List UInt8) :
    littleEndian (bs.map (~~~·)) + littleEndian bs + 1 = 256 ^ bs.length := by
  induction bs with
  | nil => rfl
  | cons b bs ih =>
    have hb := b.toNat_lt
    rw [List.map_cons, littleEndian, littleEndian, List.length_cons, Nat.pow_succ,
      Registers.toNat_not]
    omega

theorem twosComplement_not (h : bs ≠ []) :
    twosComplement (bs.map (~~~·)) = -1 - twosComplement bs := by
  induction bs with
  | nil => exact (h rfl).elim
  | cons b bs ih =>
    have hb := b.toNat_lt
    cases bs with
    | nil => exact Registers.toInt_not b
    | cons c bs =>
      have hrest := ih (List.cons_ne_nil _ _)
      simp only [List.map_cons, twosComplement, Registers.toNat_not] at hrest ⊢
      omega

end

namespace Processor

/-- The byte that the next instruction works on. -/
def operandByte (p : Processor FlatMemory) : UInt8 :=
  if p.nextInstruction.mode = .accumulator then p.registers.a
  else p.memory.get p.effectiveAddress

/-- What the instruction makes of that byte. -/
def resultByte (p : Processor FlatMemory) : UInt8 :=
  if p.nextInstruction.mode = .accumulator then (step p).state.registers.a
  else (step p).state.memory.get p.effectiveAddress

/-- What is in the accumulator before instructions. -/
def accumulators (qs : List (Processor FlatMemory)) : List UInt8 := qs.map (·.registers.a)

/-- What is in the accumulator after them. -/
def accumulated (qs : List (Processor FlatMemory)) : List UInt8 :=
  qs.map fun q => (step q).state.registers.a

/-- What they work on. -/
def operands (qs : List (Processor FlatMemory)) : List UInt8 := qs.map operandByte

/-- What they make of it. -/
def results (qs : List (Processor FlatMemory)) : List UInt8 := qs.map resultByte

/-- Each processor has the carry that the one before it has left with its instruction. -/
def Carries : Nat → List (Processor FlatMemory) → Prop
  | _, [] => True
  | c, q :: qs => q.registers.carry = c ∧ Carries (step q).state.registers.carry qs

/-- One instruction after another, with anything in between that does not touch the carry. -/
structure Chain (first rest : Operation) (p : Processor FlatMemory)
    (qs : List (Processor FlatMemory)) : Prop where
  first : p.nextOperation = first
  rest : ∀ q ∈ qs, q.nextOperation = rest
  carries : Carries (step p).state.registers.carry qs

/-- The carry that is left in the end. -/
def carryOut : Nat → List (Processor FlatMemory) → Nat
  | c, [] => c
  | _, q :: qs => carryOut (step q).state.registers.carry qs

variable {p q : Processor FlatMemory} {qs : List (Processor FlatMemory)} {c : Nat} {v : UInt8}
  {op : Operation}

theorem carryOut_eq (hqs : qs ≠ []) :
    carryOut c qs = (step (qs.getLast hqs)).state.registers.carry := by
  induction qs generalizing c with
  | nil => exact (hqs rfl).elim
  | cons q qs ih =>
    cases qs with
    | nil => rfl
    | cons q' qs => exact ih (c := (step q).state.registers.carry) (List.cons_ne_nil q' qs)

/-! Sums and differences. -/

/-- The next instruction adds `v` and the carry to the accumulator. -/
def Adds (v : UInt8) (q : Processor FlatMemory) : Prop :=
  ∃ cost s pc, step q = ⟨.ok cost, s, []⟩ ∧
    s.registers = { q.registers with pc := pc }.addWithCarry v

theorem operandByte_of_load (h : q.nextOperation ∈ [Operation.adc, .sbc]) :
    q.operandByte = q.memory.get q.effectiveAddress := by
  have hmode : q.nextInstruction.mode ≠ .accumulator := Instruction.forall_decode
    (P := fun i => i.operation ∈ [Operation.adc, .sbc] → i.mode ≠ .accumulator) (by decide) _ h
  exact if_neg hmode

theorem adds_of_adc (h : q.nextOperation = .adc) : Adds q.operandByte q := by
  have hload : q.nextOperation.behaviour = .load Registers.addWithCarry := by
    rw [h]
    rfl
  rw [operandByte_of_load (by rw [h]; decide)]
  exact ⟨_, _, _, (leaves_of_load hload).step, rfl⟩

theorem adds_of_sbc (h : q.nextOperation = .sbc) : Adds (~~~q.operandByte) q := by
  have hload : q.nextOperation.behaviour = .load Registers.subtractWithBorrow := by
    rw [h]
    rfl
  rw [operandByte_of_load (by rw [h]; decide)]
  exact ⟨_, _, _, (leaves_of_load hload).step, Registers.subtractWithBorrow_eq _ _⟩

theorem value_of_adds (h : Adds v q) :
    (step q).state.registers.a.toNat + 256 * (step q).state.registers.carry =
      q.registers.a.toNat + v.toNat + q.registers.carry := by
  obtain ⟨cost, s, pc, hstep, hregisters⟩ := h
  rw [hstep, hregisters]
  exact Registers.value_addWithCarry _ _

theorem overflow_of_adds (h : Adds v q) : (step q).state.registers.flag Flag.overflow =
    Registers.overflows (q.registers.a.toInt8.toInt + v.toInt8.toInt + q.registers.carry) := by
  obtain ⟨cost, s, pc, hstep, hregisters⟩ := h
  rw [hstep, hregisters]
  exact Registers.overflow_addWithCarry _ _

section

variable {addend : Processor FlatMemory → UInt8}

/-- Nothing is lost from byte to byte: the result and the last carry make up the whole sum. -/
theorem sum_of_adds (h : ∀ q ∈ qs, Adds (addend q) q) (hcarries : Carries c qs) :
    littleEndian (accumulated qs) + 256 ^ qs.length * carryOut c qs =
      littleEndian (accumulators qs) + littleEndian (qs.map addend) + c := by
  unfold accumulated accumulators
  induction qs generalizing c with
  | nil => simp [littleEndian, carryOut]
  | cons q qs ih =>
    obtain ⟨rfl, hrest⟩ := hcarries
    have hhead := value_of_adds (h q List.mem_cons_self)
    have htail := ih (fun q' hq' => h q' (List.mem_cons_of_mem _ hq')) hrest
    simp only [List.map_cons, littleEndian, List.length_cons, carryOut, Nat.pow_succ]
    linarith

/-- The highest byte has the sign of the whole sum, and all bytes below it are too small to change
whether the sum fits. -/
theorem fits_of_adds (hqs : qs ≠ []) (h : ∀ q ∈ qs, Adds (addend q) q)
    (hcarries : Carries c qs) :
    (step (qs.getLast hqs)).state.registers.flag Flag.overflow = true ↔
      ¬Fits qs.length (twosComplement (accumulators qs) +
        twosComplement (qs.map addend) + c) := by
  unfold accumulators
  induction qs generalizing c with
  | nil => exact (hqs rfl).elim
  | cons q qs ih =>
    obtain ⟨rfl, hrest⟩ := hcarries
    have hhead := h q List.mem_cons_self
    cases qs with
    | nil =>
      rw [List.getLast_singleton, overflow_of_adds hhead]
      simp only [Registers.overflows, Bool.or_eq_true, decide_eq_true_eq, Fits, List.map_cons,
        List.map_nil, twosComplement, List.length_cons, List.length_nil]
      omega
    | cons q' qs =>
      have hvalue := value_of_adds hhead
      have hlt := (step q).state.registers.a.toNat_lt
      -- the byte below adds less than one to the bytes above it, apart from its carry
      rw [List.getLast_cons (List.cons_ne_nil q' qs),
        ih (List.cons_ne_nil q' qs) (fun q hq => h q (List.mem_cons_of_mem _ hq)) hrest]
      simp only [Fits, List.map_cons, twosComplement, List.length_cons, pow_succ]
      generalize (256 : Int) ^ qs.length = k
      omega

end

/-! Doubles and halves. -/

/-- The next instruction shifts its byte to the left, with `c` below it. -/
def Doubles (c : Nat) (q : Processor FlatMemory) : Prop :=
  ∃ cost s, step q = ⟨.ok cost, s, []⟩ ∧
    q.resultByte.toNat + 256 * s.registers.carry = 2 * q.operandByte.toNat + c

/-- The next instruction shifts its byte to the right, with `c` above it. -/
def Halves (c : Nat) (q : Processor FlatMemory) : Prop :=
  ∃ cost s, step q = ⟨.ok cost, s, []⟩ ∧
    2 * q.resultByte.toNat + s.registers.carry = q.operandByte.toNat + 256 * c

/-- A shift does the same to a byte in memory and to the accumulator. -/
theorem step_of_shifting {shift : Registers → UInt8 → Bool → UInt8 × Registers}
    {carryIn : Registers → Bool}
    (h : q.nextOperation.behaviour = .shifting shift carryIn fun r _ => r) :
    ∃ cost s, step q = ⟨.ok cost, s, []⟩ ∧
      q.resultByte = (shift q.advanced q.operandByte (carryIn q.advanced)).1 ∧
      s.registers.carry = (shift q.advanced q.operandByte (carryIn q.advanced)).2.carry := by
  unfold resultByte operandByte
  by_cases hmode : q.nextInstruction.mode = .accumulator
  · have hstep := (leaves_of_accumulator h hmode).step
    rw [if_pos hmode, if_pos hmode, hstep]
    exact ⟨_, _, rfl, rfl, rfl⟩
  · have hstep := (leaves_of_modify h hmode).step
    rw [if_neg hmode, if_neg hmode, hstep]
    exact ⟨_, _, rfl, FlatMemory.get_set_self _ _ _, rfl⟩

theorem toNat_carry_advanced (q : Processor FlatMemory) :
    (q.advanced.flag Flag.carry).toNat = q.registers.carry :=
  (Registers.carry_eq_toNat q.registers).symm

theorem doubles_of_asl (h : q.nextOperation = .asl) : Doubles 0 q := by
  obtain ⟨cost, s, hstep, hresult, hcarry⟩ := step_of_shifting (q := q) (by rw [h]; rfl)
  refine ⟨cost, s, hstep, ?_⟩
  rw [hresult, hcarry, Registers.value_shiftLeft]
  rfl

theorem doubles_of_rol (h : q.nextOperation = .rol) : Doubles q.registers.carry q := by
  obtain ⟨cost, s, hstep, hresult, hcarry⟩ := step_of_shifting (q := q) (by rw [h]; rfl)
  refine ⟨cost, s, hstep, ?_⟩
  rw [hresult, hcarry, Registers.value_shiftLeft, toNat_carry_advanced]

theorem halves_of_lsr (h : q.nextOperation = .lsr) : Halves 0 q := by
  obtain ⟨cost, s, hstep, hresult, hcarry⟩ := step_of_shifting (q := q) (by rw [h]; rfl)
  refine ⟨cost, s, hstep, ?_⟩
  rw [hresult, hcarry, Registers.value_shiftRight]
  rfl

theorem halves_of_ror (h : q.nextOperation = .ror) : Halves q.registers.carry q := by
  obtain ⟨cost, s, hstep, hresult, hcarry⟩ := step_of_shifting (q := q) (by rw [h]; rfl)
  refine ⟨cost, s, hstep, ?_⟩
  rw [hresult, hcarry, Registers.value_shiftRight, toNat_carry_advanced]

/-- The carry goes into the bit below the next byte. -/
theorem double_of_doubles (h : ∀ q ∈ qs, Doubles q.registers.carry q) (hcarries : Carries c qs) :
    littleEndian (results qs) + 256 ^ qs.length * carryOut c qs =
      2 * littleEndian (operands qs) + c := by
  unfold results operands
  induction qs generalizing c with
  | nil => simp [littleEndian, carryOut]
  | cons q qs ih =>
    obtain ⟨rfl, hrest⟩ := hcarries
    obtain ⟨cost, s, hstep, hhead⟩ := h q List.mem_cons_self
    have htail := ih (fun q' hq' => h q' (List.mem_cons_of_mem _ hq')) hrest
    rw [hstep] at htail
    simp only [List.map_cons, littleEndian, List.length_cons, carryOut, Nat.pow_succ, hstep]
    linarith

/-- From the highest byte downwards, the carry goes into the bit above the next byte. -/
theorem half_of_halves (h : ∀ q ∈ qs, Halves q.registers.carry q) (hcarries : Carries c qs) :
    2 * littleEndian (results qs).reverse + carryOut c qs =
      littleEndian (operands qs).reverse + 256 ^ qs.length * c := by
  unfold results operands
  induction qs generalizing c with
  | nil => simp [littleEndian, carryOut]
  | cons q qs ih =>
    obtain ⟨rfl, hrest⟩ := hcarries
    obtain ⟨cost, s, hstep, hhead⟩ := h q List.mem_cons_self
    have htail := ih (fun q' hq' => h q' (List.mem_cons_of_mem _ hq')) hrest
    have hscaled := congrArg (256 ^ qs.length * ·) hhead
    rw [hstep] at htail
    simp only [List.map_cons, littleEndian_reverse_cons, List.length_cons, List.length_map,
      carryOut, Nat.pow_succ, hstep]
    linarith

/-! The four sequences. -/

/-- The registers after the last instruction. -/
def finish (p : Processor FlatMemory) (qs : List (Processor FlatMemory)) : Registers :=
  (step ((p :: qs).getLast (List.cons_ne_nil p qs))).state.registers

/-- Every instruction answers, and together they leave the sum of two numbers. -/
structure LeavesSum (p : Processor FlatMemory) (qs : List (Processor FlatMemory)) : Prop where
  answers : ∀ q ∈ p :: qs, (step q).answer.isOk
  bytes : littleEndian (accumulated qs) =
    (littleEndian (accumulators qs) + littleEndian (operands qs)) % 256 ^ qs.length
  carry : (finish p qs).flag Flag.carry = true ↔
    256 ^ qs.length ≤ littleEndian (accumulators qs) + littleEndian (operands qs)
  overflow : (finish p qs).flag Flag.overflow = true ↔
    ¬Fits qs.length (twosComplement (accumulators qs) + twosComplement (operands qs))

/-- They leave the difference of two numbers, with the carry clear if it is below zero. -/
structure LeavesDifference (p : Processor FlatMemory) (qs : List (Processor FlatMemory)) :
    Prop where
  answers : ∀ q ∈ p :: qs, (step q).answer.isOk
  bytes : (littleEndian (accumulated qs) : Int) =
    ((littleEndian (accumulators qs) : Int) - littleEndian (operands qs)) % 256 ^ qs.length
  carry : (finish p qs).flag Flag.carry = true ↔
    littleEndian (operands qs) ≤ littleEndian (accumulators qs)
  overflow : (finish p qs).flag Flag.overflow = true ↔
    ¬Fits qs.length (twosComplement (accumulators qs) - twosComplement (operands qs))

/-- They leave a number doubled, with its highest bit in the carry. -/
structure LeavesDouble (p : Processor FlatMemory) (qs : List (Processor FlatMemory)) : Prop where
  answers : ∀ q ∈ p :: qs, (step q).answer.isOk
  bytes : littleEndian (results (p :: qs)) =
    2 * littleEndian (operands (p :: qs)) % 256 ^ (p :: qs).length
  carry : (finish p qs).flag Flag.carry = true ↔
    256 ^ (p :: qs).length ≤ 2 * littleEndian (operands (p :: qs))

/-- They leave a number halved, with its lowest bit in the carry. The highest byte comes first. -/
structure LeavesHalf (p : Processor FlatMemory) (qs : List (Processor FlatMemory)) : Prop where
  answers : ∀ q ∈ p :: qs, (step q).answer.isOk
  bytes : littleEndian (results (p :: qs)).reverse = littleEndian (operands (p :: qs)).reverse / 2
  carry : (finish p qs).flag Flag.carry = true ↔
    littleEndian (operands (p :: qs)).reverse % 2 = 1

theorem flag_carry_iff (r : Registers) : r.flag Flag.carry = true ↔ r.carry = 1 := by
  rw [Registers.carry_eq_toNat, Bool.toNat_eq_one]

theorem finish_of_ne_nil (hqs : qs ≠ []) :
    finish p qs = (step (qs.getLast hqs)).state.registers := by
  unfold finish
  rw [List.getLast_cons hqs]

theorem carry_finish (p : Processor FlatMemory) (qs : List (Processor FlatMemory)) :
    (finish p qs).carry = carryOut (step p).state.registers.carry qs :=
  (carryOut_eq (c := 0) (List.cons_ne_nil p qs)).symm

/-- A number with a carry above it, taken apart. -/
theorem mod_of_carry {z k c t : Nat} (h : z + k * c = t) (hz : z < k) (hc : c ≤ 1) :
    z = t % k ∧ (c = 1 ↔ k ≤ t) := by
  subst h
  refine ⟨by rw [Nat.add_mul_mod_self_left, Nat.mod_eq_of_lt hz], ?_⟩
  rcases Nat.le_one_iff_eq_zero_or_eq_one.mp hc with rfl | rfl
  · omega
  · omega

/-- A difference is a sum with the complement. -/
theorem sub_emod_of_mod {x y y' z k : Nat} (hy : y' + y + 1 = k) (hz : z = (x + y' + 1) % k) :
    (z : Int) = ((x : Int) - y) % k := by
  have hdifference : (x : Int) - y = (x + y' + 1 : Nat) - k := by omega
  rw [hdifference, Int.sub_emod_right, hz, Int.natCast_mod]

theorem step_of_clc (h : p.nextOperation = .clc) :
    ∃ cost s, step p = ⟨.ok cost, s, []⟩ ∧ s.registers.carry = 0 :=
  ⟨_, _, (leaves_of_internal (f := (·.setFlag Flag.carry false)) (by rw [h]; rfl)).step,
    Registers.carry_setFlag_carry _ false⟩

theorem step_of_sec (h : p.nextOperation = .sec) :
    ∃ cost s, step p = ⟨.ok cost, s, []⟩ ∧ s.registers.carry = 1 :=
  ⟨_, _, (leaves_of_internal (f := (·.setFlag Flag.carry true)) (by rw [h]; rfl)).step,
    Registers.carry_setFlag_carry _ true⟩

theorem isOk_of_step {cost : UInt32} {s : Processor FlatMemory} {es : List Event}
    (h : step q = ⟨.ok cost, s, es⟩) : (step q).answer.isOk := by
  rw [h]
  rfl

theorem isOk_of_adds (h : Adds v q) : (step q).answer.isOk := by
  obtain ⟨cost, s, pc, hstep, -⟩ := h
  exact isOk_of_step hstep

/-- Bytes are added from a clear carry on. -/
theorem sum_of_chain (h : Chain .clc .adc p qs) (hqs : qs ≠ []) : LeavesSum p qs := by
  have hadds : ∀ q ∈ qs, Adds q.operandByte q := fun q hq => adds_of_adc (h.rest q hq)
  obtain ⟨cost, s, hstep, hclear⟩ := step_of_clc h.first
  have hok : ∀ q ∈ p :: qs, (step q).answer.isOk :=
    List.forall_mem_cons.mpr ⟨isOk_of_step hstep, fun q hq => isOk_of_adds (hadds q hq)⟩
  have hcarries := h.carries
  have hcarry := carry_finish p qs
  rw [hstep, hclear] at hcarries hcarry
  have hsum := sum_of_adds hadds hcarries
  have hlt := littleEndian_lt (accumulated qs)
  rw [← hcarry] at hsum
  rw [accumulated, List.length_map] at hlt
  obtain ⟨hmod, hover⟩ := mod_of_carry hsum hlt (finish p qs).carry_le_one
  refine ⟨hok, hmod, (flag_carry_iff _).trans hover, ?_⟩
  rw [finish_of_ne_nil hqs, fits_of_adds hqs hadds hcarries, Nat.cast_zero, add_zero]
  rfl

/-- Bytes are subtracted from a set carry on. -/
theorem difference_of_chain (h : Chain .sec .sbc p qs) (hqs : qs ≠ []) : LeavesDifference p qs := by
  have hadds : ∀ q ∈ qs, Adds (~~~q.operandByte) q := fun q hq => adds_of_sbc (h.rest q hq)
  obtain ⟨cost, s, hstep, hset⟩ := step_of_sec h.first
  have hok : ∀ q ∈ p :: qs, (step q).answer.isOk :=
    List.forall_mem_cons.mpr ⟨isOk_of_step hstep, fun q hq => isOk_of_adds (hadds q hq)⟩
  have hcarries := h.carries
  have hcarry := carry_finish p qs
  rw [hstep, hset] at hcarries hcarry
  -- the complements make up the difference from one less than the number that is out of reach
  have hcomplements : (qs.map fun q => ~~~q.operandByte) = (operands qs).map (~~~·) :=
    (List.map_map ..).symm
  have hnot := littleEndian_not (operands qs)
  have hsum := sum_of_adds hadds hcarries
  have hlt := littleEndian_lt (accumulated qs)
  rw [← hcarry, hcomplements] at hsum
  rw [operands, List.length_map, ← operands] at hnot
  rw [accumulated, List.length_map] at hlt
  obtain ⟨hmod, hover⟩ := mod_of_carry hsum hlt (finish p qs).carry_le_one
  refine ⟨hok, ?_, (flag_carry_iff _).trans (hover.trans ?_), ?_⟩
  · exact_mod_cast sub_emod_of_mod hnot hmod
  · omega
  · have hne : operands qs ≠ [] := fun hnil => hqs (List.map_eq_nil_iff.mp hnil)
    have hsigned : twosComplement (accumulators qs) + twosComplement ((operands qs).map (~~~·)) +
        (1 : Nat) = twosComplement (accumulators qs) - twosComplement (operands qs) := by
      rw [twosComplement_not hne]
      push_cast
      ring
    rw [finish_of_ne_nil hqs, fits_of_adds hqs hadds hcarries, hcomplements, ← hsigned]

/-- Bytes are shifted to the left from the lowest one upwards. -/
theorem double_of_chain (h : Chain .asl .rol p qs) : LeavesDouble p qs := by
  have hdoubles : ∀ q ∈ qs, Doubles q.registers.carry q := fun q hq => doubles_of_rol (h.rest q hq)
  obtain ⟨cost, s, hstep, hfirst⟩ := doubles_of_asl h.first
  have hok : ∀ q ∈ p :: qs, (step q).answer.isOk :=
    List.forall_mem_cons.mpr ⟨isOk_of_step hstep, fun q hq =>
      let ⟨_, _, hstep, _⟩ := hdoubles q hq
      isOk_of_step hstep⟩
  have hrest := double_of_doubles hdoubles h.carries
  have hlt := littleEndian_lt (results (p :: qs))
  rw [← carry_finish, hstep, results, operands] at hrest
  rw [results, List.length_map] at hlt
  have hdouble : littleEndian (results (p :: qs)) + 256 ^ (p :: qs).length * (finish p qs).carry =
      2 * littleEndian (operands (p :: qs)) := by
    simp only [results, operands, List.map_cons, littleEndian, List.length_cons, Nat.pow_succ]
    linarith
  obtain ⟨hmod, hover⟩ := mod_of_carry hdouble hlt (finish p qs).carry_le_one
  exact ⟨hok, hmod, (flag_carry_iff _).trans hover⟩

/-- Bytes are shifted to the right from the highest one downwards. -/
theorem half_of_chain (h : Chain .lsr .ror p qs) : LeavesHalf p qs := by
  have hhalves : ∀ q ∈ qs, Halves q.registers.carry q := fun q hq => halves_of_ror (h.rest q hq)
  obtain ⟨cost, s, hstep, hfirst⟩ := halves_of_lsr h.first
  have hok : ∀ q ∈ p :: qs, (step q).answer.isOk :=
    List.forall_mem_cons.mpr ⟨isOk_of_step hstep, fun q hq =>
      let ⟨_, _, hstep, _⟩ := hhalves q hq
      isOk_of_step hstep⟩
  have hrest := half_of_halves hhalves h.carries
  have hscaled := congrArg (256 ^ qs.length * ·) hfirst
  have hone := (finish p qs).carry_le_one
  rw [← carry_finish, hstep, results, operands] at hrest
  have hhalf : 2 * littleEndian (results (p :: qs)).reverse + (finish p qs).carry =
      littleEndian (operands (p :: qs)).reverse := by
    simp only [results, operands, List.map_cons, littleEndian_reverse_cons, List.length_map]
    linarith
  refine ⟨hok, by omega, (flag_carry_iff _).trans ?_⟩
  omega

/-- Whatever the registers and wherever the bytes are, instructions that work on one byte after
another and hand on the carry do arithmetic on numbers of any number of bytes: they add, subtract,
double and halve. -/
theorem arithmetic_of_chain (p : Processor FlatMemory) (qs : List (Processor FlatMemory)) :
    (Chain .clc .adc p qs → qs ≠ [] → LeavesSum p qs) ∧
    (Chain .sec .sbc p qs → qs ≠ [] → LeavesDifference p qs) ∧
    (Chain .asl .rol p qs → LeavesDouble p qs) ∧
    (Chain .lsr .ror p qs → LeavesHalf p qs) :=
  ⟨sum_of_chain, difference_of_chain, double_of_chain, half_of_chain⟩

/-! Code that does all four one after another. -/

/-- The registers after an instruction that works on the registers or on the byte behind it. -/
def follow (get : UInt16 → UInt8) (r : Registers) : Option Registers :=
  let i := Instruction.decode (get r.pc)
  let next := { r with pc := r.pc + 1 + i.mode.operandBytes }
  match i.operation.behaviour, i.mode with
  | .internal f, _ => some (f next)
  | .load f, .immediate => some (f next (get (r.pc + 1)))
  | .modify change settle, .accumulator =>
    let written := change next r.a
    some (settle { written.2 with a := written.1 } written.1)
  | _, _ => none

theorem step_of_follow {r : Registers} (h : follow q.memory.get q.registers = some r) :
    (step q).state.registers = r ∧ (step q).state.memory = q.memory := by
  unfold follow at h
  dsimp only at h
  split at h
  next f hbehaviour =>
    cases h
    rw [(leaves_of_internal hbehaviour).step]
    exact ⟨rfl, rfl⟩
  next f hbehaviour hmode =>
    cases h
    have haddress : q.effectiveAddress = q.registers.pc + 1 := by
      rw [effectiveAddress, nextOperand, nextInstruction, hmode]
      rfl
    rw [(leaves_of_load hbehaviour).step, haddress]
    exact ⟨rfl, rfl⟩
  next change settle hbehaviour hmode =>
    cases h
    rw [(leaves_of_accumulator hbehaviour hmode).step]
    exact ⟨rfl, rfl⟩
  next => cases h

/-- The processor after `n` steps. -/
def steps (p : Processor FlatMemory) : Nat → Processor FlatMemory
  | 0 => p
  | n + 1 => (step (steps p n)).state

/-- A run of such instructions goes through the registers that follow one another. -/
theorem steps_of_isChain {rs : List Registers}
    (h : rs.IsChain fun r s => follow p.memory.get r = some s) (hp : rs.head? = some p.registers)
    {n : Nat} {r : Registers} (hn : rs[n]? = some r) :
    (p.steps n).registers = r ∧ (p.steps n).memory = p.memory := by
  induction n generalizing r with
  | zero =>
    rw [← List.head?_eq_getElem?, hp] at hn
    exact ⟨Option.some.inj hn, rfl⟩
  | succ n ih =>
    obtain ⟨hlt, rfl⟩ := List.getElem?_eq_some_iff.mp hn
    obtain ⟨hregisters, hmemory⟩ := ih (List.getElem?_eq_getElem (Nat.lt_of_succ_lt hlt))
    have hfollow := List.isChain_iff_getElem.mp h n hlt
    rw [← hregisters, ← hmemory] at hfollow
    rw [← hmemory]
    exact step_of_follow hfollow

/-- The sum, the difference, the double and the half of numbers of two bytes. -/
def arithmeticCode : List UInt8 :=
  [0x18, 0x69, 0x69, 0x8A, 0x69, 0x69, 0x38, 0xE9, 0xE9, 0x8A, 0xE9, 0xE9, 0x98, 0x0A, 0x8A, 0x2A,
    0x4A, 0x98, 0x6A]

/-- A processor at the start of this code, with 0x01F0 in the accumulator and X, and 0x80 in Y. -/
def calculator : Processor FlatMemory :=
  { powerOn ⟨.ofFn fun i => arithmeticCode.getD i.val 0⟩ with
    registers := { Registers.powerOn with a := 0xF0, x := 0x01, y := 0x80 } }

theorem get_calculator : calculator.memory.get = fun a => arithmeticCode.getD a.toNat 0 :=
  funext fun _ => Vector.getElem_ofFn _

/-- What the registers go through. -/
def calculated : List Registers :=
  [(0, 0xF0, 0x24), (1, 0xF0, 0x24), (3, 0x59, 0x25), (4, 0x01, 0x25), (6, 0x6B, 0x24),
    (7, 0x6B, 0x25), (9, 0x82, 0xE4), (10, 0x01, 0x64), (12, 0x17, 0x24), (13, 0x80, 0xA4),
    (14, 0x00, 0x27), (15, 0x01, 0x25), (16, 0x03, 0x24), (17, 0x01, 0x25), (18, 0x80, 0xA5),
    (19, 0xC0, 0xA4)].map fun (pc, a, status) =>
      { Registers.powerOn with pc, a, status, x := 0x01, y := 0x80 }

section

variable {n k : Nat} {r s : Registers}

theorem steps_calculator (hn : calculated[n]? = some r) : (calculator.steps n).registers = r ∧
    (calculator.steps n).memory = calculator.memory := by
  have hchain : calculated.IsChain fun r s => follow calculator.memory.get r = some s := by
    rw [get_calculator]
    decide
  exact steps_of_isChain hchain rfl hn

theorem nextInstruction_calculator (hn : calculated[n]? = some r) :
    (calculator.steps n).nextInstruction =
      Instruction.decode (arithmeticCode.getD r.pc.toNat 0) := by
  obtain ⟨hregisters, hmemory⟩ := steps_calculator hn
  rw [nextInstruction, hmemory, hregisters, get_calculator]

theorem nextOperation_calculator (hn : calculated[n]? = some r)
    (hop : (Instruction.decode (arithmeticCode.getD r.pc.toNat 0)).operation = op) :
    (calculator.steps n).nextOperation = op :=
  (congrArg Instruction.operation (nextInstruction_calculator hn)).trans hop

theorem carry_calculator (hn : calculated[n]? = some r) (hk : calculated[k + 1]? = some s)
    (h : r.carry = s.carry) : (calculator.steps n).registers.carry =
      (step (calculator.steps k)).state.registers.carry := by
  have hstep : (step (calculator.steps k)).state = calculator.steps (k + 1) := rfl
  rw [hstep, (steps_calculator hn).1, (steps_calculator hk).1, h]

theorem operandByte_calculator (hn : calculated[n]? = some r)
    (hmode : (Instruction.decode (arithmeticCode.getD r.pc.toNat 0)).mode ∈
      [Mode.accumulator, .immediate]) :
    (calculator.steps n).operandByte =
      if (Instruction.decode (arithmeticCode.getD r.pc.toNat 0)).mode = .accumulator then r.a
      else arithmeticCode.getD (r.pc + 1).toNat 0 := by
  obtain ⟨hregisters, hmemory⟩ := steps_calculator hn
  have hnext := nextInstruction_calculator hn
  rw [operandByte, hnext, hregisters, hmemory, get_calculator]
  rcases List.mem_pair.mp hmode with hmode | hmode
  · rw [if_pos hmode, if_pos hmode]
  · rw [effectiveAddress, nextOperand, hnext, hmode, hregisters]
    rfl

end

/-- In one run of the code 0x6969 is added to 0x01F0, 0xE9E9 is subtracted from 0x016B, 0x0180 is
doubled and 0x0380 is halved. -/
theorem arithmetic_of_calculator :
    littleEndian (accumulated [calculator.steps 1, calculator.steps 3]) = 0x6B59 ∧
    (littleEndian (accumulated [calculator.steps 5, calculator.steps 7]) : Int) = 0x1782 ∧
    littleEndian (results [calculator.steps 9, calculator.steps 11]) = 0x0300 ∧
    littleEndian (results [calculator.steps 12, calculator.steps 14]).reverse = 0x01C0 := by
  -- between two bytes only the next one is loaded, which hands on the carry
  have hsum : Chain .clc .adc (calculator.steps 0) [calculator.steps 1, calculator.steps 3] := by
    refine ⟨nextOperation_calculator rfl rfl, ?_, ?_⟩
    · exact List.forall_mem_cons.mpr ⟨nextOperation_calculator rfl rfl,
        List.forall_mem_singleton.mpr (nextOperation_calculator rfl rfl)⟩
    · exact ⟨carry_calculator rfl rfl rfl, carry_calculator rfl rfl (by decide), trivial⟩
  have hdifference :
      Chain .sec .sbc (calculator.steps 4) [calculator.steps 5, calculator.steps 7] := by
    refine ⟨nextOperation_calculator rfl rfl, ?_, ?_⟩
    · exact List.forall_mem_cons.mpr ⟨nextOperation_calculator rfl rfl,
        List.forall_mem_singleton.mpr (nextOperation_calculator rfl rfl)⟩
    · exact ⟨carry_calculator rfl rfl rfl, carry_calculator rfl rfl (by decide), trivial⟩
  have hdouble : Chain .asl .rol (calculator.steps 9) [calculator.steps 11] :=
    ⟨nextOperation_calculator rfl rfl,
      List.forall_mem_singleton.mpr (nextOperation_calculator rfl rfl),
      carry_calculator rfl rfl (by decide), trivial⟩
  have hhalf : Chain .lsr .ror (calculator.steps 12) [calculator.steps 14] :=
    ⟨nextOperation_calculator rfl rfl,
      List.forall_mem_singleton.mpr (nextOperation_calculator rfl rfl),
      carry_calculator rfl rfl (by decide), trivial⟩
  refine ⟨?_, ?_, ?_, ?_⟩
  · rw [((arithmetic_of_chain _ _).1 hsum (List.cons_ne_nil _ _)).bytes]
    simp only [accumulators, operands, List.map_cons, List.map_nil]
    rw [(steps_calculator (n := 1) rfl).1, (steps_calculator (n := 3) rfl).1,
      operandByte_calculator (n := 1) rfl (by decide),
      operandByte_calculator (n := 3) rfl (by decide)]
    decide
  · rw [((arithmetic_of_chain _ _).2.1 hdifference (List.cons_ne_nil _ _)).bytes]
    simp only [accumulators, operands, List.map_cons, List.map_nil]
    rw [(steps_calculator (n := 5) rfl).1, (steps_calculator (n := 7) rfl).1,
      operandByte_calculator (n := 5) rfl (by decide),
      operandByte_calculator (n := 7) rfl (by decide)]
    decide
  · rw [((arithmetic_of_chain _ _).2.2.1 hdouble).bytes]
    simp only [operands, List.map_cons, List.map_nil]
    rw [operandByte_calculator (n := 9) rfl (by decide),
      operandByte_calculator (n := 11) rfl (by decide)]
    decide
  · rw [((arithmetic_of_chain _ _).2.2.2 hhalf).bytes]
    simp only [operands, List.map_cons, List.map_nil]
    rw [operandByte_calculator (n := 12) rfl (by decide),
      operandByte_calculator (n := 14) rfl (by decide)]
    decide

end Processor

end Famicom
