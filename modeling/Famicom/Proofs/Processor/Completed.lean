import Famicom.Proofs.Processor.Trace

/-! Instructions that complete, over a memory with a log: the bytes that they have read, whether
they have written, and where they leave the program counter. -/

namespace Famicom

/-- The flag on which a branch depends, and what it has to be. -/
def Operation.condition? : Operation → Option (UInt8 × Bool)
  | .bpl => some (Flag.negative, false)
  | .bmi => some (Flag.negative, true)
  | .bvc => some (Flag.overflow, false)
  | .bvs => some (Flag.overflow, true)
  | .bcc => some (Flag.carry, false)
  | .bcs => some (Flag.carry, true)
  | .bne => some (Flag.zero, false)
  | .beq => some (Flag.zero, true)
  | _ => none

/-- Whether the operation is a branch whose condition holds. -/
def Operation.taken (op : Operation) (r : Registers) : Bool :=
  match op.condition? with
  | some (mask, value) => r.flag mask == value
  | none => false

namespace Exchange

variable {ε : Type}

/-- The byte that has been read. -/
def byte? : Exchange ε → Option UInt8
  | .read _ (.ok v) => some v
  | _ => none

def isWrite : Exchange ε → Bool
  | .write .. => true
  | .read .. => false

end Exchange

/-- Whether a behaviour writes to the memory, in which the accumulator is not. -/
def Behaviour.writesMemory (mode : Mode) : Behaviour → Bool
  | .store _ | .push _ | .call | .brk => true
  | .modify _ _ => mode ≠ .accumulator
  | .internal _ | .load _ | .branch _ | .pull _ | .jump | .ret | .returnFromInterrupt
  | .jam => false

/-- Whether a behaviour goes on elsewhere whatever the flags are. -/
def Behaviour.redirects : Behaviour → Bool
  | .jump | .call | .ret | .returnFromInterrupt | .brk => true
  | .internal _ | .load _ | .store _ | .modify _ _ | .branch _ | .push _ | .pull _ | .jam => false

/-- Whether a behaviour is a branch whose condition holds. -/
def Behaviour.taken (r : Registers) : Behaviour → Bool
  | .branch taken => taken r
  | _ => false

/-- Whatever a behaviour works out, it leaves the program counter alone. -/
def Behaviour.KeepsPc : Behaviour → Prop
  | .internal f => ∀ r, (f r).pc = r.pc
  | .load f | .pull f => ∀ r v, (f r v).pc = r.pc
  | .store f => ∀ r addr, (f r addr).2.pc = r.pc
  | .modify change settle => (∀ r v, (change r v).2.pc = r.pc) ∧ ∀ r v, (settle r v).pc = r.pc
  | .branch _ | .push _ | .jump | .call | .ret | .returnFromInterrupt | .brk | .jam => True

theorem Operation.keepsPc (op : Operation) : op.behaviour.KeepsPc := by
  cases op with
  | lda | ldx | ldy | adc | sbc | and | ora | eor | bit | cmp | cpx | cpy | lax | anc | alr | arr
  | axs | las | xaa | pla | plp => exact fun _ _ => rfl
  | sta | stx | sty | sax | ahx | tas | shx | shy => exact fun _ _ => rfl
  | inc | dec | asl | lsr | rol | ror | dcp | isc | slo | rla | sre | rra =>
    exact ⟨fun _ _ => rfl, fun _ _ => rfl⟩
  | tax | tay | txa | tya | tsx | txs | inx | iny | dex | dey | clc | sec | cli | sei | cld | sed
  | clv | nop => exact fun _ => rfl
  | pha | php | jmp | jsr | rts | rti | brk | bcc | bcs | bne | beq | bpl | bmi | bvc | bvs
  | jam => exact trivial

theorem Operation.taken_behaviour (op : Operation) (r : Registers) :
    op.behaviour.taken r = op.taken r := by
  cases op with
  | bpl | bvc | bcc | bne => exact (beq_false _).symm
  | bmi | bvs | bcs | beq => exact (beq_true _).symm
  | _ => rfl

theorem Operation.redirects_behaviour (op : Operation) :
    op.behaviour.redirects = decide (op ∈ [.jmp, .jsr, .rts, .rti, .brk]) := by
  cases op <;> rfl

theorem Operation.redirects_of_taken {op : Operation} {r : Registers} (h : op.taken r = true) :
    op.behaviour.redirects = false := by
  cases op with
  | jmp | jsr | rts | rti | brk => cases h
  | _ => rfl

namespace Processor

open Famicom.Action

variable {M ε : Type} [Memory M ε]

/-- From `p` to `q` the bytes `vs` have been read, and `w` is whether anything has been written. -/
structure Since (p q : Processor (Logged M ε)) (vs : List UInt8) (w : Bool) : Prop where
  read : q.memory.log.filterMap Exchange.byte? = p.memory.log.filterMap Exchange.byte? ++ vs
  written : q.memory.log.any Exchange.isWrite = (p.memory.log.any Exchange.isWrite || w)

section

variable {p q s : Processor (Logged M ε)} {vs vs' : List UInt8} {w w' : Bool} {es : List Event}

omit [Memory M ε] in
theorem since_of_eq (h : q.memory = p.memory) : Since p q [] false :=
  ⟨by rw [h, List.append_nil], by rw [h, Bool.or_false]⟩

omit [Memory M ε] in
theorem Since.trans (h : Since p q vs w) (h' : Since q s vs' w') :
    Since p s (vs ++ vs') (w || w') :=
  ⟨by rw [h'.read, h.read, List.append_assoc], by rw [h'.written, h.written, Bool.or_assoc]⟩

omit [Memory M ε] in
/-- Registers that have changed in between make no difference. -/
theorem Since.of_memory {p' q' : Processor (Logged M ε)} (h : Since p q vs w)
    (hp : p'.memory = p.memory) (hq : q'.memory = q.memory) : Since p' q' vs w :=
  ⟨by rw [hp, hq, h.read], by rw [hp, hq, h.written]⟩

theorem since_read {addr : UInt16} {v : UInt8}
    (h : read addr p = (⟨.ok v, q, es⟩ : Outcome (Fault ε) _ _)) :
    q.registers = p.registers ∧ Since p q [v] false := by
  unfold read at h
  rcases hr : Memory.read addr p.memory.memory with ⟨e | v', m, es'⟩
  · rw [onMemory_of_error (Logged.read_of_read hr)] at h
    cases h
  · rw [onMemory_of_ok (Logged.read_of_read hr)] at h
    obtain ⟨rfl, rfl, rfl⟩ : v' = v ∧ _ = q ∧ es' = es := by simpa using h
    exact ⟨rfl, List.filterMap_append, by simp [Exchange.isWrite]⟩

theorem since_write {addr : UInt16} {v : UInt8}
    (h : write addr v p = (⟨.ok (), q, es⟩ : Outcome (Fault ε) _ _)) :
    q.registers = p.registers ∧ Since p q [] true := by
  unfold write at h
  rcases hw : Memory.write addr v p.memory.memory with ⟨e | _, m, es'⟩
  · rw [onMemory_of_error (Logged.write_of_write hw)] at h
    cases h
  · rw [onMemory_of_ok (Logged.write_of_write hw)] at h
    obtain ⟨rfl, rfl⟩ : _ = q ∧ es' = es := by simpa using h
    exact ⟨rfl, by simp [Exchange.byte?], by simp [Exchange.isWrite]⟩

theorem since_fetch {v : UInt8} (h : fetch p = (⟨.ok v, q, es⟩ : Outcome (Fault ε) _ _)) :
    q.registers = { p.registers with pc := p.registers.pc + 1 } ∧ Since p q [v] false := by
  unfold fetch at h
  rw [view_registers] at h
  obtain ⟨v', p₁, es₁, es₂, hread, h, -⟩ := ok_of_bind h
  obtain ⟨hregisters, hsince⟩ := since_read hread
  rw [update_registers] at h
  obtain ⟨rfl, rfl, -⟩ : v' = v ∧ _ = q ∧ [] = es₂ := by simpa using h
  exact ⟨by rw [← hregisters], hsince.of_memory rfl rfl⟩

theorem since_fetchWord {a : UInt16}
    (h : fetchWord p = (⟨.ok a, q, es⟩ : Outcome (Fault ε) _ _)) :
    ∃ low high, a = word low high ∧
      q.registers = { p.registers with pc := p.registers.pc + 2 } ∧
      Since p q [low, high] false := by
  unfold fetchWord at h
  obtain ⟨low, p₁, es₁, es₂, hlow, h, -⟩ := ok_of_bind h
  obtain ⟨high, p₂, es₃, es₄, hhigh, h, -⟩ := ok_of_bind h
  obtain ⟨hregisters, hsince⟩ := since_fetch hlow
  obtain ⟨hregisters', hsince'⟩ := since_fetch hhigh
  obtain ⟨rfl, rfl, -⟩ : word low high = a ∧ p₂ = q ∧ [] = es₄ := by simpa using h
  refine ⟨low, high, rfl, ?_, hsince.trans hsince'⟩
  rw [hregisters', hregisters, ← add_one_one]

theorem since_readWord {low high a : UInt16}
    (h : readWord low high p = (⟨.ok a, q, es⟩ : Outcome (Fault ε) _ _)) :
    ∃ l h, a = word l h ∧ q.registers = p.registers ∧ Since p q [l, h] false := by
  unfold readWord at h
  obtain ⟨l, p₁, es₁, es₂, hlow, h, -⟩ := ok_of_bind h
  obtain ⟨v, p₂, es₃, es₄, hhigh, h, -⟩ := ok_of_bind h
  obtain ⟨hregisters, hsince⟩ := since_read hlow
  obtain ⟨hregisters', hsince'⟩ := since_read hhigh
  obtain ⟨rfl, rfl, -⟩ : word l v = a ∧ p₂ = q ∧ [] = es₄ := by simpa using h
  exact ⟨l, v, rfl, hregisters'.trans hregisters, hsince.trans hsince'⟩

theorem since_push {v : UInt8} (h : push v p = (⟨.ok (), q, es⟩ : Outcome (Fault ε) _ _)) :
    q.registers.pc = p.registers.pc ∧ Since p q [] true := by
  unfold push at h
  rw [view_registers] at h
  obtain ⟨_, p₁, es₁, es₂, hwrite, h, -⟩ := ok_of_bind h
  obtain ⟨hregisters, hsince⟩ := since_write hwrite
  obtain ⟨rfl, -⟩ : _ = q ∧ [] = es₂ := by simpa [update] using h
  exact ⟨by rw [← hregisters], hsince.of_memory rfl rfl⟩

theorem since_pushWord {a : UInt16}
    (h : pushWord a p = (⟨.ok (), q, es⟩ : Outcome (Fault ε) _ _)) : Since p q [] true := by
  unfold pushWord at h
  obtain ⟨_, p₁, es₁, es₂, hhigh, hlow, -⟩ := ok_of_bind h
  exact (since_push hhigh).2.trans (since_push hlow).2

theorem since_pull {v : UInt8} (h : pull p = (⟨.ok v, q, es⟩ : Outcome (Fault ε) _ _)) :
    q.registers.pc = p.registers.pc ∧ Since p q [v] false := by
  unfold pull at h
  rw [update_registers, view_registers] at h
  obtain ⟨hregisters, hsince⟩ := since_read h
  exact ⟨by rw [hregisters], hsince.of_memory rfl rfl⟩

theorem since_pullWord {a : UInt16} (h : pullWord p = (⟨.ok a, q, es⟩ : Outcome (Fault ε) _ _)) :
    ∃ vs, Since p q vs false := by
  unfold pullWord at h
  obtain ⟨low, p₁, es₁, es₂, hlow, h, -⟩ := ok_of_bind h
  obtain ⟨high, p₂, es₃, es₄, hhigh, h, -⟩ := ok_of_bind h
  obtain ⟨-, rfl, -⟩ : word low high = a ∧ p₂ = q ∧ [] = es₄ := by simpa using h
  exact ⟨_, (since_pull hlow).2.trans (since_pull hhigh).2⟩

end

/-- The operand that a mode finds behind the opcode, as far as the cost depends on it. -/
def Finds (r : Registers) (vs : List UInt8) (o : Operand) : Mode → Prop
  | .absoluteX => ∃ low high, vs = [low, high] ∧ o = .indexed (word low high) r.x
  | .absoluteY => ∃ low high, vs = [low, high] ∧ o = .indexed (word low high) r.y
  | .indirectY => ∃ zp low high, vs = [zp, low, high] ∧ o = .indexed (word low high) r.y
  | .relative => ∃ offset, vs = [offset] ∧ o = .branch (r.pc + 1) offset
  | .implied | .accumulator | .immediate | .zeroPage | .zeroPageX | .zeroPageY | .absolute
  | .indirect | .indirectX => o.crossed = false

section

variable {p q : Processor (Logged M ε)} {es : List Event}

/-- The bytes that a mode reads, the pointers included, and where it leaves the program counter. -/
theorem since_operand {mode : Mode} {o : Operand}
    (h : operand mode p = (⟨.ok o, q, es⟩ : Outcome (Fault ε) _ _)) :
    q.registers = { p.registers with pc := p.registers.pc + mode.operandBytes } ∧
      ∃ vs, Since p q vs false ∧ Finds p.registers vs o mode := by
  cases mode with
  | implied | accumulator =>
    obtain ⟨rfl, rfl, -⟩ : _ = o ∧ p = q ∧ [] = es := by simpa [operand] using h
    exact ⟨by rw [Mode.operandBytes, UInt16.add_zero], [], since_of_eq rfl, rfl⟩
  -- the operand is the byte itself, which is left to the operation to read
  | immediate =>
    simp only [operand] at h
    rw [view_registers, update_registers] at h
    obtain ⟨rfl, rfl, -⟩ : _ = o ∧ _ = q ∧ [] = es := by simpa using h
    exact ⟨rfl, [], since_of_eq rfl, rfl⟩
  | zeroPage =>
    obtain ⟨zp, p₁, es₁, es₂, hfetch, h, -⟩ := ok_of_bind h
    obtain ⟨hregisters, hsince⟩ := since_fetch hfetch
    obtain ⟨rfl, rfl, -⟩ : _ = o ∧ p₁ = q ∧ [] = es₂ := by simpa using h
    exact ⟨hregisters, _, hsince, rfl⟩
  | zeroPageX | zeroPageY =>
    obtain ⟨zp, p₁, es₁, es₂, hfetch, h, -⟩ := ok_of_bind h
    obtain ⟨hregisters, hsince⟩ := since_fetch hfetch
    rw [view_registers] at h
    obtain ⟨rfl, rfl, -⟩ : _ = o ∧ p₁ = q ∧ [] = es₂ := by simpa using h
    exact ⟨hregisters, _, hsince, rfl⟩
  | absolute =>
    obtain ⟨a, p₁, es₁, es₂, hfetch, h, -⟩ := ok_of_bind h
    obtain ⟨low, high, -, hregisters, hsince⟩ := since_fetchWord hfetch
    obtain ⟨rfl, rfl, -⟩ : _ = o ∧ p₁ = q ∧ [] = es₂ := by simpa using h
    exact ⟨hregisters, _, hsince, rfl⟩
  | absoluteX | absoluteY =>
    obtain ⟨base, p₁, es₁, es₂, hfetch, h, -⟩ := ok_of_bind h
    obtain ⟨low, high, rfl, hregisters, hsince⟩ := since_fetchWord hfetch
    rw [view_registers, hregisters] at h
    obtain ⟨rfl, rfl, -⟩ : _ = o ∧ p₁ = q ∧ [] = es₂ := by simpa using h
    exact ⟨hregisters, _, hsince, low, high, rfl, rfl⟩
  | indirect =>
    obtain ⟨ptr, p₁, es₁, es₂, hfetch, h, -⟩ := ok_of_bind h
    obtain ⟨addr, p₂, es₃, es₄, hread, h, -⟩ := ok_of_bind h
    obtain ⟨low, high, -, hregisters, hsince⟩ := since_fetchWord hfetch
    obtain ⟨l, v, -, hregisters', hsince'⟩ := since_readWord hread
    obtain ⟨rfl, rfl, -⟩ : _ = o ∧ p₂ = q ∧ [] = es₄ := by simpa using h
    exact ⟨hregisters'.trans hregisters, _, hsince.trans hsince', rfl⟩
  | indirectX =>
    obtain ⟨zp, p₁, es₁, es₂, hfetch, h, -⟩ := ok_of_bind h
    rw [view_registers] at h
    obtain ⟨addr, p₂, es₃, es₄, hread, h, -⟩ := ok_of_bind h
    obtain ⟨hregisters, hsince⟩ := since_fetch hfetch
    obtain ⟨l, v, -, hregisters', hsince'⟩ := since_readWord hread
    obtain ⟨rfl, rfl, -⟩ : _ = o ∧ p₂ = q ∧ [] = es₄ := by simpa using h
    exact ⟨hregisters'.trans hregisters, _, hsince.trans hsince', rfl⟩
  -- here the base comes from page zero, behind the byte that says where
  | indirectY =>
    obtain ⟨zp, p₁, es₁, es₂, hfetch, h, -⟩ := ok_of_bind h
    obtain ⟨base, p₂, es₃, es₄, hread, h, -⟩ := ok_of_bind h
    obtain ⟨hregisters, hsince⟩ := since_fetch hfetch
    obtain ⟨low, high, rfl, hregisters', hsince'⟩ := since_readWord hread
    rw [view_registers, hregisters', hregisters] at h
    obtain ⟨rfl, rfl, -⟩ : _ = o ∧ p₂ = q ∧ [] = es₄ := by simpa using h
    exact ⟨hregisters'.trans hregisters, _, hsince.trans hsince', zp, low, high, rfl, rfl⟩
  -- the offset is counted from behind itself
  | relative =>
    obtain ⟨offset, p₁, es₁, es₂, hfetch, h, -⟩ := ok_of_bind h
    obtain ⟨hregisters, hsince⟩ := since_fetch hfetch
    rw [view_registers, hregisters] at h
    obtain ⟨rfl, rfl, -⟩ : _ = o ∧ p₁ = q ∧ [] = es₂ := by simpa using h
    exact ⟨hregisters, _, hsince, offset, rfl, rfl⟩

end

/-- What a behaviour answers, writes and leaves in the program counter. -/
structure Performed (b : Behaviour) (mode : Mode) (o : Operand) (p q : Processor (Logged M ε))
    (extra : Nat) : Prop where
  since : ∃ vs, Since p q vs (b.writesMemory mode)
  extra_eq : extra = if b.taken p.registers then if o.crossed then 2 else 1 else 0
  pc_eq : b.redirects = false →
    q.registers.pc = if b.taken p.registers then o.addr else p.registers.pc

theorem performed_perform {b : Behaviour} {mode : Mode} {o : Operand} {start : UInt16}
    {opcode : UInt8} {p q : Processor (Logged M ε)} {extra : Nat} {es : List Event}
    (hb : b.KeepsPc)
    (h : perform start opcode mode o b p = (⟨.ok extra, q, es⟩ : Outcome (Fault ε) _ _)) :
    Performed b mode o p q extra := by
  cases b with
  | internal f =>
    obtain ⟨rfl, rfl, -⟩ : 0 = extra ∧ _ = q ∧ [] = es := by simpa [perform, update] using h
    exact ⟨⟨_, since_of_eq rfl⟩, rfl, fun _ => hb _⟩
  | load f =>
    obtain ⟨v, p₁, es₁, es₂, hread, h, -⟩ := ok_of_bind h
    obtain ⟨hregisters, hsince⟩ := since_read hread
    obtain ⟨rfl, rfl, -⟩ : 0 = extra ∧ _ = q ∧ [] = es₂ := by simpa [update] using h
    refine ⟨⟨_, hsince.of_memory rfl rfl⟩, rfl, fun _ => ?_⟩
    exact (hb _ _).trans (congrArg Registers.pc hregisters)
  | store f =>
    change (write o.addr (f p.registers o.addr).1 >>= fun _ => pure 0)
      { p with registers := (f p.registers o.addr).2 } = _ at h
    obtain ⟨_, p₁, es₁, es₂, hwrite, h, -⟩ := ok_of_bind h
    obtain ⟨hregisters, hsince⟩ := since_write hwrite
    obtain ⟨rfl, rfl, -⟩ : 0 = extra ∧ p₁ = q ∧ [] = es₂ := by simpa using h
    refine ⟨⟨_, hsince.of_memory rfl rfl⟩, rfl, fun _ => ?_⟩
    exact (congrArg Registers.pc hregisters).trans (hb _ _)
  | modify change settle =>
    simp only [perform, readOperand, writeOperand] at h
    by_cases hmode : mode = .accumulator
    -- the accumulator is changed in its place, without an access
    · simp only [if_pos hmode] at h
      rw [view_registers, view_registers, update_registers, update_registers,
        update_registers] at h
      obtain ⟨rfl, rfl, -⟩ : 0 = extra ∧ _ = q ∧ [] = es := by simpa using h
      refine ⟨⟨[], ?_⟩, rfl, fun _ => (hb.2 _ _).trans (hb.1 _ _)⟩
      rw [Behaviour.writesMemory, decide_eq_false (not_not_intro hmode)]
      exact since_of_eq rfl
    · simp only [if_neg hmode] at h
      obtain ⟨v, p₁, es₁, es₂, hread, h, -⟩ := ok_of_bind h
      obtain ⟨hregisters, hsince⟩ := since_read hread
      rw [view_registers, update_registers] at h
      obtain ⟨_, p₂, es₃, es₄, hwrite, h, -⟩ := ok_of_bind h
      obtain ⟨hregisters', hsince'⟩ := since_write hwrite
      obtain ⟨rfl, rfl, -⟩ : 0 = extra ∧ _ = q ∧ [] = es₄ := by simpa [update] using h
      refine ⟨⟨[v], ?_⟩, rfl, fun _ => ?_⟩
      · rw [Behaviour.writesMemory, decide_eq_true hmode]
        exact hsince.trans (hsince'.of_memory rfl rfl)
      · calc (settle p₂.registers (change p₁.registers v).1).pc
          _ = p₂.registers.pc := hb.2 _ _
          _ = (change p₁.registers v).2.pc := congrArg Registers.pc hregisters'
          _ = p₁.registers.pc := hb.1 _ _
          _ = p.registers.pc := congrArg Registers.pc hregisters
  | branch taken =>
    simp only [perform] at h
    rw [view_registers] at h
    cases htaken : taken p.registers with
    | false =>
      obtain ⟨rfl, rfl, -⟩ : 0 = extra ∧ p = q ∧ [] = es := by simpa [htaken] using h
      exact ⟨⟨_, since_of_eq rfl⟩, by simp [Behaviour.taken, htaken],
        fun _ => by simp [Behaviour.taken, htaken]⟩
    | true =>
      obtain ⟨rfl, rfl, -⟩ : _ = extra ∧ _ = q ∧ [] = es := by simpa [htaken, update] using h
      exact ⟨⟨_, since_of_eq rfl⟩, by simp [Behaviour.taken, htaken],
        fun _ => by simp [Behaviour.taken, htaken]⟩
  | push value =>
    simp only [perform] at h
    rw [view_registers] at h
    obtain ⟨_, p₁, es₁, es₂, hpush, h, -⟩ := ok_of_bind h
    obtain ⟨hpc, hsince⟩ := since_push hpush
    obtain ⟨rfl, rfl, -⟩ : 0 = extra ∧ p₁ = q ∧ [] = es₂ := by simpa using h
    exact ⟨⟨_, hsince⟩, rfl, fun _ => hpc⟩
  | pull f =>
    obtain ⟨v, p₁, es₁, es₂, hpull, h, -⟩ := ok_of_bind h
    obtain ⟨hpc, hsince⟩ := since_pull hpull
    obtain ⟨rfl, rfl, -⟩ : 0 = extra ∧ _ = q ∧ [] = es₂ := by simpa [update] using h
    exact ⟨⟨_, hsince.of_memory rfl rfl⟩, rfl, fun _ => (hb _ _).trans hpc⟩
  | jump =>
    obtain ⟨rfl, rfl, -⟩ : 0 = extra ∧ _ = q ∧ [] = es := by simpa [perform, update] using h
    exact ⟨⟨_, since_of_eq rfl⟩, rfl, nofun⟩
  | call =>
    simp only [perform] at h
    rw [view_registers] at h
    obtain ⟨_, p₁, es₁, es₂, hpush, h, -⟩ := ok_of_bind h
    obtain ⟨rfl, rfl, -⟩ : 0 = extra ∧ _ = q ∧ [] = es₂ := by simpa [update] using h
    exact ⟨⟨_, (since_pushWord hpush).of_memory rfl rfl⟩, rfl, nofun⟩
  | ret =>
    obtain ⟨a, p₁, es₁, es₂, hpull, h, -⟩ := ok_of_bind h
    obtain ⟨vs, hsince⟩ := since_pullWord hpull
    obtain ⟨rfl, rfl, -⟩ : 0 = extra ∧ _ = q ∧ [] = es₂ := by simpa [update] using h
    exact ⟨⟨_, hsince.of_memory rfl rfl⟩, rfl, nofun⟩
  | returnFromInterrupt =>
    obtain ⟨v, p₁, es₁, es₂, hpull, h, -⟩ := ok_of_bind h
    rw [update_registers] at h
    obtain ⟨a, p₂, es₃, es₄, hword, h, -⟩ := ok_of_bind h
    obtain ⟨vs, hsince⟩ := since_pullWord hword
    obtain ⟨rfl, rfl, -⟩ : 0 = extra ∧ _ = q ∧ [] = es₄ := by simpa [update] using h
    exact ⟨⟨_, (since_pull hpull).2.trans (hsince.of_memory rfl rfl)⟩, rfl, nofun⟩
  | brk =>
    simp only [perform] at h
    rw [view_registers] at h
    obtain ⟨_, p₁, es₁, es₂, hpc, h, -⟩ := ok_of_bind h
    rw [view_registers] at h
    obtain ⟨_, p₂, es₃, es₄, hstatus, h, -⟩ := ok_of_bind h
    rw [update_registers] at h
    obtain ⟨_, p₃, es₅, es₆, hvector, h, -⟩ := ok_of_bind h
    obtain ⟨target, p₄, es₇, es₈, hread, hjump, -⟩ := ok_of_bind hvector
    obtain ⟨l, v, -, -, hsince⟩ := since_readWord hread
    obtain ⟨rfl, -⟩ : _ = p₃ ∧ [] = es₈ := by simpa [update] using hjump
    rw [view_registers] at h
    obtain ⟨_, p₅, es₉, es₁₀, hreport, h, -⟩ := ok_of_bind h
    obtain ⟨rfl, -⟩ : _ = p₅ ∧ _ = es₉ := by simpa using hreport
    obtain ⟨rfl, rfl, -⟩ : 0 = extra ∧ _ = q ∧ [] = es₁₀ := by simpa using h
    have hpushed := (since_pushWord hpc).trans (since_push hstatus).2
    exact ⟨⟨_, hpushed.trans (hsince.of_memory rfl rfl)⟩, rfl, nofun⟩
  | jam =>
    simp only [perform] at h
    rw [update_registers] at h
    obtain ⟨_, p₁, es₁, es₂, -, h, -⟩ := ok_of_bind h
    simp at h

/-- What is known of a run by its operand: the bytes, its cost and where it leaves the program
counter. -/
structure Ran (p q : Processor (Logged M ε)) (cost : Nat) (opcode : UInt8) (vs rest : List UInt8)
    (o : Operand) : Prop where
  since : Since p q (opcode :: (vs ++ rest))
    ((Instruction.decode opcode).operation.behaviour.writesMemory (Instruction.decode opcode).mode)
  finds : Finds { p.registers with pc := p.registers.pc + 1 } vs o (Instruction.decode opcode).mode
  cost_eq : cost = (Instruction.decode opcode).cycles +
    (if (Instruction.decode opcode).pagePenalty && o.crossed then 1 else 0) +
    if (Instruction.decode opcode).operation.taken p.registers then
      if o.crossed then 2 else 1
    else 0
  pc_eq : (Instruction.decode opcode).operation.behaviour.redirects = false →
    q.registers.pc = if (Instruction.decode opcode).operation.taken p.registers then o.addr
      else p.registers.pc + 1 + (Instruction.decode opcode).mode.operandBytes

theorem ran_execute {p q : Processor (Logged M ε)} {cost : Nat} {es : List Event}
    (h : execute p = (⟨.ok cost, q, es⟩ : Outcome (Fault ε) _ _)) :
    ∃ opcode vs rest o, Ran p q cost opcode vs rest o := by
  unfold execute at h
  rw [view_registers] at h
  obtain ⟨opcode, p₁, es₁, es₂, hfetch, h, -⟩ := ok_of_bind h
  obtain ⟨o, p₂, es₃, es₄, hoperand, h, -⟩ := ok_of_bind h
  obtain ⟨extra, p₃, es₅, es₆, hperform, h, -⟩ := ok_of_bind h
  obtain ⟨hcost, rfl, -⟩ : _ = cost ∧ p₃ = q ∧ [] = es₆ := by simpa using h
  obtain ⟨hregisters, hopcode⟩ := since_fetch hfetch
  obtain ⟨hregisters', vs, hbytes, hfinds⟩ := since_operand hoperand
  obtain ⟨⟨rest, hrest⟩, hextra, hpc⟩ := performed_perform (Operation.keepsPc _) hperform
  -- neither the fetches nor the operand touch the flags
  have htaken : (Instruction.decode opcode).operation.behaviour.taken p₂.registers =
      (Instruction.decode opcode).operation.taken p.registers := by
    rw [Operation.taken_behaviour, hregisters', hregisters]
    rfl
  rw [htaken] at hextra hpc
  refine ⟨opcode, vs, rest, o, ?_, ?_, ?_, ?_⟩
  · exact hopcode.trans (hbytes.trans hrest)
  · rwa [hregisters] at hfinds
  · rw [← hcost, hextra]
    simp only [Bool.and_eq_true]
  · intro hredirects
    rw [hpc hredirects, hregisters', hregisters]

end Processor

end Famicom
