import Famicom.Proofs.Processor.Arithmetic
import Famicom.Proofs.Processor.Pushes

/-! All that an instruction asks of its memory. The accesses are planned: those that are still to
come depend on the registers at the start and on the bytes that have been read so far. An
instruction follows its plan to the end, or to the first access that is refused. -/

namespace Famicom

/-- An access and what the memory has answered to it. -/
inductive Exchange (ε : Type)
  | read (addr : UInt16) (answer : Except ε UInt8)
  | write (addr : UInt16) (v : UInt8) (answer : Except ε Unit)

/-- A memory with a log of its exchanges. -/
structure Logged (M ε : Type) where
  memory : M
  log : List (Exchange ε)

namespace Logged

variable {M ε α : Type}

def note (m : Logged M ε) (exchange : Except ε α → Exchange ε) (x : Action ε M α) :
    Outcome ε (Logged M ε) α :=
  ⟨(x m.memory).answer, ⟨(x m.memory).state, m.log ++ [exchange (x m.memory).answer]⟩,
    (x m.memory).events⟩

instance [Memory M ε] : Memory (Logged M ε) ε where
  read addr m := m.note (.read addr) (Memory.read addr)
  write addr v m := m.note (.write addr v) (Memory.write addr v)

variable [Memory M ε]

theorem maps_memory : Memory.Maps (memory : Logged M ε → M) where
  read _ _ := rfl
  write _ _ _ := rfl

theorem read_of_read {m : Logged M ε} {addr : UInt16} {answer : Except ε UInt8} {n : M}
    {es : List Event} (h : Memory.read addr m.memory = ⟨answer, n, es⟩) :
    Memory.read addr m = ⟨answer, ⟨n, m.log ++ [.read addr answer]⟩, es⟩ := by
  change note m _ _ = _
  rw [note, h]

theorem write_of_write {m : Logged M ε} {addr : UInt16} {v : UInt8} {answer : Except ε Unit}
    {n : M} {es : List Event} (h : Memory.write addr v m.memory = ⟨answer, n, es⟩) :
    Memory.write addr v m = ⟨answer, ⟨n, m.log ++ [.write addr v answer]⟩, es⟩ := by
  change note m _ _ = _
  rw [note, h]

end Logged

/-- Accesses in turn, where the bytes that are read decide on what follows. -/
inductive Plan
  | done
  | read (addr : UInt16) (next : UInt8 → Plan)
  | write (addr : UInt16) (v : UInt8) (next : Plan)

namespace Plan

/-- The exchanges are those of the plan in its order, all of them or, if an access is refused, all
up to that one. The error is that of the refusal, if there is one. -/
inductive Follows {ε : Type} : Plan → List (Exchange ε) → Option ε → Prop
  | done : Follows .done [] none
  | read {addr next v es refusal} : Follows (next v) es refusal →
      Follows (.read addr next) (.read addr (.ok v) :: es) refusal
  | write {addr v next es refusal} : Follows next es refusal →
      Follows (.write addr v next) (.write addr v (.ok ()) :: es) refusal
  | readRefused {addr next e} : Follows (.read addr next) [.read addr (.error e)] (some e)
  | writeRefused {addr v next e} :
      Follows (.write addr v next) [.write addr v (.error e)] (some e)

/-- Reads a word in two bytes, the low one first. -/
def word (low high : UInt16) (next : UInt16 → Plan) : Plan :=
  .read low fun l => .read high fun h => next (Processor.word l h)

/-- Writes bytes to the stack, downwards from the stack pointer, which stays in page one. -/
def pushes (sp : UInt8) (next : Plan) : List UInt8 → Plan
  | [] => next
  | v :: vs => .write (0x0100 ||| sp.toUInt16) v (pushes (sp - 1) next vs)

/-- Reads bytes from the stack, upwards from the one above the stack pointer. -/
def pulls (sp : UInt8) : Nat → Plan
  | 0 => .done
  | n + 1 => .read (0x0100 ||| (sp + 1).toUInt16) fun _ => pulls (sp + 1) n

end Plan

/-- Finds the operand of an instruction at `r.pc`: the bytes after the opcode, and the pointer. -/
def Mode.plan (r : Registers) (next : UInt16 → Plan) : Mode → Plan
  | .implied | .accumulator => next 0
  | .immediate => next (r.pc + 1)
  | .zeroPage => .read (r.pc + 1) fun zp => next zp.toUInt16
  | .zeroPageX => .read (r.pc + 1) fun zp => next (zp + r.x).toUInt16
  | .zeroPageY => .read (r.pc + 1) fun zp => next (zp + r.y).toUInt16
  | .absolute => .word (r.pc + 1) (r.pc + 2) next
  | .absoluteX => .word (r.pc + 1) (r.pc + 2) fun base => next (base + r.x.toUInt16)
  | .absoluteY => .word (r.pc + 1) (r.pc + 2) fun base => next (base + r.y.toUInt16)
  | .indirect => .read (r.pc + 1) fun low => .read (r.pc + 2) fun high =>
    -- the pointer wraps around in its page
    .word (Processor.word low high) (Processor.word (low + 1) high) next
  | .indirectX => .read (r.pc + 1) fun zp =>
    .word (zp + r.x).toUInt16 (zp + r.x + 1).toUInt16 next
  | .indirectY => .read (r.pc + 1) fun zp =>
    .word zp.toUInt16 (zp + 1).toUInt16 fun base => next (base + r.y.toUInt16)
  | .relative => .read (r.pc + 1) fun offset =>
    next (r.pc + 2 + offset.toInt8.toInt16.toUInt16)

/-- The bytes that an instruction takes up behind its opcode. -/
def Mode.operandBytes : Mode → UInt16
  | .implied | .accumulator => 0
  | .immediate | .zeroPage | .zeroPageX | .zeroPageY | .indirectX | .indirectY | .relative => 1
  | .absolute | .absoluteX | .absoluteY | .indirect => 2

/-- The accesses of an operation once its operand has been found. -/
inductive Traffic
  | quiet
  | load
  | store (v : Registers → UInt16 → UInt8)
  | modify (v : Registers → UInt8 → UInt8)
  | push (vs : Registers → List UInt8)
  | pull (n : Nat)
  | brk

/-- The values that are written are given by the registers at the start of the instruction. -/
def Operation.traffic : Operation → Traffic
  | .lda | .ldx | .ldy | .adc | .sbc | .and | .ora | .eor | .bit | .cmp | .cpx | .cpy | .lax | .anc
  | .alr | .arr | .axs | .las | .xaa => .load
  | .sta => .store fun r _ => r.a
  | .stx => .store fun r _ => r.x
  | .sty => .store fun r _ => r.y
  | .sax => .store fun r _ => r.a &&& r.x
  | .ahx | .tas => .store fun r addr => r.a &&& r.x &&& ((addr >>> 8).toUInt8 + 1)
  | .shx => .store fun r addr => r.x &&& ((addr >>> 8).toUInt8 + 1)
  | .shy => .store fun r addr => r.y &&& ((addr >>> 8).toUInt8 + 1)
  | .inc | .isc => .modify fun _ v => v + 1
  | .dec | .dcp => .modify fun _ v => v - 1
  | .asl | .slo => .modify fun _ v => v <<< 1
  | .lsr | .sre => .modify fun _ v => v >>> 1
  | .rol | .rla => .modify fun r v => v <<< 1 ||| r.status &&& 0x01
  | .ror | .rra => .modify fun r v => v >>> 1 ||| (r.status &&& 0x01) <<< 7
  | .pha => .push fun r => [r.a]
  | .php => .push fun r => [r.status ||| 0x30]
  | .jsr => .push fun r => [((r.pc + 2) >>> 8).toUInt8, (r.pc + 2).toUInt8]
  | .pla | .plp => .pull 1
  | .rts => .pull 2
  | .rti => .pull 3
  | .brk => .brk
  | .tax | .tay | .txa | .tya | .tsx | .txs | .inx | .iny | .dex | .dey | .jmp | .bcc | .bcs | .bne
  | .beq | .bpl | .bmi | .bvc | .bvs | .clc | .sec | .cli | .sei | .cld | .sed | .clv | .nop
  | .jam => .quiet

/-- An operand that is the accumulator is not in memory. -/
def Traffic.plan (r : Registers) (mode : Mode) (addr : UInt16) : Traffic → Plan
  | .quiet => .done
  | .load => .read addr fun _ => .done
  | .store v => .write addr (v r addr) .done
  | .modify v =>
    if mode = .accumulator then .done else .read addr fun m => .write addr (v r m) .done
  | .push vs => .pushes r.sp .done (vs r)
  | .pull n => .pulls r.sp n
  | .brk => .pushes r.sp (.word 0xFFFE 0xFFFF fun _ => .done)
    [((r.pc + 2) >>> 8).toUInt8, (r.pc + 2).toUInt8, r.status ||| 0x30]

/-- All that the instruction at `r.pc` asks of its memory. -/
def Registers.plan (r : Registers) : Plan :=
  .read r.pc fun opcode =>
    let i := Instruction.decode opcode
    i.mode.plan r fun addr => i.operation.traffic.plan r i.mode addr

namespace Processor

open Famicom.Action

variable {M ε α β : Type}

/-- The processor over its memory with an empty log. -/
def logging [Memory M ε] (p : Processor M) : Processor (Logged M ε) := p.map fun m => ⟨m, []⟩

variable [Memory M ε]

/-- The operation follows the plan and fails with the refusal that it meets, if it meets one; it may
also fail for other reasons at the end of the plan. -/
def Traces (plan : Plan) (x : Action (Fault ε) (Processor (Logged M ε)) α)
    (p : Processor (Logged M ε)) : Prop :=
  ∃ made refusal, plan.Follows made refusal ∧ (x p).state.memory.log = p.memory.log ++ made ∧
    ∀ e, refusal = some e ↔ (x p).answer = .error (.memory e)

section

variable {plan : Plan} {x : Action (Fault ε) (Processor (Logged M ε)) α}
  {p : Processor (Logged M ε)}

omit [Memory M ε] in
theorem traces_done (hmemory : (x p).state.memory = p.memory)
    (hanswer : ∀ e, (x p).answer ≠ .error (.memory e)) : Traces .done x p :=
  ⟨[], none, .done, by rw [hmemory, List.append_nil],
    fun e => ⟨nofun, fun h => (hanswer e h).elim⟩⟩

omit [Memory M ε] in
/-- An answer that is worked on makes no difference. -/
theorem traces_map (f : α → β) (h : Traces plan x p) :
    Traces plan (x >>= fun a => pure (f a)) p := by
  obtain ⟨made, refusal, hfollows, hlog, hrefusal⟩ := h
  refine ⟨made, refusal, hfollows, ?_⟩
  rcases hx : x p with ⟨e | a, q, es⟩
  · rw [hx] at hlog hrefusal
    rw [bind_of_error hx]
    exact ⟨hlog, by simpa using hrefusal⟩
  · rw [hx] at hlog hrefusal
    rw [bind_of_ok hx]
    exact ⟨hlog, by simpa using hrefusal⟩

omit [Memory M ε] in
theorem traces_view {f : Registers → β} {b : β}
    {g : β → Action (Fault ε) (Processor (Logged M ε)) α} (hb : f p.registers = b)
    (h : Traces plan (g b) p) : Traces plan (view f >>= g) p := by
  subst hb
  exact h

omit [Memory M ε] in
theorem traces_update {f : Registers → Registers}
    {g : Unit → Action (Fault ε) (Processor (Logged M ε)) α}
    (h : Traces plan (g ()) { p with registers := f p.registers }) :
    Traces plan (update f >>= g) p := h

/-- A byte is read first, and the plan goes on with it if it is answered. -/
theorem traces_read {addr : UInt16} {next : UInt8 → Plan}
    {g : UInt8 → Action (Fault ε) (Processor (Logged M ε)) α}
    (h : ∀ v q, q.registers = p.registers → Traces (next v) (g v) q) :
    Traces (.read addr next) (read addr >>= g) p := by
  unfold Traces read
  rcases hr : Memory.read addr p.memory.memory with ⟨e | v, m, es⟩
  · rw [bind_of_error (onMemory_of_error (Logged.read_of_read hr))]
    exact ⟨_, _, .readRefused, rfl, fun e' => by simp⟩
  · rw [bind_of_ok (onMemory_of_ok (Logged.read_of_read hr))]
    obtain ⟨made, refusal, hfollows, hlog, hrefusal⟩ :=
      h v { p with memory := ⟨m, p.memory.log ++ [.read addr (.ok v)]⟩ } rfl
    exact ⟨_, refusal, .read hfollows, hlog.trans (List.append_assoc _ _ _), hrefusal⟩

theorem traces_write {addr : UInt16} {v : UInt8} {next : Plan}
    {g : Unit → Action (Fault ε) (Processor (Logged M ε)) α}
    (h : ∀ q, q.registers = p.registers → Traces next (g ()) q) :
    Traces (.write addr v next) (write addr v >>= g) p := by
  unfold Traces write
  rcases hw : Memory.write addr v p.memory.memory with ⟨e | _, m, es⟩
  · rw [bind_of_error (onMemory_of_error (Logged.write_of_write hw))]
    exact ⟨_, _, .writeRefused, rfl, fun e' => by simp⟩
  · rw [bind_of_ok (onMemory_of_ok (Logged.write_of_write hw))]
    obtain ⟨made, refusal, hfollows, hlog, hrefusal⟩ :=
      h { p with memory := ⟨m, p.memory.log ++ [.write addr v (.ok ())]⟩ } rfl
    exact ⟨_, refusal, .write hfollows, hlog.trans (List.append_assoc _ _ _), hrefusal⟩

theorem traces_readWord {low high : UInt16} {next : UInt16 → Plan}
    {g : UInt16 → Action (Fault ε) (Processor (Logged M ε)) α}
    (h : ∀ w q, q.registers = p.registers → Traces (next w) (g w) q) :
    Traces (.word low high next) (readWord low high >>= g) p := by
  unfold readWord
  rw [bind_assoc]
  refine traces_read fun l q hq => ?_
  rw [bind_assoc]
  exact traces_read fun v q' hq' => h (word l v) q' (hq'.trans hq)

theorem traces_fetch {r : Registers} {addr : UInt16} {next : UInt8 → Plan}
    {g : UInt8 → Action (Fault ε) (Processor (Logged M ε)) α}
    (hp : p.registers = { r with pc := addr })
    (h : ∀ v q, q.registers = { r with pc := addr + 1 } → Traces (next v) (g v) q) :
    Traces (.read addr next) (fetch >>= g) p := by
  simp only [fetch, bind_assoc, pure_bind]
  refine traces_view (by rw [hp]) (traces_read fun v q hq => traces_update (h v _ ?_))
  rw [hq, hp]

/-- The second byte may be written in any way that is the address after the first. -/
theorem traces_fetchWord {r : Registers} {low high : UInt16} {next : UInt16 → Plan}
    {g : UInt16 → Action (Fault ε) (Processor (Logged M ε)) α}
    (hp : p.registers = { r with pc := low }) (hhigh : low + 1 = high)
    (h : ∀ w q, q.registers = { r with pc := high + 1 } → Traces (next w) (g w) q) :
    Traces (.word low high next) (fetchWord >>= g) p := by
  simp only [fetchWord, bind_assoc, pure_bind]
  refine traces_fetch hp fun l q hq => ?_
  rw [hhigh] at hq
  exact traces_fetch hq fun v q' hq' => h (word l v) q' hq'

/-- Bytes are pushed in turn, and then the plan goes on from the stack pointer below them. -/
theorem traces_push {sp v : UInt8} {vs : List UInt8} {next : Plan}
    {g : Unit → Action (Fault ε) (Processor (Logged M ε)) α} (hsp : p.registers.sp = sp)
    (h : ∀ q, q.registers = { p.registers with sp := sp - 1 } →
      Traces (.pushes (sp - 1) next vs) (g ()) q) :
    Traces (.pushes sp next (v :: vs)) (push v >>= g) p := by
  simp only [push, bind_assoc]
  refine traces_view hsp (traces_write fun q hq => traces_update (h _ ?_))
  rw [hq, hsp]

theorem traces_pushWord {sp : UInt8} {w : UInt16} {vs : List UInt8} {next : Plan}
    {g : Unit → Action (Fault ε) (Processor (Logged M ε)) α} (hsp : p.registers.sp = sp)
    (h : ∀ q, q.registers = { p.registers with sp := sp - 1 - 1 } →
      Traces (.pushes (sp - 1 - 1) next vs) (g ()) q) :
    Traces (.pushes sp next ((w >>> 8).toUInt8 :: w.toUInt8 :: vs)) (pushWord w >>= g) p := by
  simp only [pushWord, bind_assoc]
  refine traces_push hsp fun q hq => traces_push (by rw [hq]) fun q' hq' => h q' ?_
  rw [hq', hq]

theorem traces_pull {sp : UInt8} {n : Nat}
    {g : UInt8 → Action (Fault ε) (Processor (Logged M ε)) α} (hsp : p.registers.sp = sp)
    (h : ∀ v q, q.registers.sp = sp + 1 → Traces (.pulls (sp + 1) n) (g v) q) :
    Traces (.pulls sp (n + 1)) (pull >>= g) p := by
  simp only [pull, bind_assoc]
  refine traces_update (traces_view (congrArg (· + 1) hsp) ?_)
  rw [hsp]
  exact traces_read fun v q hq => h v q (by rw [hq])

theorem traces_pullWord {sp : UInt8} {n : Nat}
    {g : UInt16 → Action (Fault ε) (Processor (Logged M ε)) α} (hsp : p.registers.sp = sp)
    (h : ∀ w q, q.registers.sp = sp + 1 + 1 → Traces (.pulls (sp + 1 + 1) n) (g w) q) :
    Traces (.pulls sp (n + 2)) (pullWord >>= g) p := by
  simp only [pullWord, bind_assoc, pure_bind]
  exact traces_pull hsp fun l q hq => traces_pull hq fun v q' hq' => h (word l v) q' hq'

end

theorem add_one_one (pc : UInt16) : pc + 1 + 1 = pc + 2 := UInt16.add_assoc pc 1 1

theorem add_two_one (pc : UInt16) : pc + 2 + 1 = pc + 1 + 2 := by
  rw [UInt16.add_assoc, UInt16.add_comm 2 1, UInt16.add_assoc]

theorem toNat_word (low high : UInt8) : (word low high).toNat = 256 * high.toNat + low.toNat := by
  have hlow := low.toNat_lt
  have hhigh := high.toNat_lt
  have hshift : high.toNat <<< 8 % 65536 = high.toNat <<< 8 := by
    rw [Nat.shiftLeft_eq]
    omega
  calc (word low high).toNat
    _ = high.toNat <<< 8 % 65536 ||| low.toNat := by simp [word]
    _ = high.toNat <<< 8 + low.toNat := by rw [hshift, Nat.shiftLeft_add_eq_or_of_lt hlow]
    _ = 256 * high.toNat + low.toNat := by
      rw [Nat.shiftLeft_eq]
      omega

/-- The second byte of a pointer is in the page of the first. -/
theorem nextInPage_word (low high : UInt8) : nextInPage (word low high) = word (low + 1) high := by
  have hlow := low.toNat_lt
  have hhigh := high.toNat_lt
  have hpage : word low high &&& (0xFF00 : UInt16) = high.toUInt16 <<< 8 := by
    apply UInt16.toNat_inj.mp
    calc (word low high &&& 0xFF00 : UInt16).toNat
      _ = (word low high).toNat / 2 ^ 8 % 2 ^ 8 * 2 ^ 8 := Bits.and_digit _ 8 8
      _ = high.toNat * 2 ^ 8 := by
        rw [toNat_word]
        omega
      _ = (high.toUInt16 <<< 8 : UInt16).toNat := by
        simp [Nat.shiftLeft_eq]
        omega
  have hplace : (word low high + 1) &&& (0x00FF : UInt16) = (low + 1).toUInt16 := by
    apply UInt16.toNat_inj.mp
    calc (word low high + 1 &&& 0x00FF : UInt16).toNat
      _ = (word low high + 1).toNat % 2 ^ 8 := Nat.and_two_pow_sub_one_eq_mod _ 8
      _ = (low.toNat + 1) % 2 ^ 8 := by
        rw [UInt16.toNat_add, toNat_word, show (1 : UInt16).toNat = 1 from rfl]
        omega
      _ = (low + 1).toUInt16.toNat := by simp
  unfold nextInPage
  rw [hpage, hplace]
  rfl

/-- The operand is found where the plan has it. -/
theorem traces_operand {r : Registers} {p : Processor (Logged M ε)} {next : UInt16 → Plan}
    {g : Operand → Action (Fault ε) (Processor (Logged M ε)) α} (mode : Mode)
    (hp : p.registers = { r with pc := r.pc + 1 })
    (h : ∀ operand q, q.registers = { r with pc := r.pc + 1 + mode.operandBytes } →
      Traces (next operand.addr) (g operand) q) :
    Traces (mode.plan r next) (operand mode >>= g) p := by
  -- the program counter is behind the opcode, and each byte of the operand moves it by one
  have hnone : r.pc + 1 + 0 = r.pc + 1 := UInt16.add_zero _
  have hone := add_one_one r.pc
  have htwo := add_two_one r.pc
  cases mode <;> simp only [Mode.plan, operand, bind_assoc, pure_bind, Mode.operandBytes] at h ⊢
  case implied | accumulator => exact h (.plain 0) p (by rw [hp, hnone])
  case immediate =>
    refine traces_view (by rw [hp]) (traces_update (h (.plain (r.pc + 1)) _ ?_))
    rw [hp]
  case zeroPage => exact traces_fetch hp fun zp q hq => h (.plain zp.toUInt16) q hq
  case zeroPageX =>
    exact traces_fetch hp fun zp q hq =>
      traces_view (by rw [hq]) (h (.plain (zp + r.x).toUInt16) q hq)
  case zeroPageY =>
    exact traces_fetch hp fun zp q hq =>
      traces_view (by rw [hq]) (h (.plain (zp + r.y).toUInt16) q hq)
  case absolute =>
    exact traces_fetchWord hp hone fun w q hq => h (.plain w) q (by rw [hq, htwo])
  case absoluteX =>
    exact traces_fetchWord hp hone fun base q hq =>
      traces_view (by rw [hq]) (h (.indexed base r.x) q (by rw [hq, htwo]))
  case absoluteY =>
    exact traces_fetchWord hp hone fun base q hq =>
      traces_view (by rw [hq]) (h (.indexed base r.y) q (by rw [hq, htwo]))
  case indirect =>
    simp only [fetchWord, bind_assoc, pure_bind]
    refine traces_fetch hp fun low q hq => ?_
    rw [hone] at hq
    refine traces_fetch hq fun high q hq => ?_
    rw [nextInPage_word]
    exact traces_readWord fun w q' hq' => h (.plain w) q' (by rw [hq', hq, htwo])
  case indirectX =>
    exact traces_fetch hp fun zp q hq => traces_view (by rw [hq])
      (traces_readWord fun w q' hq' => h (.plain w) q' (by rw [hq', hq]))
  case indirectY =>
    exact traces_fetch hp fun zp q hq => traces_readWord fun base q' hq' =>
      traces_view (by rw [hq', hq]) (h (.indexed base r.y) q' (by rw [hq', hq]))
  case relative =>
    exact traces_fetch hp fun offset q hq =>
      traces_view (by rw [hq, hone]) (h (.branch (r.pc + 2) offset) q hq)

/-- The accesses that a behaviour makes, and the values that it writes. Apart from entries, these
do not depend on the program counter. -/
inductive Suits : Traffic → Behaviour → Prop
  | internal (f : Registers → Registers) : Suits .quiet (.internal f)
  | load (f : Registers → UInt8 → Registers) : Suits .load (.load f)
  | store {v : Registers → UInt16 → UInt8} {f : Registers → UInt16 → UInt8 × Registers} :
      (∀ r pc addr, (f { r with pc := pc } addr).1 = v r addr) → Suits (.store v) (.store f)
  | modify {v : Registers → UInt8 → UInt8} {change : Registers → UInt8 → UInt8 × Registers}
      {settle : Registers → UInt8 → Registers} :
      (∀ r pc m, (change { r with pc := pc } m).1 = v r m) →
        Suits (.modify v) (.modify change settle)
  | branch (taken : Registers → Bool) : Suits .quiet (.branch taken)
  | push {v value : Registers → UInt8} : (∀ r pc, value { r with pc := pc } = v r) →
      Suits (.push fun r => [v r]) (.push value)
  | pull (f : Registers → UInt8 → Registers) : Suits (.pull 1) (.pull f)
  | jump : Suits .quiet .jump
  | call : Suits (.push fun r => [((r.pc + 2) >>> 8).toUInt8, (r.pc + 2).toUInt8]) .call
  | ret : Suits (.pull 2) .ret
  | returnFromInterrupt : Suits (.pull 3) .returnFromInterrupt
  | brk : Suits .brk .brk
  | jam : Suits .quiet .jam

theorem suits (operation : Operation) : Suits operation.traffic operation.behaviour := by
  cases operation with
  | lda | ldx | ldy | adc | sbc | and | ora | eor | bit | cmp | cpx | cpy | lax | anc | alr | arr
  | axs | las | xaa => exact .load _
  | sta | stx | sty | sax | ahx | tas | shx | shy => exact .store fun _ _ _ => rfl
  | inc | isc => exact .modify fun _ _ _ => rfl
  | dec | dcp => exact .modify fun _ _ v => (UInt8.sub_eq_add_neg v 1).symm
  | asl | slo => exact .modify fun _ _ v => UInt8.or_zero
  | lsr | sre => exact .modify fun _ _ v => UInt8.or_zero
  | rol | rla => exact .modify fun r _ v => congrArg (v <<< 1 ||| ·) r.toUInt8_carry
  | ror | rra =>
    exact .modify fun r _ v => congrArg (fun c : UInt8 => v >>> 1 ||| c <<< 7) r.toUInt8_carry
  | pha => exact .push fun _ _ => rfl
  | php => exact .push fun r _ => UInt8.or_assoc r.status _ _
  | jsr => exact .call
  | pla | plp => exact .pull _
  | rts => exact .ret
  | rti => exact .returnFromInterrupt
  | brk => exact .brk
  | bcc | bcs | bne | beq | bpl | bmi | bvc | bvs => exact .branch _
  | jmp => exact .jump
  | jam => exact .jam
  | tax | tay | txa | tya | tsx | txs | inx | iny | dex | dey | clc | sec | cli | sei | cld | sed
  | clv | nop => exact .internal _

/-- An operation makes the accesses of its behaviour. -/
theorem traces_perform {traffic : Traffic} {behaviour : Behaviour} (h : Suits traffic behaviour)
    {r : Registers} {q : Processor (Logged M ε)} {pc start : UInt16} {opcode : UInt8} {mode : Mode}
    {operand : Operand} (hq : q.registers = { r with pc := pc })
    (hcall : behaviour = .call → pc - 1 = r.pc + 2) (hbrk : behaviour = .brk → pc + 1 = r.pc + 2) :
    Traces (traffic.plan r mode operand.addr) (perform start opcode mode operand behaviour) q := by
  have hsp : q.registers.sp = r.sp := by rw [hq]
  cases h with
  | internal f => exact traces_done rfl nofun
  | load f => exact traces_read fun v q' _ => traces_done rfl nofun
  | @store v f hv =>
    have hv' : (f q.registers operand.addr).1 = v r operand.addr := by rw [hq, hv]
    refine traces_view rfl (traces_update ?_)
    rw [hv']
    exact traces_write fun _ _ => traces_done rfl nofun
  | @modify v change settle hv =>
    have hv' : ∀ m, (change q.registers m).1 = v r m := by
      intro m
      rw [hq, hv]
    unfold perform Traffic.plan readOperand writeOperand
    -- the accumulator is read and written without an access
    by_cases hmode : mode = .accumulator
    · simp only [if_pos hmode]
      exact traces_done rfl nofun
    · simp only [if_neg hmode]
      refine traces_read fun m q' hq' => traces_view (congrArg (change · m) hq') (traces_update ?_)
      rw [hv' m]
      exact traces_write fun _ _ => traces_done rfl nofun
  | branch taken =>
    refine traces_view rfl ?_
    split
    · exact traces_done rfl nofun
    · exact traces_done rfl nofun
  | @push v value hv => 
    refine traces_view (by rw [hq, hv]) ?_
    exact traces_push hsp fun _ _ => traces_done rfl nofun
  | pull f => exact traces_pull hsp fun _ _ _ => traces_done rfl nofun
  | jump => exact traces_done rfl nofun
  | call =>
    have hpc : q.registers.pc - 1 = r.pc + 2 := by
      rw [hq, hcall rfl]
    refine traces_view rfl ?_
    rw [hpc]
    exact traces_pushWord hsp fun _ _ => traces_done rfl nofun
  | ret => exact traces_pullWord hsp fun _ _ _ => traces_done rfl nofun
  | returnFromInterrupt =>
    exact traces_pull hsp fun _ _ hsp' =>
      traces_update (traces_pullWord hsp' fun _ _ _ => traces_done rfl nofun)
  | brk =>
    have hpc : q.registers.pc + 1 = r.pc + 2 := by
      rw [hq, hbrk rfl]
    refine traces_view rfl ?_
    rw [hpc]
    refine traces_pushWord hsp fun q' hq' => ?_
    have hstatus : q'.registers.statusWithBreak = r.status ||| 0x30 := by
      rw [hq', hq]
      exact UInt8.or_assoc r.status _ _
    refine traces_view hstatus ?_
    refine traces_push (by rw [hq']) fun _ _ => traces_update ?_
    simp only [followVector, bind_assoc]
    exact traces_readWord fun _ _ _ => traces_done rfl nofun
  | jam => exact traces_done rfl nofun

theorem absolute_of_call {opcode : UInt8}
    (h : (Instruction.decode opcode).operation.behaviour = .call) :
    (Instruction.decode opcode).mode = .absolute := by
  apply Instruction.absolute_of_operation
  generalize (Instruction.decode opcode).operation = operation at h
  cases operation with
  | jsr => rfl
  | _ => cases h

theorem implied_of_brk {opcode : UInt8}
    (h : (Instruction.decode opcode).operation.behaviour = .brk) :
    (Instruction.decode opcode).mode = .implied := by
  apply Instruction.implied_of_operation
  generalize (Instruction.decode opcode).operation = operation at h
  cases operation with
  | brk => decide
  | _ => cases h

theorem traces_execute (p : Processor (Logged M ε)) : Traces p.registers.plan execute p := by
  refine traces_view rfl (traces_fetch (r := p.registers) rfl fun opcode q hq => ?_)
  refine traces_operand _ hq fun operand q' hq' => traces_map _ (traces_perform (suits _) hq' ?_ ?_)
  · intro hcall
    rw [absolute_of_call hcall]
    change p.registers.pc + 1 + 2 - 1 = p.registers.pc + 2
    rw [← add_two_one, UInt16.add_sub_cancel]
  · intro hbrk
    rw [implied_of_brk hbrk]
    change p.registers.pc + 1 + 0 + 1 = p.registers.pc + 2
    rw [UInt16.add_zero, add_one_one]

/-- What passes between the processor and its memory in the next instruction. -/
def exchanges (p : Processor M) : List (Exchange ε) := (execute p.logging).state.memory.log

/-- The instruction that is logged is the processor's own. -/
theorem execute_logging (p : Processor M) : execute p =
    ⟨(execute p.logging).answer, (execute p.logging).state.map Logged.memory,
      (execute p.logging).events⟩ :=
  alike_execute.run_map Logged.maps_memory p.logging

/-- Whatever its opcode, its registers and its memory, an instruction makes the accesses of its plan
in order and no others. It stops at the first one that is refused and fails with that refusal. -/
theorem exchanges_follow_plan (p : Processor M) :
    execute p = ⟨(execute p.logging).answer, (execute p.logging).state.map Logged.memory,
      (execute p.logging).events⟩ ∧
    ∃ refusal, p.registers.plan.Follows p.exchanges refusal ∧
      ∀ e, refusal = some e ↔ (execute p).answer = .error (.memory e) := by
  obtain ⟨made, refusal, hfollows, hlog, hrefusal⟩ := traces_execute p.logging
  have hexchanges : p.exchanges = made := hlog
  refine ⟨execute_logging p, refusal, by rw [hexchanges]; exact hfollows, ?_⟩
  rw [execute_logging p]
  exact hrefusal

end Processor

end Famicom
