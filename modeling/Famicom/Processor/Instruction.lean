/-!
The instructions of the 6502, the unofficial ones included: what each of the 256 opcodes does,
how it finds its operand, and what it costs.
-/

namespace Famicom

inductive Operation
  | adc | and | asl | bcc | bcs | beq | bit | bmi | bne | bpl | brk | bvc | bvs | clc | cld | cli
  | clv | cmp | cpx | cpy | dec | dex | dey | eor | inc | inx | iny | jmp | jsr | lda | ldx | ldy
  | lsr | nop | ora | pha | php | pla | plp | rol | ror | rti | rts | sbc | sec | sed | sei | sta
  | stx | sty | tax | tay | tsx | txa | txs | tya
  | ahx | alr | anc | arr | axs | dcp | isc | jam | las | lax | rla | rra | sax | shx | shy | slo
  | sre | tas | xaa
deriving DecidableEq, Repr

/-- How an instruction finds its operand. -/
inductive Mode
  | implied | accumulator | immediate | zeroPage | zeroPageX | zeroPageY | absolute | absoluteX
  | absoluteY | indirect | indirectX | indirectY | relative
deriving DecidableEq, Repr

structure Instruction where
  operation : Operation
  mode : Mode
  /-- The cost in cycles, before page crossings and branches. -/
  cycles : Nat
  /-- An indexed read that crosses a page costs one cycle more. -/
  pagePenalty : Bool := false
  official : Bool := true
deriving DecidableEq, Repr

namespace Instruction

def crossing (i : Instruction) : Instruction := { i with pagePenalty := true }

def unofficial (i : Instruction) : Instruction := { i with official := false }

/-- An opcode that locks the processor up. -/
def jam : Instruction := { operation := .jam, mode := .implied, cycles := 2, official := false }

private def op (operation : Operation) (mode : Mode) (cycles : Nat) : Instruction :=
  { operation, mode, cycles }

/-- The instructions in the order of their opcodes: a row for each high digit, a column for each
low digit. -/
def table : Vector (Vector Instruction 16) 16 := #v[
  #v[ -- 00
    op .brk .implied 7,
    op .ora .indirectX 6,
    jam,
    (op .slo .indirectX 8).unofficial,
    (op .nop .zeroPage 3).unofficial,
    op .ora .zeroPage 3,
    op .asl .zeroPage 5,
    (op .slo .zeroPage 5).unofficial,
    op .php .implied 3,
    op .ora .immediate 2,
    op .asl .accumulator 2,
    (op .anc .immediate 2).unofficial,
    (op .nop .absolute 4).unofficial,
    op .ora .absolute 4,
    op .asl .absolute 6,
    (op .slo .absolute 6).unofficial],
  #v[ -- 10
    op .bpl .relative 2,
    (op .ora .indirectY 5).crossing,
    jam,
    (op .slo .indirectY 8).unofficial,
    (op .nop .zeroPageX 4).unofficial,
    op .ora .zeroPageX 4,
    op .asl .zeroPageX 6,
    (op .slo .zeroPageX 6).unofficial,
    op .clc .implied 2,
    (op .ora .absoluteY 4).crossing,
    (op .nop .implied 2).unofficial,
    (op .slo .absoluteY 7).unofficial,
    (op .nop .absoluteX 4).crossing.unofficial,
    (op .ora .absoluteX 4).crossing,
    op .asl .absoluteX 7,
    (op .slo .absoluteX 7).unofficial],
  #v[ -- 20
    op .jsr .absolute 6,
    op .and .indirectX 6,
    jam,
    (op .rla .indirectX 8).unofficial,
    op .bit .zeroPage 3,
    op .and .zeroPage 3,
    op .rol .zeroPage 5,
    (op .rla .zeroPage 5).unofficial,
    op .plp .implied 4,
    op .and .immediate 2,
    op .rol .accumulator 2,
    (op .anc .immediate 2).unofficial,
    op .bit .absolute 4,
    op .and .absolute 4,
    op .rol .absolute 6,
    (op .rla .absolute 6).unofficial],
  #v[ -- 30
    op .bmi .relative 2,
    (op .and .indirectY 5).crossing,
    jam,
    (op .rla .indirectY 8).unofficial,
    (op .nop .zeroPageX 4).unofficial,
    op .and .zeroPageX 4,
    op .rol .zeroPageX 6,
    (op .rla .zeroPageX 6).unofficial,
    op .sec .implied 2,
    (op .and .absoluteY 4).crossing,
    (op .nop .implied 2).unofficial,
    (op .rla .absoluteY 7).unofficial,
    (op .nop .absoluteX 4).crossing.unofficial,
    (op .and .absoluteX 4).crossing,
    op .rol .absoluteX 7,
    (op .rla .absoluteX 7).unofficial],
  #v[ -- 40
    op .rti .implied 6,
    op .eor .indirectX 6,
    jam,
    (op .sre .indirectX 8).unofficial,
    (op .nop .zeroPage 3).unofficial,
    op .eor .zeroPage 3,
    op .lsr .zeroPage 5,
    (op .sre .zeroPage 5).unofficial,
    op .pha .implied 3,
    op .eor .immediate 2,
    op .lsr .accumulator 2,
    (op .alr .immediate 2).unofficial,
    op .jmp .absolute 3,
    op .eor .absolute 4,
    op .lsr .absolute 6,
    (op .sre .absolute 6).unofficial],
  #v[ -- 50
    op .bvc .relative 2,
    (op .eor .indirectY 5).crossing,
    jam,
    (op .sre .indirectY 8).unofficial,
    (op .nop .zeroPageX 4).unofficial,
    op .eor .zeroPageX 4,
    op .lsr .zeroPageX 6,
    (op .sre .zeroPageX 6).unofficial,
    op .cli .implied 2,
    (op .eor .absoluteY 4).crossing,
    (op .nop .implied 2).unofficial,
    (op .sre .absoluteY 7).unofficial,
    (op .nop .absoluteX 4).crossing.unofficial,
    (op .eor .absoluteX 4).crossing,
    op .lsr .absoluteX 7,
    (op .sre .absoluteX 7).unofficial],
  #v[ -- 60
    op .rts .implied 6,
    op .adc .indirectX 6,
    jam,
    (op .rra .indirectX 8).unofficial,
    (op .nop .zeroPage 3).unofficial,
    op .adc .zeroPage 3,
    op .ror .zeroPage 5,
    (op .rra .zeroPage 5).unofficial,
    op .pla .implied 4,
    op .adc .immediate 2,
    op .ror .accumulator 2,
    (op .arr .immediate 2).unofficial,
    op .jmp .indirect 5,
    op .adc .absolute 4,
    op .ror .absolute 6,
    (op .rra .absolute 6).unofficial],
  #v[ -- 70
    op .bvs .relative 2,
    (op .adc .indirectY 5).crossing,
    jam,
    (op .rra .indirectY 8).unofficial,
    (op .nop .zeroPageX 4).unofficial,
    op .adc .zeroPageX 4,
    op .ror .zeroPageX 6,
    (op .rra .zeroPageX 6).unofficial,
    op .sei .implied 2,
    (op .adc .absoluteY 4).crossing,
    (op .nop .implied 2).unofficial,
    (op .rra .absoluteY 7).unofficial,
    (op .nop .absoluteX 4).crossing.unofficial,
    (op .adc .absoluteX 4).crossing,
    op .ror .absoluteX 7,
    (op .rra .absoluteX 7).unofficial],
  #v[ -- 80
    (op .nop .immediate 2).unofficial,
    op .sta .indirectX 6,
    (op .nop .immediate 2).unofficial,
    (op .sax .indirectX 6).unofficial,
    op .sty .zeroPage 3,
    op .sta .zeroPage 3,
    op .stx .zeroPage 3,
    (op .sax .zeroPage 3).unofficial,
    op .dey .implied 2,
    (op .nop .immediate 2).unofficial,
    op .txa .implied 2,
    (op .xaa .immediate 2).unofficial,
    op .sty .absolute 4,
    op .sta .absolute 4,
    op .stx .absolute 4,
    (op .sax .absolute 4).unofficial],
  #v[ -- 90
    op .bcc .relative 2,
    op .sta .indirectY 6,
    jam,
    (op .ahx .indirectY 6).unofficial,
    op .sty .zeroPageX 4,
    op .sta .zeroPageX 4,
    op .stx .zeroPageY 4,
    (op .sax .zeroPageY 4).unofficial,
    op .tya .implied 2,
    op .sta .absoluteY 5,
    op .txs .implied 2,
    (op .tas .absoluteY 5).unofficial,
    (op .shy .absoluteX 5).unofficial,
    op .sta .absoluteX 5,
    (op .shx .absoluteY 5).unofficial,
    (op .ahx .absoluteY 5).unofficial],
  #v[ -- A0
    op .ldy .immediate 2,
    op .lda .indirectX 6,
    op .ldx .immediate 2,
    (op .lax .indirectX 6).unofficial,
    op .ldy .zeroPage 3,
    op .lda .zeroPage 3,
    op .ldx .zeroPage 3,
    (op .lax .zeroPage 3).unofficial,
    op .tay .implied 2,
    op .lda .immediate 2,
    op .tax .implied 2,
    (op .lax .immediate 2).unofficial,
    op .ldy .absolute 4,
    op .lda .absolute 4,
    op .ldx .absolute 4,
    (op .lax .absolute 4).unofficial],
  #v[ -- B0
    op .bcs .relative 2,
    (op .lda .indirectY 5).crossing,
    jam,
    (op .lax .indirectY 5).crossing.unofficial,
    op .ldy .zeroPageX 4,
    op .lda .zeroPageX 4,
    op .ldx .zeroPageY 4,
    (op .lax .zeroPageY 4).unofficial,
    op .clv .implied 2,
    (op .lda .absoluteY 4).crossing,
    op .tsx .implied 2,
    (op .las .absoluteY 4).crossing.unofficial,
    (op .ldy .absoluteX 4).crossing,
    (op .lda .absoluteX 4).crossing,
    (op .ldx .absoluteY 4).crossing,
    (op .lax .absoluteY 4).crossing.unofficial],
  #v[ -- C0
    op .cpy .immediate 2,
    op .cmp .indirectX 6,
    (op .nop .immediate 2).unofficial,
    (op .dcp .indirectX 8).unofficial,
    op .cpy .zeroPage 3,
    op .cmp .zeroPage 3,
    op .dec .zeroPage 5,
    (op .dcp .zeroPage 5).unofficial,
    op .iny .implied 2,
    op .cmp .immediate 2,
    op .dex .implied 2,
    (op .axs .immediate 2).unofficial,
    op .cpy .absolute 4,
    op .cmp .absolute 4,
    op .dec .absolute 6,
    (op .dcp .absolute 6).unofficial],
  #v[ -- D0
    op .bne .relative 2,
    (op .cmp .indirectY 5).crossing,
    jam,
    (op .dcp .indirectY 8).unofficial,
    (op .nop .zeroPageX 4).unofficial,
    op .cmp .zeroPageX 4,
    op .dec .zeroPageX 6,
    (op .dcp .zeroPageX 6).unofficial,
    op .cld .implied 2,
    (op .cmp .absoluteY 4).crossing,
    (op .nop .implied 2).unofficial,
    (op .dcp .absoluteY 7).unofficial,
    (op .nop .absoluteX 4).crossing.unofficial,
    (op .cmp .absoluteX 4).crossing,
    op .dec .absoluteX 7,
    (op .dcp .absoluteX 7).unofficial],
  #v[ -- E0
    op .cpx .immediate 2,
    op .sbc .indirectX 6,
    (op .nop .immediate 2).unofficial,
    (op .isc .indirectX 8).unofficial,
    op .cpx .zeroPage 3,
    op .sbc .zeroPage 3,
    op .inc .zeroPage 5,
    (op .isc .zeroPage 5).unofficial,
    op .inx .implied 2,
    op .sbc .immediate 2,
    op .nop .implied 2,
    (op .sbc .immediate 2).unofficial,
    op .cpx .absolute 4,
    op .sbc .absolute 4,
    op .inc .absolute 6,
    (op .isc .absolute 6).unofficial],
  #v[ -- F0
    op .beq .relative 2,
    (op .sbc .indirectY 5).crossing,
    jam,
    (op .isc .indirectY 8).unofficial,
    (op .nop .zeroPageX 4).unofficial,
    op .sbc .zeroPageX 4,
    op .inc .zeroPageX 6,
    (op .isc .zeroPageX 6).unofficial,
    op .sed .implied 2,
    (op .sbc .absoluteY 4).crossing,
    (op .nop .implied 2).unofficial,
    (op .isc .absoluteY 7).unofficial,
    (op .nop .absoluteX 4).crossing.unofficial,
    (op .sbc .absoluteX 4).crossing,
    op .inc .absoluteX 7,
    (op .isc .absoluteX 7).unofficial]]

def decode (opcode : UInt8) : Instruction :=
  have := opcode.toNat_lt
  table[opcode.toNat / 16][opcode.toNat % 16]

end Instruction

end Famicom
