/-!
# Opcodes

An opcode is an instruction family (`Mnemonic`) with an addressing mode. The byte splits into
three fields: the two lowest bits choose a group, the next three a column and the highest three
a row. The column decides the mode, up to a few exceptions; group and column together choose a
line of eight mnemonics, one for each row.

Size and cost follow from the two parts. The cost of an instruction that accesses memory
depends on whether it reads, writes, or reads and writes back (`Timing`). The opcodes that stop
the CPU have size 0: the program counter never moves past them.
-/

set_option autoImplicit false

namespace Nes

/-- The instruction families, documented and undocumented. -/
inductive Mnemonic
  | adc | ahx | alr | anc | and | arr | asl | axs | bcc | bcs | beq | bit | bmi | bne | bpl | brk
  | bvc | bvs | clc | cld | cli | clv | cmp | cpx | cpy | dcp | dec | dex | dey | eor | inc | inx
  | iny | isc | jmp | jsr | kil | las | lax | lda | ldx | ldy | lsr | nop | ora | pha | php | pla
  | plp | rla | rol | ror | rra | rti | rts | sax | sbc | sec | sed | sei | shx | shy | slo | sre
  | sta | stx | sty | tas | tax | tay | tsx | txa | txs | tya | xaa
  deriving DecidableEq, Repr

/-- How an instruction finds its operand. -/
inductive Mode
  | absolute
  | absoluteX
  | absoluteY
  | accumulator
  | immediate
  | implied
  | indexedIndirect
  | indirect
  | indirectIndexed
  | relative
  | zeroPage
  | zeroPageX
  | zeroPageY
  deriving DecidableEq, Repr

/-- What an instruction does to the memory at its address, as far as its cost is concerned. -/
inductive Timing
  | read
  | write
  | modify
  deriving DecidableEq, Repr

/-- An instruction family with an addressing mode. -/
structure Opcode where
  mnemonic : Mnemonic
  mode : Mode
  deriving DecidableEq, Repr

/-! ## Decoding -/

namespace Opcode

/-- The group of an opcode byte: its bits 0 and 1. -/
def group (b : UInt8) : Fin 4 := Fin.ofNat 4 b.toNat

/-- The column of an opcode byte: its bits 2 to 4. -/
def column (b : UInt8) : Fin 8 := Fin.ofNat 8 (b >>> 2).toNat

/-- The row of an opcode byte: its bits 5 to 7. -/
def row (b : UInt8) : Fin 8 := Fin.ofNat 8 (b >>> 5).toNat

end Opcode

namespace Mode

/-- The mode of an opcode by its fields. Rows 4 and 5 of the groups 2 and 3 store or load X, and
so use Y where the others use X as the index. -/
def ofFields (group : Fin 4) (column row : Fin 8) : Mode :=
  let usesY := decide (2 ≤ group.val) && (row == 4 || row == 5)
  match column with
  | 0 =>
      if group = 1 ∨ group = 3 then indexedIndirect
      else if 4 ≤ row then immediate
      else if group = 0 ∧ row = 1 then absolute
      else implied
  | 1 => zeroPage
  | 2 =>
      if group = 1 ∨ group = 3 then immediate
      else if group = 2 ∧ row < 4 then accumulator
      else implied
  | 3 => if group = 0 ∧ row = 3 then indirect else absolute
  | 4 => if group = 0 then relative else if group = 2 then implied else indirectIndexed
  | 5 => if usesY then zeroPageY else zeroPageX
  | 6 => if group = 1 ∨ group = 3 then absoluteY else implied
  | 7 => if usesY then absoluteY else absoluteX

/-- The name of a mode in reports. -/
def name : Mode → String
  | absolute => "Absolute"
  | absoluteX => "AbsoluteX"
  | absoluteY => "AbsoluteY"
  | accumulator => "Accumulator"
  | immediate => "Immediate"
  | implied => "Implied"
  | indexedIndirect => "IndexedIndirect"
  | indirect => "Indirect"
  | indirectIndexed => "IndirectIndexed"
  | relative => "Relative"
  | zeroPage => "ZeroPage"
  | zeroPageX => "ZeroPageX"
  | zeroPageY => "ZeroPageY"

/-- Number of operand bytes that follow the opcode. -/
def operandSize : Mode → Nat
  | implied | accumulator => 0
  | absolute | absoluteX | absoluteY | indirect => 2
  | _ => 1

end Mode

namespace Mnemonic

/-- The line of eight mnemonics for a group and a column. -/
def line (group : Fin 4) (column : Fin 8) : Vector Mnemonic 8 :=
  match group, column with
  | 0, 0 => #v[brk, jsr, rti, rts, nop, ldy, cpy, cpx]
  | 0, 1 => #v[nop, bit, nop, nop, sty, ldy, cpy, cpx]
  | 0, 2 => #v[php, plp, pha, pla, dey, tay, iny, inx]
  | 0, 3 => #v[nop, bit, jmp, jmp, sty, ldy, cpy, cpx]
  | 0, 4 => #v[bpl, bmi, bvc, bvs, bcc, bcs, bne, beq]
  | 0, 5 => #v[nop, nop, nop, nop, sty, ldy, nop, nop]
  | 0, 6 => #v[clc, sec, cli, sei, tya, clv, cld, sed]
  | 0, 7 => #v[nop, nop, nop, nop, shy, ldy, nop, nop]
  | 1, 2 => #v[ora, and, eor, adc, nop, lda, cmp, sbc]
  | 1, _ => #v[ora, and, eor, adc, sta, lda, cmp, sbc]
  | 2, 0 => #v[kil, kil, kil, kil, nop, ldx, nop, nop]
  | 2, 2 => #v[asl, rol, lsr, ror, txa, tax, dex, nop]
  | 2, 4 => #v[kil, kil, kil, kil, kil, kil, kil, kil]
  | 2, 6 => #v[nop, nop, nop, nop, txs, tsx, nop, nop]
  | 2, 7 => #v[asl, rol, lsr, ror, shx, ldx, dec, inc]
  | 2, _ => #v[asl, rol, lsr, ror, stx, ldx, dec, inc]
  | 3, 2 => #v[anc, anc, alr, arr, xaa, lax, axs, sbc]
  | 3, 4 => #v[slo, rla, sre, rra, ahx, lax, dcp, isc]
  | 3, 6 => #v[slo, rla, sre, rra, tas, las, dcp, isc]
  | 3, 7 => #v[slo, rla, sre, rra, ahx, lax, dcp, isc]
  | 3, _ => #v[slo, rla, sre, rra, sax, lax, dcp, isc]

/-- The three letters of a family. -/
def name : Mnemonic → String
  | adc => "ADC" | ahx => "AHX" | alr => "ALR" | anc => "ANC" | and => "AND" | arr => "ARR"
  | asl => "ASL" | axs => "AXS" | bcc => "BCC" | bcs => "BCS" | beq => "BEQ" | bit => "BIT"
  | bmi => "BMI" | bne => "BNE" | bpl => "BPL" | brk => "BRK" | bvc => "BVC" | bvs => "BVS"
  | clc => "CLC" | cld => "CLD" | cli => "CLI" | clv => "CLV" | cmp => "CMP" | cpx => "CPX"
  | cpy => "CPY" | dcp => "DCP" | dec => "DEC" | dex => "DEX" | dey => "DEY" | eor => "EOR"
  | inc => "INC" | inx => "INX" | iny => "INY" | isc => "ISC" | jmp => "JMP" | jsr => "JSR"
  | kil => "KIL" | las => "LAS" | lax => "LAX" | lda => "LDA" | ldx => "LDX" | ldy => "LDY"
  | lsr => "LSR" | nop => "NOP" | ora => "ORA" | pha => "PHA" | php => "PHP" | pla => "PLA"
  | plp => "PLP" | rla => "RLA" | rol => "ROL" | ror => "ROR" | rra => "RRA" | rti => "RTI"
  | rts => "RTS" | sax => "SAX" | sbc => "SBC" | sec => "SEC" | sed => "SED" | sei => "SEI"
  | shx => "SHX" | shy => "SHY" | slo => "SLO" | sre => "SRE" | sta => "STA" | stx => "STX"
  | sty => "STY" | tas => "TAS" | tax => "TAX" | tay => "TAY" | tsx => "TSX" | txa => "TXA"
  | txs => "TXS" | tya => "TYA" | xaa => "XAA"

/-- What a family costs its accesses for; families without memory access count as reads. -/
def timing : Mnemonic → Timing
  | sta | stx | sty | sax | ahx | tas | shx | shy => .write
  | asl | lsr | rol | ror | inc | dec | slo | rla | sre | rra | dcp | isc => .modify
  | _ => .read

end Mnemonic

namespace Opcode

/-- The opcode of a byte. -/
def ofByte (b : UInt8) : Opcode where
  mnemonic := (Mnemonic.line (group b) (column b))[row b]
  mode := Mode.ofFields (group b) (column b) (row b)

/-! ## Size and cost -/

/-- Bytes the program counter moves over. -/
def size (o : Opcode) : Nat :=
  if o.mnemonic = .kil then 0 else 1 + o.mode.operandSize

/-- Cycles of an access in a mode, without a page crossing. -/
def accessCycles (mode : Mode) (timing : Timing) : Nat :=
  match mode, timing with
  | .zeroPage, .modify => 5
  | .zeroPage, _ => 3
  | .zeroPageX, .modify | .zeroPageY, .modify | .absolute, .modify => 6
  | .zeroPageX, _ | .zeroPageY, _ | .absolute, _ => 4
  | .absoluteX, .read | .absoluteY, .read => 4
  | .absoluteX, .write | .absoluteY, .write => 5
  | .absoluteX, .modify | .absoluteY, .modify => 7
  | .indirectIndexed, .read => 5
  | .indexedIndirect, .modify | .indirectIndexed, .modify => 8
  | .indexedIndirect, _ | .indirectIndexed, _ => 6
  | .indirect, _ => 5
  | _, _ => 2

/-- Cycles of an instruction, without page crossings and taken branches. -/
def cycles (o : Opcode) : Nat :=
  match o.mnemonic, o.mode with
  | .brk, _ => 7
  | .jsr, _ | .rts, _ | .rti, _ => 6
  | .pha, _ | .php, _ => 3
  | .pla, _ | .plp, _ => 4
  | .jmp, .absolute => 3
  | m, mode => accessCycles mode m.timing

/-- Cycles added when the address lies on another page than the unindexed one. Branches are
listed with one, but their own rule decides. -/
def pageCycles (o : Opcode) : Nat :=
  match o.mode, o.mnemonic.timing with
  | .absoluteX, .read | .absoluteY, .read | .indirectIndexed, .read | .relative, _ => 1
  | _, _ => 0

theorem size_eq_zero_iff (o : Opcode) : o.size = 0 ↔ o.mnemonic = .kil := by
  unfold size
  split <;> simp_all

theorem two_le_cycles (o : Opcode) : 2 ≤ o.cycles := by
  obtain ⟨m, mode⟩ := o
  cases m <;> cases mode <;> decide

end Opcode

end Nes
