import Nes.Cpu.Basic
import Nes.Cpu.Opcode
import Nes.Memory.Bus

/-!
# Operands

`Operand.find` reads the operand bytes that follow the opcode and computes the address an
instruction works on. The program counter still points at the opcode.

Indexing within page zero wraps within it. Pointers are read without leaving their page, so the
high byte of a pointer in the last cell of a page comes from its first cell. `crossed` says
whether adding an index has led to another page.
-/

set_option autoImplicit false

namespace Nes

/-- The address an instruction works on. Without operand it is 0. -/
structure Operand where
  address : UInt16
  crossed : Bool
  deriving DecidableEq, Repr

namespace Operand

variable {β : Type} [Bus β]

/-- A byte as a signed distance. -/
def distance (offset : UInt8) : UInt16 :=
  if offset < 0x80 then offset.toUInt16 else offset.toUInt16 - 0x100

/-- An operand without page crossing. -/
def direct (address : UInt16) : Operand := ⟨address, false⟩

/-- The operand at a base address plus an index. -/
def indexed (base : UInt16) (index : UInt8) : Operand :=
  let address := base + index.toUInt16
  ⟨address, decide (pageOf base ≠ pageOf address)⟩

/-- Computes the operand of the instruction at the program counter. -/
def find (c : Cpu) (b : β) (mode : Mode) : Operand × β :=
  let next := c.pc + 1
  match mode with
  | .implied | .accumulator => (direct 0, b)
  | .immediate => (direct next, b)
  | .zeroPage =>
      let r := Bus.read b next
      (direct r.1.toUInt16, r.2)
  | .zeroPageX =>
      let r := Bus.read b next
      (direct (r.1 + c.x).toUInt16, r.2)
  | .zeroPageY =>
      let r := Bus.read b next
      (direct (r.1 + c.y).toUInt16, r.2)
  | .relative =>
      let r := Bus.read b next
      (direct (c.pc + 2 + distance r.1), r.2)
  | .absolute =>
      let r := Bus.readWord b next
      (direct r.1, r.2)
  | .absoluteX =>
      let r := Bus.readWord b next
      (indexed r.1 c.x, r.2)
  | .absoluteY =>
      let r := Bus.readWord b next
      (indexed r.1 c.y, r.2)
  | .indirect =>
      let pointer := Bus.readWord b next
      let r := Bus.readPointer pointer.2 pointer.1
      (direct r.1, r.2)
  | .indexedIndirect =>
      let pointer := Bus.read b next
      let r := Bus.readPointer pointer.2 (pointer.1 + c.x).toUInt16
      (direct r.1, r.2)
  | .indirectIndexed =>
      let pointer := Bus.read b next
      let r := Bus.readPointer pointer.2 pointer.1.toUInt16
      (indexed r.1 c.y, r.2)

end Operand

end Nes
