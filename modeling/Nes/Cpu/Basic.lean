/-!
# The CPU

Registers, status byte, cycle counter and the interrupt waiting to be served. The bits of the
status byte are, from the highest, negative, overflow, one that is always set when the byte is
rebuilt from the stack, break, decimal, interrupts disabled, zero and carry. Decimal can be set and
cleared, but arithmetic does not look at it; break is only ever set in a copy on the stack.

The CPU holds no memory. `stall` is the number of cycles it still has to wait before the next
instruction.
-/

set_option autoImplicit false

namespace Nes

namespace Status

/-! ## The bits of the status byte -/

def carry : UInt8 := 0x01
def zero : UInt8 := 0x02
def irqDisable : UInt8 := 0x04
def decimal : UInt8 := 0x08
def brk : UInt8 := 0x10
def unused : UInt8 := 0x20
def overflow : UInt8 := 0x40
def negative : UInt8 := 0x80

/-- The status byte after a reset. -/
def reset : UInt8 := irqDisable ||| unused

end Status

/-- The interrupt that waits to be served. -/
inductive Interrupt
  | none
  | nmi
  | irq
  deriving DecidableEq, Repr

/-- The state of the CPU. -/
structure Cpu where
  pc : UInt16 := 0
  sp : UInt8 := 0xFD
  a : UInt8 := 0
  x : UInt8 := 0
  y : UInt8 := 0
  /-- The status byte. -/
  p : UInt8 := Status.reset
  /-- Cycles spent on instructions and interrupts since power-on. -/
  cycles : Nat := 0
  /-- Cycles to wait before the next instruction. -/
  stall : Nat := 0
  interrupt : Interrupt := .none
  deriving DecidableEq, Repr

namespace Cpu

/-- The CPU at power-on. -/
def powerOn : Cpu := {}

/-! ## The status byte -/

/-- Whether one of the bits of a mask is set. -/
def flag (c : Cpu) (mask : UInt8) : Bool := decide (c.p &&& mask ≠ 0)

/-- Sets or clears the bits of a mask. -/
def setFlag (c : Cpu) (mask : UInt8) (on : Bool) : Cpu :=
  { c with p := if on then c.p ||| mask else c.p &&& ~~~mask }

/-- The carry as a number, 0 or 1. -/
def carry (c : Cpu) : UInt8 := c.p &&& Status.carry

/-- Sets zero and negative as a result byte asks for. -/
def updateZN (c : Cpu) (value : UInt8) : Cpu :=
  (c.setFlag Status.zero (decide (value = 0))).setFlag Status.negative
    (decide (value &&& 0x80 ≠ 0))

/-! ## Interrupt requests -/

/-- Requests a non-maskable interrupt, in place of whatever waits. -/
def triggerNmi (c : Cpu) : Cpu := { c with interrupt := .nmi }

/-- Requests an interrupt, unless interrupts are disabled or one waits already. -/
def triggerIrq (c : Cpu) : Cpu :=
  if c.flag Status.irqDisable = false ∧ c.interrupt = .none then { c with interrupt := .irq } else c

end Cpu

end Nes
