import Nes.Cpu.Basic

/-!
# Arithmetic on registers

Addition and subtraction through the carry, comparison, the shifts and the rotations. All are
binary, whatever the decimal bit says. A shift or rotation takes a byte and gives the shifted
byte together with the CPU whose flags it has set.
-/

set_option autoImplicit false

namespace Nes.Cpu

/-! ## Addition, subtraction, comparison -/

/-- Adds a byte and the carry to A. Overflow is set when both operands have the same sign and the
result has the other. -/
def addWithCarry (c : Cpu) (value : UInt8) : Cpu :=
  let sum := c.a.toNat + value.toNat + c.carry.toNat
  let result := c.a + value + c.carry
  ((({ c with a := result }).updateZN result).setFlag Status.carry (decide (0xFF < sum))).setFlag
    Status.overflow
      (decide ((c.a ^^^ value) &&& 0x80 = 0 ∧ (c.a ^^^ result) &&& 0x80 ≠ 0))

/-- Subtracts a byte from A, and one more if the carry is clear. The carry stays set when nothing is
borrowed, and overflow is set when the operands have different signs and the result has not that
of A. -/
def subtractWithCarry (c : Cpu) (value : UInt8) : Cpu :=
  let result := c.a - value - (1 - c.carry)
  ((({ c with a := result }).updateZN result).setFlag Status.carry
    (decide (value.toNat + (1 - c.carry.toNat) ≤ c.a.toNat))).setFlag
    Status.overflow
      (decide ((c.a ^^^ value) &&& 0x80 ≠ 0 ∧ (c.a ^^^ result) &&& 0x80 ≠ 0))

/-- Compares two bytes: zero and negative are those of the difference, the carry is set unless the
first is smaller. -/
def compare (c : Cpu) (left right : UInt8) : Cpu :=
  (c.updateZN (left - right)).setFlag Status.carry (decide (right ≤ left))

/-! ## Shifts and rotations -/

/-- Shifts left; the highest bit goes into the carry. -/
def shiftLeft (c : Cpu) (value : UInt8) : UInt8 × Cpu :=
  let result := value <<< 1
  (result, (c.setFlag Status.carry (decide (value &&& 0x80 ≠ 0))).updateZN result)

/-- Shifts right; the lowest bit goes into the carry. -/
def shiftRight (c : Cpu) (value : UInt8) : UInt8 × Cpu :=
  let result := value >>> 1
  (result, (c.setFlag Status.carry (decide (value &&& 0x01 ≠ 0))).updateZN result)

/-- Shifts left and moves the old carry in. -/
def rotateLeft (c : Cpu) (value : UInt8) : UInt8 × Cpu :=
  let result := (value <<< 1) ||| c.carry
  (result, (c.setFlag Status.carry (decide (value &&& 0x80 ≠ 0))).updateZN result)

/-- Shifts right and moves the old carry in. -/
def rotateRight (c : Cpu) (value : UInt8) : UInt8 × Cpu :=
  let result := (value >>> 1) ||| (c.carry <<< 7)
  (result, (c.setFlag Status.carry (decide (value &&& 0x01 ≠ 0))).updateZN result)

/-- Adds one. -/
def increment (c : Cpu) (value : UInt8) : UInt8 × Cpu :=
  (value + 1, c.updateZN (value + 1))

/-- Subtracts one. -/
def decrement (c : Cpu) (value : UInt8) : UInt8 × Cpu :=
  (value - 1, c.updateZN (value - 1))

/-! ## Loads and logic -/

/-- Puts a byte into A and sets zero and negative from it. -/
def setA (c : Cpu) (value : UInt8) : Cpu := ({ c with a := value }).updateZN value

/-- Puts a byte into X and sets zero and negative from it. -/
def setX (c : Cpu) (value : UInt8) : Cpu := ({ c with x := value }).updateZN value

/-- Puts a byte into Y and sets zero and negative from it. -/
def setY (c : Cpu) (value : UInt8) : Cpu := ({ c with y := value }).updateZN value

/-- Tests a byte: overflow and negative are its bits 6 and 7, zero says whether it shares no bit
with A. -/
def testBits (c : Cpu) (value : UInt8) : Cpu :=
  ((c.setFlag Status.overflow (decide (value &&& 0x40 ≠ 0))).setFlag Status.zero
    (decide (value &&& c.a = 0))).setFlag Status.negative (decide (value &&& 0x80 ≠ 0))

end Nes.Cpu
