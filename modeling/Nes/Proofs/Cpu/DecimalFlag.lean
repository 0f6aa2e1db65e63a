import Nes.Proofs.Cpu.Account
import Nes.Proofs.Cpu.CombinedFamilies

/-!
# The decimal flag

The flag can be set and cleared, and nothing else comes of it. So an operation on the CPU without
the flag (`Cpu.binary`) gives what it gives on the CPU itself, but for the flag: each operation has
a lemma that says so and moves `Cpu.binary` outwards. Put together, they say it of every family
(`Mnemonic.ignoresDecimal`).
-/

set_option autoImplicit false

namespace Nes

open Wired (stackCell)

/-! ## The CPU without the flag -/

namespace Cpu

variable (c : Cpu) (value : UInt8) {mask : UInt8}

/-- The CPU with the decimal flag cleared. -/
def binary : Cpu := c.setFlag Status.decimal false

@[simp] theorem a_binary : c.binary.a = c.a := rfl

@[simp] theorem x_binary : c.binary.x = c.x := rfl

@[simp] theorem y_binary : c.binary.y = c.y := rfl

@[simp] theorem sp_binary : c.binary.sp = c.sp := rfl

@[simp] theorem binary_setFlag_decimal (on : Bool) :
    (c.setFlag Status.decimal on).binary = c.binary :=
  c.setFlag_setFlag on false

@[simp] theorem binary_binary : c.binary.binary = c.binary := c.binary_setFlag_decimal false

/-- The other flags are read and set without it. -/
theorem flag_binary (h : Status.decimal &&& mask = 0) : c.binary.flag mask = c.flag mask :=
  c.flag_setFlag h false

@[simp] theorem carry_binary : c.binary.carry = c.carry :=
  c.bits_setFlag (show Status.decimal &&& Status.carry = 0 by decide) false

theorem setFlag_binary (h : Status.decimal &&& mask = 0) (on : Bool) :
    c.binary.setFlag mask on = (c.setFlag mask on).binary :=
  (c.setFlag_comm h on false).symm

@[simp] theorem updateZN_binary : c.binary.updateZN value = (c.updateZN value).binary := by
  rw [updateZN, setFlag_binary _ (by decide), setFlag_binary _ (by decide), updateZN]

/-! ## Arithmetic is binary -/

@[simp] theorem setA_binary : c.binary.setA value = (c.setA value).binary :=
  ({ c with a := value } : Cpu).updateZN_binary value

@[simp] theorem setX_binary : c.binary.setX value = (c.setX value).binary :=
  ({ c with x := value } : Cpu).updateZN_binary value

@[simp] theorem setY_binary : c.binary.setY value = (c.setY value).binary :=
  ({ c with y := value } : Cpu).updateZN_binary value

@[simp] theorem loadAX_binary : c.binary.loadAX value = (c.loadAX value).binary :=
  ({ c with a := value, x := value } : Cpu).updateZN_binary value

@[simp] theorem loadMasked_binary : c.binary.loadMasked value = (c.loadMasked value).binary :=
  ({ c with a := value &&& c.sp, x := value &&& c.sp, sp := value &&& c.sp } : Cpu).updateZN_binary
    (value &&& c.sp)

/-- Sums and rotations put a result into A, and then set the carry and the overflow. -/
theorem setA_setFlags_binary (on on' : Bool) :
    ((c.binary.setA value).setFlag Status.carry on).setFlag Status.overflow on' =
      (((c.setA value).setFlag Status.carry on).setFlag Status.overflow on').binary := by
  rw [setA_binary, setFlag_binary _ (by decide), setFlag_binary _ (by decide)]

@[simp] theorem addWithCarry_binary :
    c.binary.addWithCarry value = (c.addWithCarry value).binary := by
  unfold addWithCarry
  rw [carry_binary]
  exact c.setA_setFlags_binary _ _ _

@[simp] theorem subtractWithCarry_binary :
    c.binary.subtractWithCarry value = (c.subtractWithCarry value).binary := by
  unfold subtractWithCarry
  rw [carry_binary]
  exact c.setA_setFlags_binary _ _ _

@[simp] theorem andRotate_binary : c.binary.andRotate value = (c.andRotate value).binary := by
  unfold andRotate
  rw [carry_binary]
  exact c.setA_setFlags_binary _ _ _

@[simp] theorem compare_binary (left right : UInt8) :
    c.binary.compare left right = (c.compare left right).binary := by
  rw [Cpu.compare, updateZN_binary, setFlag_binary _ (by decide), Cpu.compare]

@[simp] theorem testBits_binary : c.binary.testBits value = (c.testBits value).binary := by
  rw [testBits, setFlag_binary _ (by decide), setFlag_binary _ (by decide),
    setFlag_binary _ (by decide)]
  rfl

@[simp] theorem andCopySign_binary :
    c.binary.andCopySign value = (c.andCopySign value).binary := by
  have hand : c.binary.andA value = (c.andA value).binary := c.setA_binary _
  rw [andCopySign, hand, flag_binary _ (by decide), setFlag_binary _ (by decide), andCopySign]

@[simp] theorem subtractIntoX_binary :
    c.binary.subtractIntoX value = (c.subtractIntoX value).binary := by
  show (c.binary.setX _).setFlag _ _ = _
  rw [setX_binary, setFlag_binary _ (by decide)]
  rfl

/-- A shift sets the flags of its result, and the carry from the bit that is shifted out. -/
theorem shifted_binary (out : Bool) :
    (c.binary.setFlag Status.carry out).updateZN value =
      ((c.setFlag Status.carry out).updateZN value).binary := by
  rw [setFlag_binary _ (by decide), updateZN_binary]

@[simp] theorem shiftLeft_binary :
    c.binary.shiftLeft value = ((c.shiftLeft value).1, (c.shiftLeft value).2.binary) :=
  congrArg (_, ·) (c.shifted_binary _ _)

@[simp] theorem shiftRight_binary :
    c.binary.shiftRight value = ((c.shiftRight value).1, (c.shiftRight value).2.binary) :=
  congrArg (_, ·) (c.shifted_binary _ _)

@[simp] theorem rotateLeft_binary :
    c.binary.rotateLeft value = ((c.rotateLeft value).1, (c.rotateLeft value).2.binary) := by
  unfold rotateLeft
  rw [carry_binary]
  exact congrArg (_, ·) (c.shifted_binary _ _)

@[simp] theorem rotateRight_binary :
    c.binary.rotateRight value = ((c.rotateRight value).1, (c.rotateRight value).2.binary) := by
  unfold rotateRight
  rw [carry_binary]
  exact congrArg (_, ·) (c.shifted_binary _ _)

@[simp] theorem andShift_binary : c.binary.andShift value = (c.andShift value).binary := by
  unfold andShift
  rw [a_binary, shiftRight_binary]
  rfl

end Cpu

/-- What an effect does to the registers and writes does not depend on the decimal flag. -/
def Effect.IgnoresDecimal : Effect → Prop
  | .load f => ∀ c value, (f c.binary value).binary = (f c value).binary
  | .store f => ∀ c, f c.binary = f c
  | .modify f => ∀ c value,
      (f c.binary value).1 = (f c value).1 ∧ (f c.binary value).2.binary = (f c value).2.binary
  | .registers f => ∀ c, (f c.binary).binary = (f c).binary
  | .branch taken => ∀ c, taken c.binary = taken c
  | _ => True

open Cpu in
/-- **No family looks at the flag.** -/
theorem Mnemonic.ignoresDecimal (m : Mnemonic) : m.effect.IgnoresDecimal := by
  cases m
  case bcc | bcs | bne | beq | bpl | bmi | bvc | bvs =>
    intro c
    simp only [c.flag_binary (show Status.decimal &&& Status.carry = 0 by decide),
      c.flag_binary (show Status.decimal &&& Status.zero = 0 by decide),
      c.flag_binary (show Status.decimal &&& Status.negative = 0 by decide),
      c.flag_binary (show Status.decimal &&& Status.overflow = 0 by decide)]
  case clc | cli | clv | sec | sei =>
    intro c
    exact (congrArg binary (c.setFlag_binary (by decide) _)).trans (binary_binary _)
  case txs =>
    intro c
    exact ({ c with sp := c.x } : Cpu).binary_binary
  all_goals
    simp [effect, Effect.IgnoresDecimal, increment, decrement, countUp, countDown, modifyThen,
      andA, orA, xorA, compareA]

end Nes
