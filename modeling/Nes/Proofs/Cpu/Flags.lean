import Nes.Cpu.Step

/-!
# Which bits of the status byte an instruction can change

Results set four bits of the status byte, a few families set or clear one bit on purpose, and two
pull the whole byte from the stack (`Mnemonic.touched`). The other bits stay: an instruction whose
family touches no bit of a mask leaves the status byte under that mask as it is (`Wired.bits_run`).
-/

set_option autoImplicit false

namespace Nes

/-- The bits that results set. -/
def Status.results : UInt8 := carry ||| zero ||| overflow ||| negative

namespace Cpu

variable (c : Cpu) (value : UInt8) {mask other : UInt8}

/-- The status byte under a mask. -/
def bits (mask : UInt8) : UInt8 := c.p &&& mask

theorem flag_eq (mask : UInt8) : c.flag mask = decide (c.bits mask ≠ 0) := rfl

@[simp] theorem bits_registers (a x y sp : UInt8) (pc : UInt16) (cycles stall : Nat)
    (interrupt : Interrupt) :
    ({ c with a, x, y, sp, pc, cycles, stall, interrupt } : Cpu).bits mask = c.bits mask := rfl

/-- Two masks without a common bit. -/
theorem getElem_and_eq_false (h : other &&& mask = 0) {i : Nat} (hi : i < 8) :
    (other.toBitVec[i] && mask.toBitVec[i]) = false := by
  simpa using congrArg (fun v : UInt8 => v.toBitVec[i]) h

/-- One bit of the status byte after a flag has been set or cleared. -/
theorem getElem_setFlag (mask : UInt8) (on : Bool) {i : Nat} (hi : i < 8) :
    (c.setFlag mask on).p.toBitVec[i] =
      if mask.toBitVec[i] then on else c.p.toBitVec[i] := by
  unfold setFlag
  cases on with
  | true =>
      show (c.p ||| mask).toBitVec[i] = _
      rw [UInt8.toBitVec_or, BitVec.getElem_or]
      cases mask.toBitVec[i] <;> simp
  | false =>
      show (c.p &&& ~~~mask).toBitVec[i] = _
      rw [UInt8.toBitVec_and, UInt8.toBitVec_not, BitVec.getElem_and, BitVec.getElem_not]
      cases mask.toBitVec[i] <;> simp

/-- Setting or clearing other bits leaves the bits of a mask alone. -/
theorem bits_setFlag (h : other &&& mask = 0) (on : Bool) :
    (c.setFlag other on).bits mask = c.bits mask := by
  refine UInt8.toBitVec_inj.mp (BitVec.eq_of_getElem_eq fun i hi => ?_)
  have hbit := getElem_and_eq_false h hi
  simp only [bits, UInt8.toBitVec_and, BitVec.getElem_and, getElem_setFlag _ _ _ hi]
  cases hother : other.toBitVec[i] <;> simp_all

theorem bits_setFlag_self (on : Bool) :
    (c.setFlag mask on).bits mask = if on then mask else 0 := by
  refine UInt8.toBitVec_inj.mp (BitVec.eq_of_getElem_eq fun i hi => ?_)
  simp only [bits, UInt8.toBitVec_and, BitVec.getElem_and, getElem_setFlag _ _ _ hi]
  cases hmask : mask.toBitVec[i] <;> cases on <;> simp [hmask]

theorem flag_setFlag (h : other &&& mask = 0) (on : Bool) :
    (c.setFlag other on).flag mask = c.flag mask := by
  rw [flag_eq, bits_setFlag c h, ← flag_eq]

theorem flag_setFlag_self (h : mask ≠ 0) (on : Bool) : (c.setFlag mask on).flag mask = on := by
  rw [flag_eq, bits_setFlag_self]
  cases on with
  | true => exact decide_eq_true h
  | false => rfl

/-! ## Results -/

/-- Results are kept apart from a mask one by one. -/
theorem bits_setFlag_of_results (hother : other &&& Status.results = other)
    (h : Status.results &&& mask = 0) (on : Bool) :
    (c.setFlag other on).bits mask = c.bits mask := by
  refine c.bits_setFlag ?_ on
  rw [← hother, UInt8.and_assoc, h, UInt8.and_zero]

variable (h : Status.results &&& mask = 0)
include h

theorem bits_updateZN : (c.updateZN value).bits mask = c.bits mask := by
  rw [updateZN, bits_setFlag_of_results _ (by decide) h, bits_setFlag_of_results _ (by decide) h]

theorem bits_setA : (c.setA value).bits mask = c.bits mask :=
  ({ c with a := value } : Cpu).bits_updateZN value h

theorem bits_setX : (c.setX value).bits mask = c.bits mask :=
  ({ c with x := value } : Cpu).bits_updateZN value h

theorem bits_setY : (c.setY value).bits mask = c.bits mask :=
  ({ c with y := value } : Cpu).bits_updateZN value h

theorem bits_addWithCarry : (c.addWithCarry value).bits mask = c.bits mask := by
  simp (disch := first | assumption | decide) [addWithCarry, bits_setFlag_of_results, bits_updateZN]

theorem bits_subtractWithCarry : (c.subtractWithCarry value).bits mask = c.bits mask := by
  simp (disch := first | assumption | decide)
    [subtractWithCarry, bits_setFlag_of_results, bits_updateZN]

theorem bits_compare (left right : UInt8) : (c.compare left right).bits mask = c.bits mask := by
  rw [Cpu.compare, bits_setFlag_of_results _ (by decide) h, bits_updateZN _ _ h]

theorem bits_shiftRight : (c.shiftRight value).2.bits mask = c.bits mask := by
  simp (disch := first | assumption | decide) [shiftRight, bits_setFlag_of_results, bits_updateZN]

end Cpu

/-! ## Families -/

/-- The bits of the status byte that a family can change. -/
def Mnemonic.touched : Mnemonic → UInt8
  | cli | sei | brk => Status.irqDisable
  | cld | sed => Status.decimal
  | plp | rti => 0xFF
  | _ => Status.results

/-- An effect leaves the status byte under a mask as it is. -/
def Effect.Keeps (mask : UInt8) : Effect → Prop
  | .load f => ∀ c value, (f c value).bits mask = c.bits mask
  | .modify f => ∀ c value, (f c value).2.bits mask = c.bits mask
  | .registers f => ∀ c, (f c).bits mask = c.bits mask
  | .softwareInterrupt => Status.irqDisable &&& mask = 0
  | .returnFromInterrupt | .pullStatus => mask = 0
  | .pullA => Status.results &&& mask = 0
  | _ => True

open Cpu in
/-- Each family is put together from changes to the bits it touches. -/
theorem Mnemonic.keeps_effect {m : Mnemonic} {mask : UInt8} (h : m.touched &&& mask = 0) :
    m.effect.Keeps mask := by
  have hall : (0xFF : UInt8) &&& mask = 0 → mask = 0 := by
    intro h
    rwa [show (0xFF : UInt8) = -1 from rfl, UInt8.neg_one_and] at h
  cases m
  -- one bit on purpose, then all of them from the stack, then results only
  case cli | sei | cld | sed => exact fun c => c.bits_setFlag h _
  case brk => exact h
  case plp | rti => exact hall h
  all_goals
    change Status.results &&& mask = 0 at h
    simp (disch := first | assumption | decide) [effect, Effect.Keeps, shiftLeft, rotateLeft,
      rotateRight, increment, decrement, countUp, countDown, testBits, modifyThen, andA, orA, xorA,
      compareA, loadAX, loadMasked, andCopySign, andShift, andRotate, subtractIntoX,
      bits_setFlag_of_results, bits_updateZN, bits_setA, bits_setX, bits_setY, bits_addWithCarry,
      bits_subtractWithCarry, bits_compare, bits_shiftRight, h]

namespace Wired

variable {β : Type} [Bus β]

/-- Entering a handler changes the bit that disables interrupts only. -/
theorem bits_enterInterrupt {mask : UInt8} (h : Status.irqDisable &&& mask = 0) (s : Wired β)
    (vector : UInt16) : (s.enterInterrupt vector).cpu.bits mask = s.cpu.bits mask :=
  Cpu.bits_setFlag (s.pushWord s.cpu.pc).pushStatus.cpu h true

/-- **What an instruction leaves of the status byte.** -/
theorem bits_run {mask : UInt8} {e : Effect} (he : e.Keeps mask) (i : Instruction) (s : Wired β) :
    (e.run i s).cpu.bits mask = s.cpu.bits mask := by
  have hzero : ∀ c : Cpu, c.bits 0 = 0 := fun c => UInt8.and_zero
  cases e with
  | load f => exact he (s.read i.operand.address).2.cpu _
  | modify f =>
      simp only [Effect.run]
      split
      · exact he s.cpu s.cpu.a
      · exact he (s.read i.operand.address).2.cpu _
  | registers f => exact he s.cpu
  | branch taken =>
      simp only [Effect.run]
      split <;> rfl
  | softwareInterrupt => exact bits_enterInterrupt he s irqVector
  | returnFromInterrupt | pullStatus =>
      obtain rfl : mask = 0 := he
      rw [hzero, hzero]
  | pullA => exact Cpu.bits_setA s.pull.2.cpu s.pull.1 he
  | store | jump | call | returnFromCall | pushA | pushStatus | idle => rfl

end Wired

end Nes
