import Nes.Proofs.Cpu.CombinedFamilies
import Nes.Proofs.Cpu.LongArithmetic

/-!
# Shifts of several bytes

A number of several bytes is shifted by shifting its first byte and rotating what comes out of it
through the others: from the lowest byte on to the left, from the highest on to the right
(`Cpu.pass`). Each rotation takes in the carry of the operation before and leaves its own.

A shift is a rotation with the carry cleared, so what is said of rotations holds for both. A pass to
the left doubles the number, a pass to the right halves it, and the bit that does not fit is in the
carry. Both are the same equation between numbers, read in opposite directions, so a pass of
rotations to the right undoes one to the left.
-/

set_option autoImplicit false

namespace Nes

/-! ## Numbers -/

/-- Below a highest byte the others make a number of their own. -/
theorem numberOf_reverse_cons (b : UInt8) (bytes : List UInt8) :
    numberOf (b :: bytes).reverse = numberOf bytes.reverse + 256 ^ bytes.length * b.toNat := by
  simp [numberOf, Nat.ofDigits_append]

theorem numberOf_inj {xs ys : List UInt8} (hlength : xs.length = ys.length)
    (h : numberOf xs = numberOf ys) : xs = ys := by
  have hdigits : ∀ (zs : List UInt8), ∀ digit ∈ zs.map UInt8.toNat, digit < 256 := by
    intro zs digit hdigit
    obtain ⟨b, -, rfl⟩ := List.mem_map.mp hdigit
    exact b.toNat_lt
  have hmaps : xs.map UInt8.toNat = ys.map UInt8.toNat :=
    Nat.ofDigits_inj_of_len_eq (by decide) (by simpa using hlength) (hdigits xs) (hdigits ys) h
  exact List.map_injective_iff.mpr (fun _ _ => UInt8.toNat_inj.mp) hmaps

namespace Cpu

variable (c : Cpu) (value : UInt8)

/-! ## One byte -/

/-- The CPU after a shift: what is shifted out is in the carry, and zero and negative tell of the
result. -/
def shifted (out : Bool) (result : UInt8) : Cpu :=
  (c.setFlag Status.carry out).updateZN result

/-- Of one shift after another the flags of the last one are left. -/
theorem shifted_shifted (out out' : Bool) (result result' : UInt8) :
    (c.shifted out result).shifted out' result' = c.shifted out' result' := by
  unfold shifted
  rw [setFlag_carry_updateZN, setFlag_setFlag, updateZN_updateZN]

theorem carry_shifted (out : Bool) (result : UInt8) :
    (c.shifted out result).carry = if out then 1 else 0 := by
  show (c.shifted out result).bits Status.carry = _
  rw [shifted, updateZN, bits_setFlag _ (by decide), bits_setFlag _ (by decide), bits_setFlag_self]
  rfl

theorem carry_cleared : (c.setFlag Status.carry false).carry = 0 := c.bits_setFlag_self false

/-- Shifting is rotating with the carry cleared. -/
theorem shiftLeft_eq : c.shiftLeft value = (c.setFlag Status.carry false).rotateLeft value := by
  rw [rotateLeft, carry_cleared, UInt8.or_zero, setFlag_setFlag]
  rfl

theorem shiftRight_eq : c.shiftRight value = (c.setFlag Status.carry false).rotateRight value := by
  have hzero : (0 : UInt8) <<< 7 = 0 := by decide
  rw [rotateRight, carry_cleared, hzero, UInt8.or_zero, setFlag_setFlag]
  rfl

/-- **One rotation to the left is exact**: what does not fit into the byte is in the carry. -/
theorem toNat_rotateLeft :
    (c.rotateLeft value).1.toNat + 256 * (c.rotateLeft value).2.carry.toNat =
      2 * value.toNat + c.carry.toNat := by
  have hvalue := value.toNat_lt
  have hcarry := c.toNat_carry_le
  have hshift : (value <<< 1).toNat = 2 ^ 1 * (value.toNat % 128) := by
    rw [UInt8.toNat_shiftLeft, Nat.shiftLeft_eq]
    show value.toNat * 2 % 256 = _
    omega
  have hresult : (c.rotateLeft value).1.toNat = 2 * (value.toNat % 128) + c.carry.toNat := by
    have hlt : c.carry.toNat < 2 ^ 1 := by omega
    show ((value <<< 1) ||| c.carry).toNat = _
    rw [UInt8.toNat_or, hshift, ← Nat.two_pow_add_eq_or_of_lt hlt]
  have hout : (c.rotateLeft value).2.carry =
      if decide (value &&& 0x80 ≠ 0) = true then 1 else 0 :=
    c.carry_shifted _ _
  rw [hresult, hout]
  simp only [decide_eq_true_iff, and_sign_ne_zero_iff]
  split
  · show _ + 256 * 1 = _
    omega
  · show _ + 256 * 0 = _
    omega

/-- **One rotation to the right is exact**, with the carry above the byte before it and below it
afterwards. -/
theorem toNat_rotateRight :
    2 * (c.rotateRight value).1.toNat + (c.rotateRight value).2.carry.toNat =
      value.toNat + 256 * c.carry.toNat := by
  have hvalue := value.toNat_lt
  have hcarry := c.toNat_carry_le
  have hhigh : (c.carry <<< 7).toNat = 2 ^ 7 * c.carry.toNat := by
    rw [UInt8.toNat_shiftLeft, Nat.shiftLeft_eq]
    show c.carry.toNat * 2 ^ 7 % 2 ^ 8 = _
    omega
  have hlow : (value >>> 1).toNat = value.toNat / 2 := by
    rw [UInt8.toNat_shiftRight, Nat.shiftRight_eq_div_pow]
    rfl
  have hresult : (c.rotateRight value).1.toNat = 2 ^ 7 * c.carry.toNat + value.toNat / 2 := by
    have hlt : value.toNat / 2 < 2 ^ 7 := by omega
    show ((value >>> 1) ||| (c.carry <<< 7)).toNat = _
    rw [UInt8.toNat_or, hhigh, hlow, Nat.or_comm, ← Nat.two_pow_add_eq_or_of_lt hlt]
  have hlowest : value &&& 0x01 ≠ 0 ↔ value.toNat % 2 = 1 := by
    rw [Byte.and_ne_zero_iff value (k := 0) (by decide), Nat.testBit_zero, decide_eq_true_iff]
  have hout : (c.rotateRight value).2.carry =
      if decide (value &&& 0x01 ≠ 0) = true then 1 else 0 :=
    c.carry_shifted _ _
  rw [hresult, hout]
  simp only [decide_eq_true_iff, hlowest]
  split
  · show _ + 1 = _
    omega
  · show _ + 0 = _
    omega

/-! ## Passes -/

/-- Goes through bytes one after the other, with an operation for the first one and another for the
rest. Gives the bytes that come out, in the same order, and the CPU at the end. -/
def pass (first next : Cpu → UInt8 → UInt8 × Cpu) (c : Cpu) : List UInt8 → List UInt8 × Cpu
  | [] => ([], c)
  | b :: bytes =>
      let head := first c b
      let tail := pass next next head.2 bytes
      (head.1 :: tail.1, tail.2)

theorem length_pass (first next : Cpu → UInt8 → UInt8 × Cpu) (bytes : List UInt8) :
    (pass first next c bytes).1.length = bytes.length := by
  induction bytes generalizing first c with
  | nil => rfl
  | cons b bytes ih => exact congrArg (· + 1) (ih (first c b).2 next)

/-- An operation that only sets the flags of a shift. -/
def Shifts (f : Cpu → UInt8 → UInt8 × Cpu) : Prop :=
  ∀ c value, ∃ out, (f c value).2 = c.shifted out (f c value).1

theorem shifts_shiftLeft : Shifts shiftLeft := fun _ _ => ⟨_, rfl⟩

theorem shifts_shiftRight : Shifts shiftRight := fun _ _ => ⟨_, rfl⟩

theorem shifts_rotateLeft : Shifts rotateLeft := fun _ _ => ⟨_, rfl⟩

theorem shifts_rotateRight : Shifts rotateRight := fun _ _ => ⟨_, rfl⟩

/-- A pass leaves the flags of the last byte that comes out. -/
theorem exists_shifted_pass {first next : Cpu → UInt8 → UInt8 × Cpu} (hfirst : Shifts first)
    (hnext : Shifts next) {bytes : List UInt8} (hne : bytes ≠ []) :
    ∃ out, ∃ last ∈ (pass first next c bytes).1.getLast?,
      (pass first next c bytes).2 = c.shifted out last := by
  induction bytes generalizing first c with
  | nil => exact absurd rfl hne
  | cons b bytes ih =>
      obtain ⟨out, hout⟩ := hfirst c b
      cases bytes with
      | nil => exact ⟨out, _, rfl, hout⟩
      | cons b' bytes =>
          obtain ⟨out', last, hlast, hend⟩ := ih (first c b).2 hnext (List.cons_ne_nil _ _)
          refine ⟨out', last, ?_, ?_⟩
          · show ((first c b).1 :: (pass next next (first c b).2 (b' :: bytes)).1).getLast? =
              some last
            rw [List.getLast?_cons, hlast]
            rfl
          · show (pass next next (first c b).2 (b' :: bytes)).2 = _
            rw [hend, hout, shifted_shifted]

theorem pass_shiftLeft {bytes : List UInt8} (hne : bytes ≠ []) :
    pass shiftLeft rotateLeft c bytes =
      pass rotateLeft rotateLeft (c.setFlag Status.carry false) bytes := by
  cases bytes with
  | nil => exact absurd rfl hne
  | cons b bytes => rw [pass, pass, shiftLeft_eq]

theorem pass_shiftRight {bytes : List UInt8} (hne : bytes ≠ []) :
    pass shiftRight rotateRight c bytes =
      pass rotateRight rotateRight (c.setFlag Status.carry false) bytes := by
  cases bytes with
  | nil => exact absurd rfl hne
  | cons b bytes => rw [pass, pass, shiftRight_eq]

/-- **A pass to the left is exact**, with the carry above the highest byte afterwards. -/
theorem number_pass_rotateLeft (bytes : List UInt8) :
    numberOf (pass rotateLeft rotateLeft c bytes).1 +
        256 ^ bytes.length * (pass rotateLeft rotateLeft c bytes).2.carry.toNat =
      2 * numberOf bytes + c.carry.toNat := by
  induction bytes generalizing c with
  | nil => simp [pass]
  | cons b bytes ih =>
      have hbyte := c.toNat_rotateLeft b
      have hrest := ih (c.rotateLeft b).2
      rw [pass, numberOf_cons, numberOf_cons, List.length_cons, Nat.pow_succ', Nat.mul_assoc]
      dsimp only
      omega

/-- **A pass to the right is exact**, with the carry above the highest byte before it. -/
theorem number_pass_rotateRight (bytes : List UInt8) :
    2 * numberOf (pass rotateRight rotateRight c bytes).1.reverse +
        (pass rotateRight rotateRight c bytes).2.carry.toNat =
      numberOf bytes.reverse + 256 ^ bytes.length * c.carry.toNat := by
  induction bytes generalizing c with
  | nil => simp [pass]
  | cons b bytes ih =>
      have hbyte := c.toNat_rotateRight b
      have hrest := ih (c.rotateRight b).2
      have hlength := (c.rotateRight b).2.length_pass rotateRight rotateRight bytes
      rw [pass, numberOf_reverse_cons, numberOf_reverse_cons, hlength, List.length_cons,
        Nat.pow_succ]
      dsimp only
      calc _ = 256 ^ bytes.length * (2 * (c.rotateRight b).1.toNat) +
              (numberOf bytes.reverse + 256 ^ bytes.length * (c.rotateRight b).2.carry.toNat) := by
            rw [← hrest]
            ring
        _ = numberOf bytes.reverse + 256 ^ bytes.length *
              (2 * (c.rotateRight b).1.toNat + (c.rotateRight b).2.carry.toNat) := by ring
        _ = _ := by
            rw [hbyte]
            ring

/-- **A pass to the right undoes one to the left**, from any CPU with the carry that it has left. -/
theorem pass_rotateRight_pass_rotateLeft (bytes : List UInt8) {d : Cpu}
    (hd : d.carry = (pass rotateLeft rotateLeft c bytes).2.carry) :
    (pass rotateRight rotateRight d (pass rotateLeft rotateLeft c bytes).1.reverse).1.reverse =
        bytes ∧
      (pass rotateRight rotateRight d (pass rotateLeft rotateLeft c bytes).1.reverse).2.carry =
        c.carry := by
  have hthere := c.number_pass_rotateLeft bytes
  have hback := d.number_pass_rotateRight (pass rotateLeft rotateLeft c bytes).1.reverse
  have hcarry := c.toNat_carry_le
  have hcarry' := (pass rotateRight rotateRight d
    (pass rotateLeft rotateLeft c bytes).1.reverse).2.toNat_carry_le
  rw [List.reverse_reverse, List.length_reverse, length_pass, hd, hthere] at hback
  -- the number is the quotient by two and the carry the remainder
  constructor
  · apply numberOf_inj
    · rw [List.length_reverse, length_pass, List.length_reverse, length_pass]
    · omega
  · apply UInt8.toNat_inj.mp
    omega

/-! ## Doubling and halving -/

/-- What a pass leaves of the CPU: zero and negative tell of the last byte that came out, the carry
may be another one, and everything else is as before. -/
structure TellsOfLast (r : List UInt8 × Cpu) : Prop where
  zero : ∀ last ∈ r.1.getLast?, (r.2.flag Status.zero = true ↔ last = 0)
  negative : ∀ last ∈ r.1.getLast?, (r.2.flag Status.negative = true ↔ 128 ≤ last.toNat)
  bits : r.2.bits (~~~compared) = c.bits (~~~compared)
  registers : { r.2 with p := c.p } = c

theorem tellsOfLast_pass {first next : Cpu → UInt8 → UInt8 × Cpu} (hfirst : Shifts first)
    (hnext : Shifts next) {bytes : List UInt8} (hne : bytes ≠ []) :
    c.TellsOfLast (pass first next c bytes) := by
  obtain ⟨out, last, hlast, hend⟩ := c.exists_shifted_pass hfirst hnext hne
  have honly : ∀ last' ∈ (pass first next c bytes).1.getLast?, last' = last := fun last' h =>
    Option.some.inj (h.symm.trans hlast)
  refine ⟨?zero, ?negative, ?bits, ?registers⟩
  case zero =>
    intro last' h
    rw [honly last' h, hend, shifted, updateZN, flag_setFlag _ (by decide),
      flag_setFlag_self _ (by decide), decide_eq_true_iff]
  case negative =>
    intro last' h
    rw [honly last' h, hend, shifted, updateZN, flag_setFlag_self _ (by decide),
      decide_eq_true_iff, and_sign_ne_zero_iff]
  case bits =>
    rw [hend, shifted, updateZN, bits_setFlag _ (by decide), bits_setFlag _ (by decide),
      bits_setFlag _ (by decide)]
  case registers =>
    rw [hend]
    rfl

/-- A pass to the left that takes in a carry: twice the number and the carry, as far as there are
bytes for it. -/
structure Doubles (first : Cpu → UInt8 → UInt8 × Cpu) (carryIn : Nat) (bytes : List UInt8) :
    Prop where
  length : (pass first rotateLeft c bytes).1.length = bytes.length
  number : numberOf (pass first rotateLeft c bytes).1 =
    (2 * numberOf bytes + carryIn) % 256 ^ bytes.length
  /-- The carry is the highest bit. -/
  carry : (pass first rotateLeft c bytes).2.carry.toNat =
    ((numberOf bytes).testBit (8 * bytes.length - 1)).toNat
  flags : c.TellsOfLast (pass first rotateLeft c bytes)

/-- A pass to the right that takes in a carry, with the bytes from the highest to the lowest: half
of the number with the carry above it. -/
structure Halves (first : Cpu → UInt8 → UInt8 × Cpu) (carryIn : Nat) (bytes : List UInt8) :
    Prop where
  length : (pass first rotateRight c bytes).1.length = bytes.length
  number : numberOf (pass first rotateRight c bytes).1.reverse =
    (numberOf bytes.reverse + 256 ^ bytes.length * carryIn) / 2
  /-- The carry is the lowest bit. -/
  carry : (pass first rotateRight c bytes).2.carry.toNat = numberOf bytes.reverse % 2
  flags : c.TellsOfLast (pass first rotateRight c bytes)

variable {bytes : List UInt8} (hne : bytes ≠ [])
include hne

theorem doubles_rotateLeft : c.Doubles rotateLeft c.carry.toNat bytes := by
  have hexact := c.number_pass_rotateLeft bytes
  have hlength := c.length_pass rotateLeft rotateLeft bytes
  have hresult := numberOf_lt (pass rotateLeft rotateLeft c bytes).1
  have hnumber := numberOf_lt bytes
  have hcarry := c.toNat_carry_le
  have hcarry' := (pass rotateLeft rotateLeft c bytes).2.toNat_carry_le
  rw [hlength] at hresult
  -- half of the range, so that the highest bit is the quotient by it
  obtain ⟨k, hk⟩ : ∃ k, 8 * bytes.length - 1 = k := ⟨_, rfl⟩
  have hpos := List.length_pos_iff.mpr hne
  have hrange : 256 ^ bytes.length = 2 * 2 ^ k := by
    rw [show (256 : Nat) = 2 ^ 8 from rfl, ← Nat.pow_mul, ← Nat.pow_succ', ← hk]
    congr 1
    omega
  refine ⟨hlength, ?number, ?carry, c.tellsOfLast_pass shifts_rotateLeft shifts_rotateLeft hne⟩
  case number =>
    rw [← hexact, Nat.add_mul_mod_self_left, Nat.mod_eq_of_lt hresult]
  case carry =>
    rw [hk, Nat.toNat_testBit]
    rw [hrange] at hexact hresult hnumber
    obtain hzero | hone := Nat.le_one_iff_eq_zero_or_eq_one.mp hcarry'
    · rw [hzero] at hexact ⊢
      rw [Nat.div_eq_of_lt (by omega)]
    · rw [hone] at hexact ⊢
      rw [show numberOf bytes / 2 ^ k = 1 from Nat.div_eq_of_lt_le (by omega) (by omega)]

theorem halves_rotateRight : c.Halves rotateRight c.carry.toNat bytes := by
  have hexact := c.number_pass_rotateRight bytes
  have hcarry' := (pass rotateRight rotateRight c bytes).2.toNat_carry_le
  have heven : 256 ^ bytes.length * c.carry.toNat % 2 = 0 := by
    obtain ⟨n, hn⟩ := Nat.exists_eq_add_one.mpr (List.length_pos_iff.mpr hne)
    rw [hn, Nat.pow_succ', Nat.mul_assoc]
    omega
  refine ⟨c.length_pass rotateRight rotateRight bytes, ?number, ?carry,
    c.tellsOfLast_pass shifts_rotateRight shifts_rotateRight hne⟩
  case number => omega
  case carry => omega

theorem doubles_shiftLeft : c.Doubles shiftLeft 0 bytes := by
  have hrotate := (c.setFlag Status.carry false).doubles_rotateLeft hne
  rw [carry_cleared] at hrotate
  refine ⟨c.length_pass shiftLeft rotateLeft bytes, ?number, ?carry,
    c.tellsOfLast_pass shifts_shiftLeft shifts_rotateLeft hne⟩
  case number =>
    rw [c.pass_shiftLeft hne]
    exact hrotate.number
  case carry =>
    rw [c.pass_shiftLeft hne]
    exact hrotate.carry

theorem halves_shiftRight : c.Halves shiftRight 0 bytes := by
  have hrotate := (c.setFlag Status.carry false).halves_rotateRight hne
  rw [carry_cleared] at hrotate
  refine ⟨c.length_pass shiftRight rotateRight bytes, ?number, ?carry,
    c.tellsOfLast_pass shifts_shiftRight shifts_rotateRight hne⟩
  case number =>
    rw [c.pass_shiftRight hne]
    exact hrotate.number
  case carry =>
    rw [c.pass_shiftRight hne]
    exact hrotate.carry

omit hne

/-- **Shifts and rotations of numbers of any length are exact**: those to the left double the
number, those to the right halve it, and what does not fit is in the carry. Rotating back with that
carry gives the number and the first carry again. -/
theorem long_shifts (hne : bytes ≠ []) :
    c.Doubles shiftLeft 0 bytes ∧
    c.Halves shiftRight 0 bytes.reverse ∧
    c.Doubles rotateLeft c.carry.toNat bytes ∧
    ∀ d : Cpu, d.carry = (pass rotateLeft rotateLeft c bytes).2.carry →
      let left := (pass rotateLeft rotateLeft c bytes).1
      let back := pass rotateRight rotateRight d left.reverse
      d.Halves rotateRight d.carry.toNat left.reverse ∧ back.1.reverse = bytes ∧
        back.2.carry = c.carry := by
  have hreverse : bytes.reverse ≠ [] := mt List.reverse_eq_nil_iff.mp hne
  refine ⟨c.doubles_shiftLeft hne, c.halves_shiftRight hreverse, c.doubles_rotateLeft hne, ?_⟩
  intro d hd left back
  have hleft : left.reverse ≠ [] := by
    apply List.ne_nil_of_length_pos
    rw [List.length_reverse, length_pass]
    exact List.length_pos_iff.mpr hne
  exact ⟨d.halves_rotateRight hleft, c.pass_rotateRight_pass_rotateLeft bytes hd⟩

/-- With the carry set, 0xC180 is rotated to 0x8301 and back. -/
theorem long_shifts_two_bytes :
    let c := powerOn.setFlag Status.carry true
    let r := pass rotateLeft rotateLeft c [0x80, 0xC1]
    [0x80, 0xC1] ≠ ([] : List UInt8) ∧ c.Doubles shiftLeft 0 [0x80, 0xC1] ∧
      c.Doubles rotateLeft 1 [0x80, 0xC1] ∧ r.1 = [0x01, 0x83] ∧ r.2.carry = 1 ∧
      (pass rotateRight rotateRight r.2 r.1.reverse).1.reverse = [0x80, 0xC1] := by
  intro c r
  have hne : [0x80, 0xC1] ≠ ([] : List UInt8) := List.cons_ne_nil _ _
  have hcarry : c.carry.toNat = 1 := by decide
  obtain ⟨hshift, -, hrotate, hback⟩ := c.long_shifts hne
  obtain ⟨-, hundone, -⟩ := hback r.2 rfl
  rw [hcarry] at hrotate
  exact ⟨hne, hshift, hrotate, by decide, by decide, hundone⟩

end Cpu

end Nes
