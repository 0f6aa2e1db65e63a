import Mathlib.Data.Nat.Digits.Lemmas
import Nes.Proofs.Checked.Cpu
import Nes.Proofs.Cpu.Flags

/-!
# Numbers of several bytes

The CPU adds and subtracts bytes, and programs chain these operations through the carry, the lowest
byte first (`Cpu.chain`). A chain of additions gives the exact sum, with the carry above its highest
byte. Read in two's complement, only the highest byte has a sign, and overflow after the last
addition tells that the sum of the whole numbers does not fit.

Nothing has to be said of subtraction again: it is addition of the complement, flags included
(`Cpu.subtractWithCarry_eq`), and complementing every byte complements the number. A comparison is a
subtraction that keeps its flags only (`Cpu.compare_eq`).
-/

set_option autoImplicit false

namespace Nes

/-! ## Numbers -/

/-- The number that some bytes make, lowest first. -/
def numberOf (bytes : List UInt8) : Nat := Nat.ofDigits 256 (bytes.map UInt8.toNat)

/-- The number that some bytes make in two's complement. -/
def signedOf (bytes : List UInt8) : Int :=
  if 2 * numberOf bytes < 256 ^ bytes.length then numberOf bytes
  else numberOf bytes - (256 ^ bytes.length : Nat)

/-- A number has a place among the signed numbers of some bytes. -/
def FitsSigned (bytes : Nat) (value : Int) : Prop :=
  -2 ^ (8 * bytes - 1) ≤ value ∧ value ≤ 2 ^ (8 * bytes - 1) - 1

/-- The bytes with all their bits flipped. -/
def complement (bytes : List UInt8) : List UInt8 := bytes.map (· ^^^ 0xFF)

@[simp] theorem numberOf_nil : numberOf [] = 0 := rfl

theorem numberOf_cons (b : UInt8) (bytes : List UInt8) :
    numberOf (b :: bytes) = b.toNat + 256 * numberOf bytes :=
  Nat.ofDigits_cons ..

theorem numberOf_lt (bytes : List UInt8) : numberOf bytes < 256 ^ bytes.length := by
  have h : numberOf bytes < 256 ^ (bytes.map UInt8.toNat).length :=
    Nat.ofDigits_lt_base_pow_length (by decide) fun digit hdigit => by
      obtain ⟨b, -, rfl⟩ := List.mem_map.mp hdigit
      exact b.toNat_lt
  rwa [List.length_map] at h

/-- The highest bit is in the highest byte. -/
theorem testBit_numberOf_cons (b : UInt8) {bytes : List UInt8} (h : bytes ≠ []) :
    (numberOf (b :: bytes)).testBit (8 * (b :: bytes).length - 1) =
      (numberOf bytes).testBit (8 * bytes.length - 1) := by
  have hpos := List.length_pos_iff.mpr h
  have htop : 8 * (b :: bytes).length - 1 = 8 * bytes.length - 1 + 8 := by
    rw [List.length_cons]
    omega
  have hlow : ¬ 8 * bytes.length - 1 + 8 < 8 := by omega
  rw [numberOf_cons, Nat.add_comm, htop, show 256 = 2 ^ 8 from rfl,
    Nat.testBit_two_pow_mul_add _ b.toNat_lt, if_neg hlow, Nat.add_sub_cancel]

theorem signedOf_singleton (b : UInt8) :
    signedOf [b] = if b.toNat < 128 then (b.toNat : Int) else b.toNat - 256 := by
  have hnumber : numberOf [b] = b.toNat := numberOf_cons b []
  unfold signedOf
  rw [hnumber]
  show (if 2 * b.toNat < 256 then (b.toNat : Int) else b.toNat - 256) = _
  split <;> split <;> omega

/-- The sign is in the highest byte, so a byte below others adds what it is. -/
theorem signedOf_cons (b : UInt8) {bytes : List UInt8} (h : bytes ≠ []) :
    signedOf (b :: bytes) = b.toNat + 256 * signedOf bytes := by
  have hb := b.toNat_lt
  obtain ⟨n, hn⟩ := Nat.exists_eq_add_one.mpr (List.length_pos_iff.mpr h)
  have hpow : (256 : Nat) ^ (n + 1) = 256 * 256 ^ n := Nat.pow_succ'
  have hpow' : (256 : Nat) ^ (n + 1 + 1) = 256 * 256 ^ (n + 1) := Nat.pow_succ'
  unfold signedOf
  rw [numberOf_cons, List.length_cons, hn]
  -- half of the range is a multiple of the base, so the lower byte decides nothing
  split <;> split <;> omega

/-- A lower byte does not decide whether a number fits. -/
theorem fitsSigned_cons {n low : Nat} (hn : 0 < n) (hlow : low < 256) (high : Int) :
    FitsSigned (n + 1) (low + 256 * high) ↔ FitsSigned n high := by
  obtain ⟨k, hk⟩ : ∃ k, 8 * n - 1 = k := ⟨_, rfl⟩
  have hk' : 8 * (n + 1) - 1 = k + 8 := by omega
  unfold FitsSigned
  rw [hk, hk', pow_add]
  omega

theorem toNat_flipped (b : UInt8) : (b ^^^ 0xFF).toNat = 255 - b.toNat := by
  rw [show (0xFF : UInt8) = -1 from rfl, UInt8.xor_neg_one, UInt8.toNat_not]
  rfl

theorem length_complement (bytes : List UInt8) : (complement bytes).length = bytes.length :=
  List.length_map ..

theorem numberOf_complement (bytes : List UInt8) :
    numberOf (complement bytes) + numberOf bytes + 1 = 256 ^ bytes.length := by
  induction bytes with
  | nil => rfl
  | cons b bytes ih =>
      have hb := b.toNat_lt
      have hcons : complement (b :: bytes) = (b ^^^ 0xFF) :: complement bytes := rfl
      rw [hcons, numberOf_cons, numberOf_cons, toNat_flipped, List.length_cons, Nat.pow_succ', ← ih]
      omega

/-- In two's complement, flipping all bits is negation, less one. -/
theorem signedOf_complement (bytes : List UInt8) (h : bytes ≠ []) :
    signedOf (complement bytes) = -1 - signedOf bytes := by
  obtain ⟨n, hn⟩ := Nat.exists_eq_add_one.mpr (List.length_pos_iff.mpr h)
  have hsum := numberOf_complement bytes
  have hpow : (256 : Nat) ^ (n + 1) = 256 * 256 ^ n := Nat.pow_succ'
  unfold signedOf
  rw [length_complement]
  rw [hn] at hsum ⊢
  split <;> split <;> omega

namespace Cpu

variable (c : Cpu) (value : UInt8)

/-! ## One byte -/

theorem and_sign_ne_zero_iff (b : UInt8) : b &&& 0x80 ≠ 0 ↔ 128 ≤ b.toNat := by
  have hb := b.toNat_lt
  have hfield : (b &&& 0x80).toNat = b.toNat / 2 ^ 7 % 2 ^ 1 * 2 ^ 7 :=
    Byte.toNat_and_field b 1 7 (by decide)
  rw [Ne, ← UInt8.toNat_inj, hfield]
  show ¬ b.toNat / 128 % 2 * 128 = 0 ↔ _
  omega

/-- Two bytes have the same sign. -/
theorem xor_sign_eq_zero_iff (a b : UInt8) :
    (a ^^^ b) &&& 0x80 = 0 ↔ (128 ≤ a.toNat ↔ 128 ≤ b.toNat) := by
  have hbit : ∀ v : UInt8, v &&& 0x80 ≠ 0 ↔ v.toNat.testBit 7 = true := fun v =>
    Byte.and_ne_zero_iff v (by decide)
  rw [← not_iff_not, ← Ne, ← and_sign_ne_zero_iff, ← and_sign_ne_zero_iff, hbit, hbit, hbit,
    UInt8.toNat_xor, Nat.testBit_xor]
  cases a.toNat.testBit 7 <;> cases b.toNat.testBit 7 <;> decide

theorem carry_addWithCarry :
    (c.addWithCarry value).carry =
      if 0xFF < c.a.toNat + value.toNat + c.carry.toNat then 1 else 0 := by
  show (c.addWithCarry value).bits Status.carry = _
  rw [addWithCarry, bits_setFlag _ (by decide), bits_setFlag_self]
  simp only [decide_eq_true_iff]
  rfl

/-- **One addition is exact**: what does not fit into A is in the carry. -/
theorem toNat_addWithCarry :
    (c.addWithCarry value).a.toNat + 256 * (c.addWithCarry value).carry.toNat =
      c.a.toNat + value.toNat + c.carry.toNat := by
  have hresult : (c.addWithCarry value).a.toNat =
      ((c.a.toNat + value.toNat) % 256 + c.carry.toNat) % 256 := by
    show (c.a + value + c.carry).toNat = _
    rw [UInt8.toNat_add, UInt8.toNat_add]
  have ha := c.a.toNat_lt
  have hvalue := value.toNat_lt
  have hcarry := c.toNat_carry_le
  rw [hresult, carry_addWithCarry]
  split
  · show _ + 256 * 1 = _
    omega
  · show _ + 256 * 0 = _
    omega

theorem negative_addWithCarry :
    (c.addWithCarry value).flag Status.negative = (c.addWithCarry value).a.toNat.testBit 7 := by
  rw [addWithCarry, flag_setFlag _ (by decide), flag_setFlag _ (by decide), updateZN,
    flag_setFlag_self _ (by decide), Bool.eq_iff_iff, decide_eq_true_iff]
  exact Byte.and_ne_zero_iff _ (by decide)

/-- Overflow tells that the sum of the signed bytes does not fit into a byte. -/
theorem overflow_addWithCarry :
    (c.addWithCarry value).flag Status.overflow = true ↔
      ¬ FitsSigned 1 (signedOf [c.a] + signedOf [value] + c.carry.toNat) := by
  have hsum := c.toNat_addWithCarry value
  have ha := c.a.toNat_lt
  have hvalue := value.toNat_lt
  have hresult := (c.addWithCarry value).a.toNat_lt
  have hcarry := c.toNat_carry_le
  have hcarry' := (c.addWithCarry value).toNat_carry_le
  have hflag : (c.addWithCarry value).flag Status.overflow = true ↔
      (c.a ^^^ value) &&& 0x80 = 0 ∧ (c.a ^^^ (c.addWithCarry value).a) &&& 0x80 ≠ 0 := by
    rw [addWithCarry, flag_setFlag_self _ (by decide), decide_eq_true_iff]
    rfl
  have hfits : ∀ n : Int, FitsSigned 1 n ↔ -128 ≤ n ∧ n ≤ 127 := fun _ => Iff.rfl
  rw [hflag, hfits, Ne, xor_sign_eq_zero_iff, xor_sign_eq_zero_iff, signedOf_singleton,
    signedOf_singleton]
  split <;> split <;> omega

/-! ## Chains -/

/-- Goes through two numbers byte by byte, lowest first: loads each byte of the one into A and
works the byte of the other into it. Gives the bytes that A has held, and the CPU at the end. -/
def chain (f : Cpu → UInt8 → Cpu) (c : Cpu) : List UInt8 → List UInt8 → List UInt8 × Cpu
  | x :: xs, y :: ys =>
      let next := f (c.setA x) y
      let rest := chain f next xs ys
      (next.a :: rest.1, rest.2)
  | _, _ => ([], c)

theorem length_chain (f : Cpu → UInt8 → Cpu) (c : Cpu) {xs ys : List UInt8}
    (h : ys.length = xs.length) : (chain f c xs ys).1.length = xs.length := by
  induction xs generalizing c ys with
  | nil => rfl
  | cons x xs ih =>
      cases ys with
      | nil => cases h
      | cons y ys => exact congrArg (· + 1) (ih (f (c.setA x) y) (Nat.succ.inj h))

theorem carry_setA : (c.setA value).carry = c.carry := by
  show (c.setA value).bits Status.carry = c.bits Status.carry
  rw [setA, updateZN, bits_setFlag _ (by decide), bits_setFlag _ (by decide)]
  rfl

/-- The lowest byte of a chain of additions, and what it carries into the others. -/
theorem toNat_addWithCarry_setA (c : Cpu) (x y : UInt8) :
    ((c.setA x).addWithCarry y).a.toNat + 256 * ((c.setA x).addWithCarry y).carry.toNat =
      x.toNat + y.toNat + c.carry.toNat := by
  rw [toNat_addWithCarry, carry_setA]
  rfl

/-- **A chain of additions is exact**, with the carry above the highest byte. -/
theorem number_chain_add (c : Cpu) {xs ys : List UInt8} (h : ys.length = xs.length) :
    numberOf (chain addWithCarry c xs ys).1 +
        (chain addWithCarry c xs ys).2.carry.toNat * 256 ^ xs.length =
      numberOf xs + numberOf ys + c.carry.toNat := by
  induction xs generalizing c ys with
  | nil =>
      obtain rfl := List.length_eq_zero_iff.mp h
      simp [chain]
  | cons x xs ih =>
      cases ys with
      | nil => cases h
      | cons y ys =>
          have hbyte := c.toNat_addWithCarry_setA x y
          have hrest := ih ((c.setA x).addWithCarry y) (Nat.succ.inj h)
          rw [chain, numberOf_cons, numberOf_cons, numberOf_cons, List.length_cons, Nat.pow_succ',
            Nat.mul_left_comm]
          dsimp only
          omega

/-- After a chain of additions, negative is the highest bit of the sum. -/
theorem negative_chain_add (c : Cpu) {xs ys : List UInt8} (h : ys.length = xs.length)
    (hne : xs ≠ []) :
    (chain addWithCarry c xs ys).2.flag Status.negative =
      (numberOf (chain addWithCarry c xs ys).1).testBit (8 * xs.length - 1) := by
  induction xs generalizing c ys with
  | nil => exact absurd rfl hne
  | cons x xs ih =>
      cases ys with
      | nil => cases h
      | cons y ys =>
          have hrest := ih ((c.setA x).addWithCarry y) (Nat.succ.inj h)
          rw [chain]
          cases xs with
          | nil => exact (c.setA x).negative_addWithCarry y
          | cons x' xs' =>
              have hlength := length_chain addWithCarry ((c.setA x).addWithCarry y)
                (Nat.succ.inj h)
              have hnonempty : (chain addWithCarry ((c.setA x).addWithCarry y) (x' :: xs') ys).1 ≠
                  [] := List.ne_nil_of_length_pos (hlength ▸ Nat.succ_pos _)
              have htop := testBit_numberOf_cons ((c.setA x).addWithCarry y).a hnonempty
              rw [List.length_cons, hlength] at htop
              rw [List.length_cons, htop]
              exact hrest (List.cons_ne_nil _ _)

/-- After a chain of additions, overflow tells that the sum of the signed numbers does not fit. -/
theorem overflow_chain_add (c : Cpu) {xs ys : List UInt8} (h : ys.length = xs.length)
    (hne : xs ≠ []) :
    (chain addWithCarry c xs ys).2.flag Status.overflow = true ↔
      ¬ FitsSigned xs.length (signedOf xs + signedOf ys + c.carry.toNat) := by
  induction xs generalizing c ys with
  | nil => exact absurd rfl hne
  | cons x xs ih =>
      cases ys with
      | nil => cases h
      | cons y ys =>
          have hbyte := c.toNat_addWithCarry_setA x y
          have hresult := ((c.setA x).addWithCarry y).a.toNat_lt
          have hrest := ih ((c.setA x).addWithCarry y) (Nat.succ.inj h)
          cases xs with
          | nil =>
              obtain rfl := List.length_eq_zero_iff.mp (Nat.succ.inj h)
              have hlast := (c.setA x).overflow_addWithCarry y
              rw [carry_setA] at hlast
              exact hlast
          | cons x' xs' =>
              have hys : ys ≠ [] := by
                rintro rfl
                cases h
              have hxs : x' :: xs' ≠ [] := List.cons_ne_nil _ _
              -- the lowest byte is between 0 and 255, so whether the sum fits is up to the others
              have hsum : signedOf (x :: x' :: xs') + signedOf (y :: ys) + c.carry.toNat =
                  ((c.setA x).addWithCarry y).a.toNat + 256 * (signedOf (x' :: xs') + signedOf ys +
                    ((c.setA x).addWithCarry y).carry.toNat) := by
                rw [signedOf_cons x hxs, signedOf_cons y hys]
                omega
              rw [hsum, List.length_cons, fitsSigned_cons (List.length_pos_iff.mpr hxs) hresult]
              exact hrest hxs

/-! ## Subtraction and comparison -/

/-- **Subtraction is addition of the flipped byte**, with all its flags. -/
theorem subtractWithCarry_eq : c.subtractWithCarry value = c.addWithCarry (value ^^^ 0xFF) := by
  have ha := c.a.toNat_lt
  have hvalue := value.toNat_lt
  have hcarry := c.toNat_carry_le
  have hflipped := toNat_flipped value
  have hresult : c.a - value - (1 - c.carry) = c.a + (value ^^^ 0xFF) + c.carry := by
    have hone : (1 : UInt8).toNat = 1 := rfl
    refine UInt8.toNat_inj.mp ?_
    rw [UInt8.toNat_sub, UInt8.toNat_sub, UInt8.toNat_sub, UInt8.toNat_add, UInt8.toNat_add, hone,
      hflipped]
    omega
  have hborrow : value.toNat + (1 - c.carry.toNat) ≤ c.a.toNat ↔
      0xFF < c.a.toNat + (value ^^^ 0xFF).toNat + c.carry.toNat := by
    omega
  have hsigns : (c.a ^^^ value) &&& 0x80 ≠ 0 ↔ (c.a ^^^ (value ^^^ 0xFF)) &&& 0x80 = 0 := by
    rw [Ne, xor_sign_eq_zero_iff, xor_sign_eq_zero_iff]
    omega
  unfold subtractWithCarry addWithCarry
  simp only [hresult, hborrow, hsigns]

theorem chain_subtractWithCarry (c : Cpu) (xs ys : List UInt8) :
    chain subtractWithCarry c xs ys = chain addWithCarry c xs (complement ys) := by
  induction xs generalizing c ys with
  | nil => rfl
  | cons x xs ih =>
      cases ys with
      | nil => rfl
      | cons y ys =>
          have hcons : complement (y :: ys) = (y ^^^ 0xFF) :: complement ys := rfl
          rw [hcons, chain, chain, subtractWithCarry_eq, ih]

/-- The flags that a comparison sets. -/
def compared : UInt8 := Status.carry ||| Status.zero ||| Status.negative

/-- The status byte has some of its bits under a mask, the others under its complement. -/
theorem bits_not_or_bits (mask : UInt8) : c.bits (~~~mask) ||| c.bits mask = c.p := by
  refine UInt8.toBitVec_inj.mp (BitVec.eq_of_getElem_eq fun i hi => ?_)
  simp only [bits, UInt8.toBitVec_or, UInt8.toBitVec_and, UInt8.toBitVec_not, BitVec.getElem_or,
    BitVec.getElem_and, BitVec.getElem_not]
  cases mask.toBitVec[i] <;> simp

theorem bits_or (mask other : UInt8) : c.bits (mask ||| other) = c.bits mask ||| c.bits other := by
  refine UInt8.toBitVec_inj.mp (BitVec.eq_of_getElem_eq fun i hi => ?_)
  simp only [bits, UInt8.toBitVec_or, UInt8.toBitVec_and, BitVec.getElem_or, BitVec.getElem_and,
    Bool.and_or_distrib_left]

/-- The flags of a comparison follow from the difference and the carry alone. -/
theorem bits_compared (c c' : Cpu) (result : UInt8) (on : Bool) :
    ((c.updateZN result).setFlag Status.carry on).bits compared =
      ((c'.updateZN result).setFlag Status.carry on).bits compared := by
  have heach : ∀ c : Cpu, ((c.updateZN result).setFlag Status.carry on).bits compared =
      (if on then Status.carry else 0) |||
        (if decide (result = 0) then Status.zero else 0) |||
        (if decide (result &&& 0x80 ≠ 0) then Status.negative else 0) := by
    intro c
    rw [compared, bits_or, bits_or, bits_setFlag_self, bits_setFlag _ (by decide),
      bits_setFlag _ (by decide), updateZN, bits_setFlag_self, bits_setFlag _ (by decide),
      bits_setFlag_self]
  rw [heach, heach]

/-- **A comparison subtracts with the carry set**, and keeps the carry, zero and negative only. -/
theorem compare_eq (left right : UInt8) :
    c.compare left right = { c with
      p := c.bits (~~~compared) |||
        ((({ c with a := left }).setFlag Status.carry true).subtractWithCarry right).bits
          compared } := by
  -- named, so that the subtraction can be unfolded without it
  obtain ⟨start, hstart⟩ : ∃ start, ({ c with a := left }).setFlag Status.carry true = start :=
    ⟨_, rfl⟩
  have hcarry : start.carry = 1 := by
    rw [← hstart]
    exact bits_setFlag_self ..
  have ha : start.a = left := by
    rw [← hstart]
    rfl
  have hresult : left - right - (1 - (1 : UInt8)) = left - right := UInt8.sub_zero _
  have hborrow : right.toNat + (1 - (1 : UInt8).toNat) ≤ left.toNat ↔ right ≤ left := Iff.rfl
  have hflags : (start.subtractWithCarry right).bits compared =
      (c.compare left right).bits compared := by
    rw [subtractWithCarry, bits_setFlag _ (by decide), hcarry, ha, hresult]
    simp only [hborrow]
    exact bits_compared ..
  have hrest : (c.compare left right).bits (~~~compared) = c.bits (~~~compared) := by
    rw [Cpu.compare, updateZN, bits_setFlag _ (by decide), bits_setFlag _ (by decide),
      bits_setFlag _ (by decide)]
  calc c.compare left right = { c with p := (c.compare left right).p } := rfl
    _ = _ := by rw [hstart, hflags, ← hrest, bits_not_or_bits]

/-! ## Both operations over numbers -/

/-- What a chain of additions computes: the sum with the carry above it, its highest bit as
negative, and overflow when the signed sum does not fit. -/
structure ExactSum (c : Cpu) (xs ys : List UInt8) : Prop where
  /-- Each byte of the numbers gives one of the result. -/
  length : (chain addWithCarry c xs ys).1.length = xs.length
  /-- What does not fit is in the carry. -/
  number : numberOf (chain addWithCarry c xs ys).1 +
      (chain addWithCarry c xs ys).2.carry.toNat * 256 ^ xs.length =
    numberOf xs + numberOf ys + c.carry.toNat
  /-- Negative is the highest bit. -/
  negative : (chain addWithCarry c xs ys).2.flag Status.negative =
    (numberOf (chain addWithCarry c xs ys).1).testBit (8 * xs.length - 1)
  /-- Overflow is about the signed numbers. -/
  overflow : (chain addWithCarry c xs ys).2.flag Status.overflow = true ↔
    ¬ FitsSigned xs.length (signedOf xs + signedOf ys + c.carry.toNat)

/-- What a chain of subtractions computes: the difference, less one if the carry was clear, in the
range of its bytes. The carry stays set when the first number is not the smaller. -/
structure ExactDifference (c : Cpu) (xs ys : List UInt8) : Prop where
  /-- Each byte of the numbers gives one of the result. -/
  length : (chain subtractWithCarry c xs ys).1.length = xs.length
  /-- The difference wraps. -/
  number : (numberOf (chain subtractWithCarry c xs ys).1 : Int) =
    (numberOf xs - numberOf ys - (1 - c.carry.toNat)) % 256 ^ xs.length
  /-- A clear carry tells that the difference has wrapped. -/
  carry : (chain subtractWithCarry c xs ys).2.carry =
    if numberOf ys + (1 - c.carry.toNat) ≤ numberOf xs then 1 else 0
  /-- Negative is the highest bit. -/
  negative : (chain subtractWithCarry c xs ys).2.flag Status.negative =
    (numberOf (chain subtractWithCarry c xs ys).1).testBit (8 * xs.length - 1)
  /-- Overflow is about the signed numbers. -/
  overflow : (chain subtractWithCarry c xs ys).2.flag Status.overflow = true ↔
    ¬ FitsSigned xs.length (signedOf xs - signedOf ys - (1 - c.carry.toNat))

section Chains

variable {xs ys : List UInt8} (hne : xs ≠ []) (hlength : ys.length = xs.length)
include hne hlength

theorem exactSum (c : Cpu) : c.ExactSum xs ys where
  length := length_chain _ _ hlength
  number := c.number_chain_add hlength
  negative := c.negative_chain_add hlength hne
  overflow := c.overflow_chain_add hlength hne

theorem exactDifference (c : Cpu) : c.ExactDifference xs ys := by
  have hys : ys ≠ [] := List.ne_nil_of_length_pos (hlength ▸ List.length_pos_iff.mpr hne)
  have hflipped : (complement ys).length = xs.length := (length_complement ys).trans hlength
  have hcarry := c.toNat_carry_le
  have hcarry' := (chain addWithCarry c xs (complement ys)).2.toNat_carry_le
  have hsum := c.exactSum hne hflipped
  have hresult := numberOf_lt (chain addWithCarry c xs (complement ys)).1
  have hnumber := hsum.number
  have hcomplement := numberOf_complement ys
  rw [hsum.length] at hresult
  rw [hlength] at hcomplement
  refine ⟨?length, ?number, ?carry, ?negative, ?overflow⟩
  all_goals rw [chain_subtractWithCarry]
  case length => exact hsum.length
  case number =>
    have hpow : (256 : Int) ^ xs.length = (256 ^ xs.length : Nat) := by norm_cast
    have hwrap : (numberOf xs - numberOf ys - (1 - c.carry.toNat) : Int) =
        numberOf (chain addWithCarry c xs (complement ys)).1 + 256 ^ xs.length *
          ((chain addWithCarry c xs (complement ys)).2.carry.toNat - 1) := by
      rw [hpow]
      obtain hzero | hone := Nat.le_one_iff_eq_zero_or_eq_one.mp hcarry'
      · rw [hzero] at hnumber ⊢
        omega
      · rw [hone] at hnumber ⊢
        omega
    rw [hwrap, Int.add_mul_emod_self_left, hpow, Int.emod_eq_of_lt (by omega) (by omega)]
  case carry =>
    refine UInt8.toNat_inj.mp ?_
    obtain hzero | hone := Nat.le_one_iff_eq_zero_or_eq_one.mp hcarry'
    · rw [hzero] at hnumber ⊢
      rw [if_neg (by omega)]
      rfl
    · rw [hone] at hnumber ⊢
      rw [if_pos (by omega)]
      rfl
  case negative => exact hsum.negative
  case overflow =>
    have hvalue : signedOf xs + (-1 - signedOf ys) + c.carry.toNat =
        signedOf xs - signedOf ys - (1 - c.carry.toNat) := by
      ring
    rw [hsum.overflow, signedOf_complement ys hys, hvalue]

end Chains

/-- **Addition and subtraction of numbers of any length are exact**, in every state of the CPU, so
whatever the decimal bit says. They are one operation, and a comparison is a subtraction with the
carry set that changes the carry, zero and negative only. -/
theorem long_arithmetic (c : Cpu) :
    (∀ xs ys : List UInt8, xs ≠ [] → ys.length = xs.length →
      c.ExactSum xs ys ∧ c.ExactDifference xs ys) ∧
    (∀ value, c.subtractWithCarry value = c.addWithCarry (value ^^^ 0xFF)) ∧
    ∀ left right, c.compare left right = { c with
      p := c.bits (~~~compared) |||
        ((({ c with a := left }).setFlag Status.carry true).subtractWithCarry right).bits
          compared } :=
  ⟨fun _ _ hne hlength => ⟨c.exactSum hne hlength, c.exactDifference hne hlength⟩,
    c.subtractWithCarry_eq, c.compare_eq⟩

/-- With the carry set, 0x80FF and 0x0001 give 0x8101 and 0x80FE. -/
theorem long_arithmetic_two_bytes :
    let c := powerOn.setFlag Status.carry true
    [0xFF, 0x80] ≠ ([] : List UInt8) ∧ c.ExactSum [0xFF, 0x80] [0x01, 0x00] ∧
      c.ExactDifference [0xFF, 0x80] [0x01, 0x00] ∧
      (chain addWithCarry c [0xFF, 0x80] [0x01, 0x00]).1 = [0x01, 0x81] ∧
      (chain subtractWithCarry c [0xFF, 0x80] [0x01, 0x00]).1 = [0xFE, 0x80] := by
  have hne : [0xFF, 0x80] ≠ ([] : List UInt8) := List.cons_ne_nil _ _
  have hexact := (long_arithmetic (powerOn.setFlag Status.carry true)).1
    [0xFF, 0x80] [0x01, 0x00] hne rfl
  exact ⟨hne, hexact.1, hexact.2, by decide, by decide⟩

end Cpu

end Nes
