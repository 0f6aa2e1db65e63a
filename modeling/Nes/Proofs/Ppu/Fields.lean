import Mathlib.Algebra.Group.Nat.Defs
import Nes.Memory.Bus

/-!
# Bit fields as arithmetic

Masks and shifts of bytes and words, said with division and remainder, so that a field of a register
can be followed by linear arithmetic.
-/

set_option autoImplicit false

namespace Nes

/-! ## Numbers -/

/-- A mask of `n` bits from bit `k` on leaves the field at its place. -/
theorem and_field (x n k : Nat) : x &&& ((2 ^ n - 1) * 2 ^ k) = x / 2 ^ k % 2 ^ n * 2 ^ k := by
  apply Nat.eq_of_testBit_eq
  intro i
  rw [Nat.testBit_and, Nat.testBit_mul_two_pow, Nat.testBit_mul_two_pow, Nat.testBit_mod_two_pow,
    Nat.testBit_div_two_pow, Nat.testBit_two_pow_sub_one]
  by_cases h : k ≤ i
  · simp [h, Bool.and_comm]
  · simp [h]

/-! ## Bytes -/

namespace Byte

theorem toNat_and_field (b : UInt8) (n k : Nat) {m : UInt8} (h : m.toNat = (2 ^ n - 1) * 2 ^ k) :
    (b &&& m).toNat = b.toNat / 2 ^ k % 2 ^ n * 2 ^ k := by
  rw [UInt8.toNat_and, h, and_field]

theorem toNat_and_low (b : UInt8) (n : Nat) {m : UInt8} (h : m.toNat = 2 ^ n - 1) :
    (b &&& m).toNat = b.toNat % 2 ^ n := by
  rw [UInt8.toNat_and, h, Nat.and_two_pow_sub_one_eq_mod]

/-- A mask of one bit finds it set or not. -/
theorem and_ne_zero_iff (b : UInt8) {m : UInt8} {k : Nat} (h : m.toNat = 2 ^ k) :
    b &&& m ≠ 0 ↔ b.toNat.testBit k = true := by
  have hfield : (b &&& m).toNat = b.toNat / 2 ^ k % 2 ^ 1 * 2 ^ k :=
    toNat_and_field b 1 k (by omega)
  have hpos : 0 < 2 ^ k := Nat.two_pow_pos k
  rw [Nat.testBit_eq_decide_div_mod_eq, decide_eq_true_iff, Ne, ← UInt8.toNat_inj, hfield]
  show ¬ b.toNat / 2 ^ k % 2 * 2 ^ k = 0 ↔ _
  rcases Nat.mod_two_eq_zero_or_one (b.toNat / 2 ^ k) with h0 | h1
  · simp [h0]
  · simp [h1]

theorem testBit_set (b : UInt8) {m : UInt8} {k : Nat} (h : m.toNat = 2 ^ k) :
    (b ||| m).toNat.testBit k = true := by
  rw [UInt8.toNat_or, Nat.testBit_or, h, Nat.testBit_two_pow_self, Bool.or_true]

theorem testBit_clear (b : UInt8) {m : UInt8} {k : Nat} (h : m.toNat = 2 ^ k) :
    (b &&& ~~~m).toNat.testBit k = false := by
  rw [Bool.eq_false_iff, Ne, ← and_ne_zero_iff _ h, UInt8.and_assoc, UInt8.not_and_self,
    UInt8.and_zero]
  exact fun hne => hne rfl

/-- Setting bits leaves other bits alone. -/
theorem or_and_of_disjoint (b : UInt8) {m k : UInt8} (h : m &&& k = 0) :
    (b ||| m) &&& k = b &&& k := by
  have hsplit : (b ||| m) &&& k = (b &&& k) ||| (m &&& k) :=
    UInt8.toBitVec_inj.mp BitVec.and_or_distrib_right
  rw [hsplit, h, UInt8.or_zero]

/-- Clearing bits does so, too. -/
theorem and_not_and_of_disjoint (b : UInt8) {m k : UInt8} (h : m &&& k = 0) :
    (b &&& ~~~m) &&& k = b &&& k := by
  have hkept : ~~~m &&& k = k := by
    rw [← or_and_of_disjoint (~~~m) h, UInt8.not_or_self, UInt8.neg_one_and]
  rw [UInt8.and_assoc, hkept]

end Byte

/-! ## Words -/

namespace Word

theorem toNat_and_field (w : UInt16) (n k : Nat) {m : UInt16} (h : m.toNat = (2 ^ n - 1) * 2 ^ k) :
    (w &&& m).toNat = w.toNat / 2 ^ k % 2 ^ n * 2 ^ k := by
  rw [UInt16.toNat_and, h, and_field]

theorem toNat_and_low (w : UInt16) (n : Nat) {m : UInt16} (h : m.toNat = 2 ^ n - 1) :
    (w &&& m).toNat = w.toNat % 2 ^ n := by
  rw [UInt16.toNat_and, h, Nat.and_two_pow_sub_one_eq_mod]

theorem toNat_shiftRight (w : UInt16) {k : UInt16} (h : k.toNat < 16) :
    (w >>> k).toNat = w.toNat / 2 ^ k.toNat := by
  rw [UInt16.toNat_shiftRight, Nat.mod_eq_of_lt h, Nat.shiftRight_eq_div_pow]

/-- Words without a common bit join as their sum. -/
theorem toNat_or_of_and_eq_zero {x y : UInt16} (h : x &&& y = 0) :
    (x ||| y).toNat = x.toNat + y.toNat := by
  have hand : x.toBitVec &&& y.toBitVec = 0#16 := UInt16.toBitVec_inj.mpr h
  rw [← UInt16.toNat_toBitVec, UInt16.toBitVec_or, ← BitVec.add_eq_or_of_and_eq_zero _ _ hand,
    BitVec.toNat_add_of_and_eq_zero hand]
  rfl

theorem and_and_not_self (x m y : UInt16) : (x &&& ~~~m) &&& (y &&& m) = 0 := by
  apply UInt16.toBitVec_inj.mp
  apply BitVec.eq_of_getElem_eq
  intro i hi
  cases hm : m.toBitVec[i] <;> simp [hm]

/-- What is left of a word without the bits of a mask. -/
theorem toNat_and_not (w m : UInt16) : (w &&& ~~~m).toNat + (w &&& m).toNat = w.toNat := by
  rw [← toNat_or_of_and_eq_zero (and_and_not_self w m w)]
  apply congrArg UInt16.toNat
  apply UInt16.toBitVec_inj.mp
  apply BitVec.eq_of_getElem_eq
  intro i hi
  cases hm : m.toBitVec[i] <;> simp [hm]

/-- Clearing the bits of a mask takes their value away. -/
theorem toNat_clear (w m : UInt16) : (w &&& ~~~m).toNat = w.toNat - (w &&& m).toNat := by
  have h := toNat_and_not w m
  omega

/-- A mask of two parts picks out the sum of what they pick out. -/
theorem toNat_and_or (w : UInt16) {m m' : UInt16} (h : m &&& m' = 0) :
    (w &&& (m ||| m')).toNat = (w &&& m).toNat + (w &&& m').toNat := by
  have hdisjoint : (w &&& m) &&& (w &&& m') = 0 := by
    have hand : m.toBitVec &&& m'.toBitVec = 0#16 := UInt16.toBitVec_inj.mpr h
    apply UInt16.toBitVec_inj.mp
    show (w.toBitVec &&& m.toBitVec) &&& (w.toBitVec &&& m'.toBitVec) = 0#16
    rw [BitVec.and_assoc, BitVec.and_comm m.toBitVec, BitVec.and_assoc, BitVec.and_comm m'.toBitVec,
      hand, BitVec.and_zero, BitVec.and_zero]
  have hjoin : w &&& (m ||| m') = (w &&& m) ||| (w &&& m') :=
    UInt16.toBitVec_inj.mp BitVec.and_or_distrib_left
  rw [hjoin, toNat_or_of_and_eq_zero hdisjoint]

/-- Switching one bit adds or takes away its value. -/
theorem toNat_xor_bit (w : UInt16) (k : Nat) {m : UInt16} (h : m.toNat = 2 ^ k) :
    (w ^^^ m).toNat =
      if w.toNat / 2 ^ k % 2 = 1 then w.toNat - 2 ^ k else w.toNat + 2 ^ k := by
  have hfield : (w &&& m).toNat = w.toNat / 2 ^ k % 2 * 2 ^ k :=
    toNat_and_field w 1 k (by omega)
  split
  · next hbit =>
      -- the bit is set, so switching it is clearing it
      have hand : w &&& m = m := by
        apply UInt16.toNat_inj.mp
        rw [hfield, hbit, h, Nat.one_mul]
      have hxor : w ^^^ m = w &&& ~~~m := by
        conv => lhs; rw [← hand]
        apply UInt16.toBitVec_inj.mp
        apply BitVec.eq_of_getElem_eq
        intro i hi
        cases hm : m.toBitVec[i] <;> simp [hm]
      rw [hxor, toNat_clear, hand, h]
  · next hbit =>
      have hand : w &&& m = 0 := by
        apply UInt16.toNat_inj.mp
        rw [hfield, (by omega : w.toNat / 2 ^ k % 2 = 0), Nat.zero_mul]
        rfl
      have hxor : w ^^^ m = w ||| m := by
        apply UInt16.toBitVec_inj.mp
        apply BitVec.eq_of_getElem_eq
        intro i hi
        have hi' : (w &&& m).toBitVec[i] = false := by simp [hand]
        rw [UInt16.toBitVec_and, BitVec.getElem_and] at hi'
        rw [UInt16.toBitVec_xor, UInt16.toBitVec_or, BitVec.getElem_xor, BitVec.getElem_or]
        cases hw : w.toBitVec[i] <;> cases hm : m.toBitVec[i] <;> simp_all
      rw [hxor, toNat_or_of_and_eq_zero hand, h]

end Word

/-! ## Words made of bytes -/

theorem toNat_wordOf (low high : UInt8) :
    (wordOf low high).toNat = low.toNat + 256 * high.toNat := by
  have hhigh : (high.toUInt16 <<< 8).toNat = 2 ^ 8 * high.toNat := by
    have hlt := high.toNat_lt
    rw [UInt16.toNat_shiftLeft, UInt8.toNat_toUInt16, Nat.shiftLeft_eq]
    show high.toNat * 2 ^ 8 % 2 ^ 16 = 2 ^ 8 * high.toNat
    omega
  rw [wordOf, UInt16.toNat_or, hhigh, UInt8.toNat_toUInt16,
    ← Nat.two_pow_add_eq_or_of_lt low.toNat_lt, Nat.add_comm]

theorem toUInt8_wordOf (low high : UInt8) : (wordOf low high).toUInt8 = low := by
  have hlow := low.toNat_lt
  apply UInt8.toNat_inj.mp
  rw [UInt16.toNat_toUInt8, toNat_wordOf]
  omega

theorem toUInt8_wordOf_shiftRight (low high : UInt8) : (wordOf low high >>> 8).toUInt8 = high := by
  have hlow := low.toNat_lt
  have hhigh := high.toNat_lt
  have hshift : (wordOf low high >>> 8).toNat = (wordOf low high).toNat / 256 :=
    Word.toNat_shiftRight _ (by decide)
  apply UInt8.toNat_inj.mp
  rw [UInt16.toNat_toUInt8, hshift, toNat_wordOf]
  omega

/-- A word is made of its bytes. -/
theorem wordOf_bytes (w : UInt16) : wordOf w.toUInt8 (w >>> 8).toUInt8 = w := by
  have hw := w.toNat_lt
  have hshift : (w >>> 8).toNat = w.toNat / 256 := Word.toNat_shiftRight w (by decide)
  apply UInt16.toNat_inj.mp
  rw [toNat_wordOf, UInt16.toNat_toUInt8, UInt16.toNat_toUInt8, hshift]
  omega

end Nes
