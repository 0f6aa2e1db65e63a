import Nes.Ppu.Pattern
import Nes.Ppu.Vram

/-!
# The digits of a row

A decoded row holds in each digit the palette group and the two bits that the planes have at the
place of the column. The spreading of a byte is checked on all bytes; everything else about rows
follows from it, since a digit of a combination of words is the combination of the digits.
-/

set_option autoImplicit false

namespace Nes

/-! ## Bytes of the planes -/

/-- A byte of the shapes of tiles, 0 where the cartridge has none. -/
def chrByte {μ : Type} [Board μ] (board : μ) (address : Nat) : UInt8 :=
  (Board.ppuRead board (UInt16.ofNat address)).getD 0

/-- Below 2000 picture memory is the cartridge. -/
theorem Vram.read_of_lt {μ : Type} [Board μ] (s : Vram) (board : μ) {addr : UInt16}
    (h : addr.toNat < 0x2000) : s.read board addr = Board.ppuRead board addr := by
  have hmod : addr % 0x4000 = addr := by
    apply UInt16.toNat_inj.mp
    rw [UInt16.toNat_mod]
    exact Nat.mod_eq_of_lt (Nat.lt_trans h (by decide))
  have hlt : addr < 0x2000 := UInt16.lt_iff_toNat_lt.mpr h
  rw [read, hmod]
  exact if_pos hlt

theorem Vram.eq_chrByte_of_read {μ : Type} [Board μ] {s : Vram} {board : μ} {addr : UInt16}
    {value : UInt8} (h : addr.toNat < 0x2000) (hr : s.read board addr = some value) :
    value = chrByte board addr.toNat := by
  rw [s.read_of_lt board h] at hr
  rw [chrByte, UInt16.ofNat_toNat, hr]
  rfl

namespace Pattern

/-- The number that the two planes have at a place. -/
def bitPair (low high : UInt8) (place : Nat) : Nat :=
  (low.toNat.testBit place).toNat + 2 * (high.toNat.testBit place).toNat

/-! ## Digits -/

theorem digit_or (a b column : UInt32) :
    digit (a ||| b) column = digit a column ||| digit b column := by
  have hmask : ∀ x y : UInt32, (x ||| y) &&& 0x0F = (x &&& 0x0F) ||| (y &&& 0x0F) := fun x y =>
    UInt32.toBitVec_inj.mp BitVec.and_or_distrib_right
  rw [digit, UInt32.shiftRight_or, hmask, UInt32.toUInt8_or]
  rfl

/-- The two places of a plane in a row, over all bytes. -/
theorem digit_spread_table : ∀ b : Fin 256, ∀ k : Fin 8,
    digit (spread (UInt8.ofNat b)) (UInt32.ofNat k) = UInt8.ofNat (b.val.testBit (7 - k)).toNat ∧
      digit (spread (UInt8.ofNat b) <<< 1) (UInt32.ofNat k) =
        UInt8.ofNat (2 * (b.val.testBit (7 - k)).toNat) := by
  decide +kernel

theorem digit_spread (b : UInt8) {k : Nat} (hk : k < 8) :
    digit (spread b) (UInt32.ofNat k) = UInt8.ofNat (b.toNat.testBit (7 - k)).toNat ∧
      digit (spread b <<< 1) (UInt32.ofNat k) =
        UInt8.ofNat (2 * (b.toNat.testBit (7 - k)).toNat) := by
  have h := digit_spread_table ⟨b.toNat, b.toNat_lt⟩ ⟨k, hk⟩
  rwa [UInt8.ofNat_toNat] at h

/-- The palette group is in every digit. -/
theorem digit_group : ∀ group : Fin 4, ∀ k : Fin 8,
    digit ((UInt8.ofNat group <<< 2).toUInt32 * 0x11111111) (UInt32.ofNat k) =
      UInt8.ofNat (4 * group) := by
  decide +kernel

theorem toNat_join : ∀ (group : Fin 4) (low high : Bool),
    (UInt8.ofNat (4 * group) ||| UInt8.ofNat low.toNat ||| UInt8.ofNat (2 * high.toNat)).toNat =
      4 * group + (low.toNat + 2 * high.toNat) := by
  decide +kernel

/-- **A digit of a row** is the number of its group and its plane bits. -/
theorem digit_row (group low high : UInt8) {k : Nat} (hk : k < 8) :
    (digit (row ((group &&& 3) <<< 2) low high) (UInt32.ofNat k)).toNat =
      4 * (group.toNat % 4) + bitPair low high (7 - k) := by
  have hg : group &&& 3 = UInt8.ofNat (group.toNat % 4) := by
    apply UInt8.toNat_inj.mp
    rw [UInt8.toNat_and, UInt8.toNat_ofNat_of_lt' (Nat.lt_of_lt_of_le (Nat.mod_lt _ (by decide))
      (by decide))]
    exact Nat.and_two_pow_sub_one_eq_mod group.toNat 2
  -- a digit of the three words joined is the three digits joined
  have hgroup := digit_group ⟨group.toNat % 4, Nat.mod_lt _ (by decide)⟩ ⟨k, hk⟩
  obtain ⟨hlow, -⟩ := digit_spread low hk
  obtain ⟨-, hhigh⟩ := digit_spread high hk
  rw [hg, row, digit_or, digit_or, hlow, hhigh, hgroup]
  exact toNat_join ⟨group.toNat % 4, Nat.mod_lt _ (by decide)⟩ _ _

theorem digit_lt (word column : UInt32) : (digit word column).toNat < 16 := by
  have h : (word >>> ((7 - column) * 4) &&& 0x0F).toNat ≤ 0x0F := by
    rw [UInt32.toNat_and]
    exact Nat.and_le_right
  rw [digit, UInt32.toNat_toUInt8]
  omega

theorem opaquePixel_eq (colour : UInt8) : opaquePixel colour = decide (colour.toNat % 4 ≠ 0) := by
  have h : colour % 4 = 0 ↔ colour.toNat % 4 = 0 := by
    rw [← UInt8.toNat_inj, UInt8.toNat_mod]
    rfl
  exact decide_eq_decide.mpr (not_congr h)

/-! ## Reversed rows -/

theorem testBit_reverse_table : ∀ b : Fin 256, ∀ place : Fin 8,
    (reverse (UInt8.ofNat b)).toNat.testBit place = b.val.testBit (7 - place) := by
  decide +kernel

theorem testBit_reverse (b : UInt8) {place : Nat} (h : place < 8) :
    (reverse b).toNat.testBit place = b.toNat.testBit (7 - place) := by
  have ht := testBit_reverse_table ⟨b.toNat, b.toNat_lt⟩ ⟨place, h⟩
  rwa [UInt8.ofNat_toNat] at ht

theorem bitPair_reverse (low high : UInt8) {place : Nat} (h : place < 8) :
    bitPair (reverse low) (reverse high) place = bitPair low high (7 - place) := by
  rw [bitPair, testBit_reverse low h, testBit_reverse high h, bitPair]

end Pattern

end Nes
