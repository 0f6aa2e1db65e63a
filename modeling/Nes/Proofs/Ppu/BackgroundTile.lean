import Nes.Ppu.Step
import Nes.Proofs.Ppu.PatternRow
import Nes.Proofs.Ppu.ScrollAddress

/-!
# The plane of the nametables

The four nametables together are a picture of 512 by 480 pixels (`Ppu.planePixel`). At a place of it
the fetch cycle reads the tile, its palette group and a row of its shape; decoded, these eight
pixels are the ones of the picture (`digit_fetchedRow`).
-/

set_option autoImplicit false

namespace Nes

namespace Background

/-! ## Addresses of a place -/

theorem toNat_tileAddress (column row : Nat) :
    (tileAddress (Scroll.address column row)).toNat =
      0x2000 + 0x400 * (2 * (row / 240 % 2) + column / 32 % 2) + 32 * (row / 8 % 30)
        + column % 32 := by
  obtain ⟨hcolumn, hrow, hright, hbelow, -, -⟩ := Scroll.fields_address column row
  have hlow : (Scroll.address column row &&& 0x0FFF).toNat =
      (Scroll.address column row).toNat % 4096 := Word.toNat_and_low _ 12 rfl
  have hor : ∀ n : Nat, n < 4096 → 0x2000 ||| n = 0x2000 + n := fun n hn =>
    (Nat.two_pow_add_eq_or_of_lt (i := 13) (by omega) 1).symm
  rw [tileAddress, UInt16.toNat_or, hlow]
  show 0x2000 ||| _ = _
  rw [hor _ (Nat.mod_lt _ (by decide))]
  omega

theorem toNat_attributeAddress (column row : Nat) :
    (attributeAddress (Scroll.address column row)).toNat =
      0x23C0 + 0x400 * (2 * (row / 240 % 2) + column / 32 % 2) + 8 * (row / 8 % 30 / 4)
        + column % 32 / 4 := by
  obtain ⟨hcolumn, hrow, hright, hbelow, -, -⟩ := Scroll.fields_address column row
  generalize Scroll.address column row = v at *
  have htable : (v &&& 0x0C00).toNat = v.toNat / 1024 % 4 * 1024 := Word.toNat_and_field v 2 10 rfl
  have hsquare : ((v >>> 4) &&& 0x38).toNat = v.toNat / 128 % 8 * 8 := by
    have h : ((v >>> 4) &&& 0x38).toNat = (v >>> 4).toNat / 8 % 8 * 8 :=
      Word.toNat_and_field _ 3 3 rfl
    rw [h, Word.toNat_shiftRight v (by decide)]
    show v.toNat / 16 / 8 % 8 * 8 = _
    rw [Nat.div_div_eq_div_mul]
  have hplace : ((v >>> 2) &&& 0x07).toNat = v.toNat / 4 % 8 := by
    have h : ((v >>> 2) &&& 0x07).toNat = (v >>> 2).toNat % 8 := Word.toNat_and_low _ 3 rfl
    rw [h, Word.toNat_shiftRight v (by decide)]
    rfl
  have hor₁ : ∀ n : Nat, n < 4 → 0x23C0 ||| n * 1024 = 0x23C0 + n * 1024 := by decide
  have hor₂ : ∀ n m : Nat, m < 8 → (0x23C0 + n * 1024) ||| m * 8 = 0x23C0 + n * 1024 + m * 8 := by
    intro n m hm
    have h := Nat.two_pow_add_eq_or_of_lt (i := 6) (b := m * 8) (by omega) (143 + n * 16)
    have hlhs : 2 ^ 6 * (143 + n * 16) = 0x23C0 + n * 1024 := by omega
    rw [hlhs] at h
    exact h.symm
  have hor₃ : ∀ n m k : Nat, k < 8 →
      (0x23C0 + n * 1024 + m * 8) ||| k = 0x23C0 + n * 1024 + m * 8 + k := by
    intro n m k hk
    have h := Nat.two_pow_add_eq_or_of_lt (i := 3) (b := k) (by omega) (1144 + n * 128 + m)
    have hlhs : 2 ^ 3 * (1144 + n * 128 + m) = 0x23C0 + n * 1024 + m * 8 := by omega
    rw [hlhs] at h
    exact h.symm
  unfold attributeAddress
  dsimp only
  rw [UInt16.toNat_or, UInt16.toNat_or, UInt16.toNat_or, htable, hsquare, hplace]
  show ((0x23C0 ||| _) ||| _) ||| _ = _
  rw [hor₁ _ (Nat.mod_lt _ (by decide)), hor₂ _ _ (Nat.mod_lt _ (by decide)),
    hor₃ _ _ _ (Nat.mod_lt _ (by decide))]
  -- the fields of the address, without the bits it drops
  have htables : v.toNat / 1024 % 4 = 2 * (row / 240 % 2) + column / 32 % 2 := by
    rw [← hright, ← hbelow]
    omega
  have hsquareRow : v.toNat / 128 % 8 = row / 8 % 30 / 4 := by
    rw [← hrow]
    omega
  have hsquareColumn : v.toNat / 4 % 8 = column % 32 / 4 := by
    rw [← hcolumn]
    omega
  rw [htables, hsquareRow, hsquareColumn, Nat.mul_comm 1024, Nat.mul_comm 8]

/-- The palette group of a place, out of the byte for its square. -/
def groupBits (attributes : UInt8) (column tileRow : Nat) : Nat :=
  attributes.toNat / 2 ^ (4 * (tileRow / 2 % 2) + 2 * (column / 2 % 2)) % 4

/-- The shift that finds the group of a place. -/
theorem toNat_groupShift (column row : Nat) :
    let v := Scroll.address column row
    (((v >>> 4) &&& 4) ||| (v &&& 2)).toUInt8.toNat =
      4 * (row / 8 % 30 / 2 % 2) + 2 * (column % 32 / 2 % 2) := by
  obtain ⟨hcolumn, hrow, -, -, -, -⟩ := Scroll.fields_address column row
  intro v
  have hupper : ((v >>> 4) &&& 4).toNat = v.toNat / 32 % 32 / 2 % 2 * 4 := by
    have h : ((v >>> 4) &&& 4).toNat = (v >>> 4).toNat / 4 % 2 * 4 := Word.toNat_and_field _ 1 2 rfl
    rw [h, Word.toNat_shiftRight v (by decide)]
    show v.toNat / 16 / 4 % 2 * 4 = _
    omega
  have hlower : (v &&& 2).toNat = v.toNat % 32 / 2 % 2 * 2 := by
    have h : (v &&& 2).toNat = v.toNat / 2 % 2 * 2 := Word.toNat_and_field v 1 1 rfl
    rw [h]
    omega
  have hor : ∀ n : Nat, n < 2 → ∀ m : Nat, m < 2 → n * 4 ||| m * 2 = 4 * n + 2 * m := by decide
  rw [UInt16.toNat_toUInt8, UInt16.toNat_or, hupper, hlower, hrow, hcolumn,
    hor _ (Nat.mod_lt _ (by decide)) _ (Nat.mod_lt _ (by decide))]
  omega

theorem toNat_patternAddress (upper : Bool) (tile : UInt8) (column row : Nat) :
    (patternAddress upper tile (Scroll.address column row)).toNat =
      (if upper then 0x1000 else 0) + 16 * tile.toNat + row % 8 := by
  obtain ⟨-, -, -, -, -, hfine⟩ := Scroll.fields_address column row
  have htile := tile.toNat_lt
  have hrow : ((Scroll.address column row >>> 12) &&& 7).toNat = row % 8 := by
    have h : ((Scroll.address column row >>> 12) &&& 7).toNat =
        (Scroll.address column row >>> 12).toNat % 8 := Word.toNat_and_low _ 3 rfl
    rw [h, Word.toNat_shiftRight _ (by decide), ← hfine]
    rfl
  have hlt : row % 8 < 8 := Nat.mod_lt _ (by decide)
  unfold patternAddress
  dsimp only
  rw [UInt16.toNat_add, UInt16.toNat_add, UInt16.toNat_mul, hrow, UInt8.toNat_toUInt16]
  cases upper with
  | true =>
      show ((0x1000 + tile.toNat * 16 % 65536) % 65536 + row % 8) % 65536 = 0x1000 + _ + _
      omega
  | false =>
      show ((0 + tile.toNat * 16 % 65536) % 65536 + row % 8) % 65536 = 0 + _ + _
      omega

end Background

namespace Ppu

variable {μ : Type} [Board μ]

/-! ## The plane -/

/-- The pixel of the plane of the nametables at a column and a row, which count round: four times
the palette group and the two plane bits. -/
def planePixel (p : Ppu) (board : μ) (x y : Nat) : Nat :=
  let x := x % 512
  let y := y % 480
  let table := 0x400 * (2 * (y / 240) + x / 256)
  let column := x % 256 / 8
  let row := y % 240 / 8
  let byte (addr : Nat) : UInt8 := p.peek board (UInt16.ofNat addr)
  let tile := byte (0x2000 + table + 32 * row + column)
  let attributes := byte (0x23C0 + table + 8 * (row / 4) + column / 4)
  let shape := (if p.backgroundTable then 0x1000 else 0) + 16 * tile.toNat + y % 240 % 8
  Background.groupBits attributes column row * 4
    + Pattern.bitPair (byte shape) (byte (shape + 8)) (7 - x % 8)

/-! ## What the fetch cycle reads -/

/-- The number of the tile at an address. -/
def fetchedTile (p : Ppu) (board : μ) (v : UInt16) : UInt8 :=
  p.vram.readNametable (Board.mirroring board) (Background.tileAddress v)

/-- The first entry of the palette group at an address. -/
def fetchedPalette (p : Ppu) (board : μ) (v : UInt16) : UInt8 :=
  Background.groupOf v
    (p.vram.readNametable (Board.mirroring board) (Background.attributeAddress v))

/-- One plane of the row of the tile at an address, as far as the cartridge has it. -/
def fetchedPlane? (p : Ppu) (board : μ) (v : UInt16) (high : Bool) : Option UInt8 :=
  let address := Background.patternAddress p.backgroundTable (p.fetchedTile board v) v
  p.vram.read board (if high then address + 8 else address)

/-- The row of the tile at an address, with zeros where the cartridge lacks a plane. -/
def fetchedRow (p : Ppu) (board : μ) (v : UInt16) : UInt32 :=
  Pattern.row (p.fetchedPalette board v) ((p.fetchedPlane? board v false).getD 0)
    ((p.fetchedPlane? board v true).getD 0)

theorem peek_nametable (p : Ppu) (board : μ) (addr : UInt16) (hlow : 0x2000 ≤ addr.toNat)
    (hhigh : addr.toNat < 0x3F00) :
    p.peek board addr = p.vram.readNametable (Board.mirroring board) addr := by
  have hmod : addr % 0x4000 = addr := by
    apply UInt16.toNat_inj.mp
    rw [UInt16.toNat_mod]
    exact Nat.mod_eq_of_lt (Nat.lt_trans hhigh (by decide))
  have hge : ¬ addr < 0x2000 := fun h =>
    Nat.not_lt.mpr hlow (UInt16.lt_iff_toNat_lt.mp h)
  have hlt : addr < 0x3F00 := UInt16.lt_iff_toNat_lt.mpr hhigh
  rw [peek, Vram.read, hmod]
  show Option.getD (ite _ _ _) 0 = _
  rw [if_neg hge, if_pos hlt]
  rfl

/-- The palette group of a place is the one of the plane. -/
theorem groupBits_eq (attributes : UInt8) (column row : Nat) :
    ∃ group : UInt8, Background.groupOf (Scroll.address column row) attributes =
        (group &&& 3) <<< 2 ∧
      group.toNat % 4 = Background.groupBits attributes (column % 32) (row / 8 % 30) := by
  have hshift := Background.toNat_groupShift column row
  generalize Scroll.address column row = v at hshift ⊢
  refine ⟨attributes >>> (((v >>> 4) &&& 4) ||| (v &&& 2)).toUInt8, rfl, ?_⟩
  rw [UInt8.toNat_shiftRight, hshift, Background.groupBits, Nat.shiftRight_eq_div_pow,
    Nat.mod_eq_of_lt (a := 4 * _ + _)]
  omega

/-- **The row fetched at a place** holds the pixels of the plane there. -/
theorem digit_fetchedRow (p : Ppu) (board : μ) (column row : Nat) {k : Nat} (hk : k < 8) :
    (Pattern.digit (p.fetchedRow board (Scroll.address column row)) (UInt32.ofNat k)).toNat =
      p.planePixel board (8 * column + k) row := by
  -- the coordinates of the pixel in its table
  have hx₁ : (8 * column + k) % 512 / 256 = column / 32 % 2 := by omega
  have hx₂ : (8 * column + k) % 512 % 256 / 8 = column % 32 := by omega
  have hx₃ : (8 * column + k) % 512 % 8 = k := by omega
  have hy₁ : row % 480 / 240 = row / 240 % 2 := Nat.mod_mul_right_div_self row 240 2
  have hy₂ : row % 480 % 240 = row % 240 := Nat.mod_mod_of_dvd row (by decide)
  have hy₃ : row % 240 / 8 = row / 8 % 30 := Nat.mod_mul_right_div_self row 8 30
  have hy₄ : row % 240 % 8 = row % 8 := Nat.mod_mod_of_dvd row (by decide)
  have hrow : row / 8 % 30 < 30 := Nat.mod_lt _ (by decide)
  have hfine : row % 8 < 8 := Nat.mod_lt _ (by decide)
  -- the addresses of its bytes
  have htile := Background.toNat_tileAddress column row
  have hattributes := Background.toNat_attributeAddress column row
  have hshape := fun tile => Background.toNat_patternAddress p.backgroundTable tile column row
  have hgroup := fun attributes => groupBits_eq attributes column row
  generalize Scroll.address column row = v at *
  have htileByte := p.peek_nametable board (Background.tileAddress v) (by omega) (by omega)
  have hattributesByte :=
    p.peek_nametable board (Background.attributeAddress v) (by omega) (by omega)
  have hnumber := (p.fetchedTile board v).toNat_lt
  specialize hshape (p.fetchedTile board v)
  obtain ⟨group, hpalette, hbits⟩ := hgroup
    (p.vram.readNametable (Board.mirroring board) (Background.attributeAddress v))
  have hnext : (Background.patternAddress p.backgroundTable (p.fetchedTile board v) v + 8).toNat =
      (if p.backgroundTable then 0x1000 else 0) + 16 * (p.fetchedTile board v).toNat + row % 8
        + 8 := by
    have height : (8 : UInt16).toNat = 8 := rfl
    rw [UInt16.toNat_add, hshape, height, Nat.mod_eq_of_lt]
    split <;> omega
  have hplanes : p.fetchedRow board v = Pattern.row ((group &&& 3) <<< 2)
      (p.peek board (Background.patternAddress p.backgroundTable (p.fetchedTile board v) v))
      (p.peek board
        (Background.patternAddress p.backgroundTable (p.fetchedTile board v) v + 8)) := by
    rw [← hpalette]
    rfl
  rw [hplanes, Pattern.digit_row _ _ _ hk, hbits, planePixel]
  dsimp only
  rw [hx₁, hx₂, hx₃, hy₁, hy₂, hy₃, hy₄, ← htile, ← hattributes, UInt16.ofNat_toNat,
    UInt16.ofNat_toNat, htileByte, hattributesByte, ← fetchedTile, ← hnext, ← hshape,
    UInt16.ofNat_toNat, UInt16.ofNat_toNat, Nat.mul_comm 4]

end Ppu

end Nes
