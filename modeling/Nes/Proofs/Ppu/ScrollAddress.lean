import Nes.Ppu.Scroll
import Nes.Proofs.Ppu.Fields

/-!
# Scroll addresses as coordinates

The four nametables form a plane of 64 columns of tiles and 480 rows of pixels, which repeats itself
in both directions. An address with one of its rows of tiles names a place of it (`Scroll.address`),
and the movements while rendering are steps in the plane: one column to the right, one row down. The
seams between the nametables are in the coordinates and need no case.

The fields have room for sixteen rows more in each nametable, and an address can get there. With
these rows an address is a place of its nametable (`Scroll.place`), and below row 255 a movement
stays in that nametable.
-/

set_option autoImplicit false

namespace Nes.Scroll

/-! ## Masks -/

theorem toNat_merge (mask old new : UInt16) :
    (merge mask old new).toNat = old.toNat - (old &&& mask).toNat + (new &&& mask).toNat := by
  rw [merge, Word.toNat_or_of_and_eq_zero (Word.and_and_not_self old mask new), Word.toNat_clear]

theorem merge_self (mask w : UInt16) : merge mask w w = w := by
  apply UInt16.toNat_inj.mp
  have h := Word.toNat_and_not w mask
  rw [toNat_merge]
  omega

theorem toNat_and_horizontal (w : UInt16) :
    (w &&& horizontalMask).toNat = w.toNat % 32 + w.toNat / 1024 % 2 * 1024 := by
  have hcolumn : (w &&& 0x001F).toNat = w.toNat % 32 := Word.toNat_and_low w 5 rfl
  have htable : (w &&& 0x0400).toNat = w.toNat / 1024 % 2 * 1024 := Word.toNat_and_field w 1 10 rfl
  have hmask : horizontalMask = 0x001F ||| 0x0400 := rfl
  rw [hmask, Word.toNat_and_or w rfl, hcolumn, htable]

theorem toNat_and_vertical (w : UInt16) :
    (w &&& verticalMask).toNat = w.toNat / 32 % 32 * 32 + w.toNat / 2048 % 16 * 2048 := by
  have hrow : (w &&& 0x03E0).toNat = w.toNat / 32 % 32 * 32 := Word.toNat_and_field w 5 5 rfl
  have htable : (w &&& 0x7800).toNat = w.toNat / 2048 % 16 * 2048 := Word.toNat_and_field w 4 11 rfl
  have hmask : verticalMask = 0x03E0 ||| 0x7800 := rfl
  rw [hmask, Word.toNat_and_or w rfl, hrow, htable]

/-! ## Places of a nametable -/

/-- The address of a column of tiles of the plane, one of the two rows of nametables and a row of
pixels in it. A nametable has 240 rows, and the fields of an address have room for 256. -/
def place (column below row : Nat) : UInt16 :=
  UInt16.ofNat (column % 32 + row / 8 % 32 * 32 + column / 32 % 2 * 1024 + below % 2 * 2048
    + row % 8 * 4096)

theorem toNat_place (column below row : Nat) :
    (place column below row).toNat =
      column % 32 + row / 8 % 32 * 32 + column / 32 % 2 * 1024 + below % 2 * 2048
        + row % 8 * 4096 := by
  apply UInt16.toNat_ofNat_of_lt'
  show _ < 65536
  omega

/-- The fields of an address are the coordinates of its place. -/
theorem fields_place (column below row : Nat) :
    (place column below row).toNat % 32 = column % 32 ∧
      (place column below row).toNat / 32 % 32 = row / 8 % 32 ∧
      (place column below row).toNat / 1024 % 2 = column / 32 % 2 ∧
      (place column below row).toNat / 2048 % 2 = below % 2 ∧
      (place column below row).toNat / 4096 % 8 = row % 8 := by
  have hcolumn : column % 32 < 32 := Nat.mod_lt _ (by decide)
  have htile : row / 8 % 32 < 32 := Nat.mod_lt _ (by decide)
  have hright : column / 32 % 2 < 2 := Nat.mod_lt _ (by decide)
  have hbelow : below % 2 < 2 := Nat.mod_lt _ (by decide)
  have hfine : row % 8 < 8 := Nat.mod_lt _ (by decide)
  rw [toNat_place]
  generalize column % 32 = a at *
  generalize row / 8 % 32 = b at *
  generalize column / 32 % 2 = c at *
  generalize below % 2 = d at *
  generalize row % 8 = e at *
  refine ⟨?_, ?_, ?_, ?_, ?_⟩ <;> omega

/-- Every address of fifteen bits is the address of a place. -/
theorem eq_place {w : UInt16} (hw : w.toNat < 0x8000) :
    w = place (32 * (w.toNat / 1024 % 2) + w.toNat % 32) (w.toNat / 2048 % 2)
      (8 * (w.toNat / 32 % 32) + w.toNat / 4096 % 8) := by
  have hfields : w.toNat = w.toNat % 32 + w.toNat / 32 % 32 * 32 + w.toNat / 1024 % 2 * 1024
      + w.toNat / 2048 % 2 * 2048 + w.toNat / 4096 % 8 * 4096 := by omega
  have hcolumn : w.toNat % 32 < 32 := Nat.mod_lt _ (by decide)
  have htile : w.toNat / 32 % 32 < 32 := Nat.mod_lt _ (by decide)
  have hright : w.toNat / 1024 % 2 < 2 := Nat.mod_lt _ (by decide)
  have hbelow : w.toNat / 2048 % 2 < 2 := Nat.mod_lt _ (by decide)
  have hfine : w.toNat / 4096 % 8 < 8 := Nat.mod_lt _ (by decide)
  apply UInt16.toNat_inj.mp
  rw [toNat_place]
  generalize w.toNat % 32 = a at *
  generalize w.toNat / 32 % 32 = b at *
  generalize w.toNat / 1024 % 2 = c at *
  generalize w.toNat / 2048 % 2 = d at *
  generalize w.toNat / 4096 % 8 = e at *
  -- the coordinates are put together from the fields, and come apart again
  have h1 : (32 * c + a) % 32 = a := by omega
  have h2 : (32 * c + a) / 32 = c := by omega
  have h3 : (8 * b + e) / 8 = b := by omega
  have h4 : (8 * b + e) % 8 = e := by omega
  rw [h1, h2, h3, h4, Nat.mod_eq_of_lt htile, Nat.mod_eq_of_lt hright, Nat.mod_eq_of_lt hbelow]
  exact hfields

/-! ## Places of the plane -/

/-- The address of a column of tiles and a row of pixels of the plane. -/
def address (column row : Nat) : UInt16 :=
  UInt16.ofNat (column % 32 + row / 8 % 30 * 32 + column / 32 % 2 * 1024 + row / 240 % 2 * 2048
    + row % 8 * 4096)

theorem toNat_address (column row : Nat) :
    (address column row).toNat =
      column % 32 + row / 8 % 30 * 32 + column / 32 % 2 * 1024 + row / 240 % 2 * 2048
        + row % 8 * 4096 := by
  apply UInt16.toNat_ofNat_of_lt'
  show _ < 65536
  omega

/-- The column of the plane at which a picture with this scroll position starts. -/
def originX (s : Scroll) : Nat :=
  256 * (s.t.toNat / 1024 % 2) + 8 * (s.t.toNat % 32) + s.fineX.toNat

/-- The row of the plane at which a picture with this scroll position starts. -/
def originY (s : Scroll) : Nat :=
  240 * (s.t.toNat / 2048 % 2) + 8 * (s.t.toNat / 32 % 32) + s.t.toNat / 4096 % 8

theorem address_eq_place (column row : Nat) :
    address column row = place column (row / 240) (row % 240) := by
  have htile : row % 240 / 8 % 32 = row / 8 % 30 := by omega
  have hfine : row % 240 % 8 = row % 8 := by omega
  rw [address, place, htile, hfine]

/-- Every address with one of the rows of tiles of a nametable is the address of a place. -/
theorem eq_address {w : UInt16} (hw : w.toNat < 0x8000) (hrow : w.toNat / 32 % 32 ≤ 29) :
    w = address (w.toNat / 1024 % 2 * 32 + w.toNat % 32)
      (w.toNat / 2048 % 2 * 240 + w.toNat / 32 % 32 * 8 + w.toNat / 4096 % 8) := by
  have hdiv : (w.toNat / 2048 % 2 * 240 + w.toNat / 32 % 32 * 8 + w.toNat / 4096 % 8) / 240 =
      w.toNat / 2048 % 2 := by omega
  have hmod : (w.toNat / 2048 % 2 * 240 + w.toNat / 32 % 32 * 8 + w.toNat / 4096 % 8) % 240 =
      8 * (w.toNat / 32 % 32) + w.toNat / 4096 % 8 := by omega
  rw [address_eq_place, hdiv, hmod, Nat.mul_comm _ 32]
  exact eq_place hw

/-- The fields of an address are the coordinates of its place. -/
theorem fields_address (column row : Nat) :
    (address column row).toNat % 32 = column % 32 ∧
      (address column row).toNat / 32 % 32 = row / 8 % 30 ∧
      (address column row).toNat / 1024 % 2 = column / 32 % 2 ∧
      (address column row).toNat / 2048 % 2 = row / 240 % 2 ∧
      (address column row).toNat / 2048 % 16 = row / 240 % 2 + row % 8 * 2 ∧
      (address column row).toNat / 4096 % 8 = row % 8 := by
  have hrow : row % 240 / 8 % 32 = row / 8 % 30 := by omega
  have hdot : row % 240 % 8 = row % 8 := by omega
  have hsplit : ∀ n : Nat, n / 2048 % 16 = n / 2048 % 2 + n / 4096 % 8 * 2 := by omega
  obtain ⟨hcolumn, htile, hright, hbelow, hfine⟩ := fields_place column (row / 240) (row % 240)
  rw [← address_eq_place] at hcolumn htile hright hbelow hfine
  rw [hsplit, hcolumn, htile, hright, hbelow, hfine, hrow, hdot]
  exact ⟨rfl, rfl, rfl, rfl, rfl, rfl⟩

/-! ## Copies -/

theorem merge_horizontal_address (column row column' row' : Nat) :
    merge horizontalMask (address column row) (address column' row') = address column' row := by
  obtain ⟨h1, -, h3, -, -, -⟩ := fields_address column row
  obtain ⟨h1', -, h3', -, -, -⟩ := fields_address column' row'
  apply UInt16.toNat_inj.mp
  rw [toNat_merge, toNat_and_horizontal, toNat_and_horizontal, h1, h3, h1', h3', toNat_address,
    toNat_address]
  omega

/-- Both halves of the starting address, one after the other, are all of it. -/
theorem merge_vertical_merge_horizontal {v t : UInt16} (hv : v.toNat < 0x8000)
    (ht : t.toNat < 0x8000) : merge verticalMask (merge horizontalMask v t) t = t := by
  have hmerged : (merge horizontalMask v t).toNat = t.toNat % 32 + v.toNat / 32 % 32 * 32
      + t.toNat / 1024 % 2 * 1024 + v.toNat / 2048 % 16 * 2048 := by
    rw [toNat_merge, toNat_and_horizontal, toNat_and_horizontal]
    omega
  have hfields : t.toNat = t.toNat % 32 + t.toNat / 32 % 32 * 32 + t.toNat / 1024 % 2 * 1024
      + t.toNat / 2048 % 16 * 2048 := by omega
  have hcolumn : t.toNat % 32 < 32 := Nat.mod_lt _ (by decide)
  have hrow : v.toNat / 32 % 32 < 32 := Nat.mod_lt _ (by decide)
  have hright : t.toNat / 1024 % 2 < 2 := Nat.mod_lt _ (by decide)
  have hbelow : v.toNat / 2048 % 16 < 16 := Nat.mod_lt _ (by decide)
  apply UInt16.toNat_inj.mp
  rw [toNat_merge, toNat_and_vertical, toNat_and_vertical, hmerged]
  generalize t.toNat % 32 = a at *
  generalize v.toNat / 32 % 32 = b at *
  generalize t.toNat / 1024 % 2 = c at *
  generalize v.toNat / 2048 % 16 = d at *
  have h1 : (a + b * 32 + c * 1024 + d * 2048) / 32 % 32 = b := by omega
  have h2 : (a + b * 32 + c * 1024 + d * 2048) / 2048 % 16 = d := by omega
  rw [h1, h2]
  omega

/-! ## Movements -/

theorem nextColumn_place (column below row : Nat) :
    nextColumn (place column below row) = place (column + 1) below row := by
  obtain ⟨hcolumn, -, htable, -, -⟩ := fields_place column below row
  have hlow : (place column below row &&& columnMask).toNat = column % 32 :=
    (Word.toNat_and_low (place column below row) 5 rfl).trans hcolumn
  have hlast : place column below row &&& columnMask = 31 ↔ column % 32 = 31 := by
    rw [← UInt16.toNat_inj, hlow]
    rfl
  have hvalue := toNat_place column below row
  apply UInt16.toNat_inj.mp
  unfold nextColumn
  by_cases h : column % 32 = 31
  · -- over the right edge of a table the other one follows
    have hbit : (place column below row &&& ~~~columnMask).toNat / 2 ^ 10 % 2 =
        column / 32 % 2 := by
      have hclear : ∀ n : Nat, (n - n % 32) / 1024 = n / 1024 := by omega
      rw [Word.toNat_clear, hlow, ← hcolumn, ← htable]
      exact congrArg (· % 2) (hclear _)
    have hnext : (column + 1) % 32 = 0 := by omega
    have hswitch : (column + 1) / 32 % 2 = 1 - column / 32 % 2 := by omega
    rw [if_pos (hlast.mpr h), Word.toNat_xor_bit _ 10 rfl, hbit, Word.toNat_clear, hlow, hvalue,
      toNat_place, hnext, hswitch]
    split <;> omega
  · have hnext : (column + 1) % 32 = column % 32 + 1 := by omega
    have hsame : (column + 1) / 32 = column / 32 := by omega
    have hone : (1 : UInt16).toNat = 1 := rfl
    rw [if_neg (mt hlast.mp h), UInt16.toNat_add, toNat_place (column + 1), hnext, hsame, hvalue,
      hone, Nat.mod_eq_of_lt]
    · omega
    · omega

/-- One row of tiles further, from an address without a row within the tile. -/
theorem toNat_nextTileRow {w : UInt16} {column tileRow right below : Nat} (hcolumn : column < 32)
    (hrow : tileRow < 32) (hright : right < 2) (hbelow : below < 2)
    (hw : w.toNat = column + tileRow * 32 + right * 1024 + below * 2048) :
    (nextTileRow w).toNat =
      if tileRow = 29 then column + right * 1024 + (1 - below) * 2048
      else column + (tileRow + 1) % 32 * 32 + right * 1024 + below * 2048 := by
  have hfield : (w &&& tileRowMask).toNat = tileRow * 32 := by
    have h : (w &&& tileRowMask).toNat = w.toNat / 32 % 32 * 32 := Word.toNat_and_field w 5 5 rfl
    omega
  have hindex : ((w &&& tileRowMask) >>> 5).toNat = tileRow := by
    rw [Word.toNat_shiftRight _ (by decide), hfield]
    exact Nat.mul_div_cancel tileRow (by decide)
  have hlast : (w &&& tileRowMask) >>> 5 = 29 ↔ tileRow = 29 := by
    rw [← UInt16.toNat_inj, hindex]
    rfl
  have hbeyond : (w &&& tileRowMask) >>> 5 = 31 ↔ tileRow = 31 := by
    rw [← UInt16.toNat_inj, hindex]
    rfl
  unfold nextTileRow
  dsimp only
  by_cases h : tileRow = 29
  · have hbit : (w &&& ~~~tileRowMask).toNat / 2 ^ 11 % 2 = below := by
      rw [Word.toNat_clear, hfield, hw]
      show _ / 2048 % 2 = _
      omega
    rw [if_pos (hlast.mpr h), if_pos h, Word.toNat_xor_bit _ 11 rfl, hbit, Word.toNat_clear, hfield,
      hw]
    split <;> omega
  · rw [if_neg (mt hlast.mp h), if_neg h]
    by_cases h31 : tileRow = 31
    · -- the last row that the field has room for is followed by the first one
      rw [if_pos (hbeyond.mpr h31), Word.toNat_clear, hfield, hw]
      omega
    · have hnext : (((w &&& tileRowMask) >>> 5 + 1) <<< 5 &&& tileRowMask).toNat =
          (tileRow + 1) * 32 := by
        have hshift : (((w &&& tileRowMask) >>> 5 + 1) <<< 5).toNat = (tileRow + 1) * 32 := by
          rw [UInt16.toNat_shiftLeft, UInt16.toNat_add, hindex, Nat.shiftLeft_eq]
          show (tileRow + 1) % 65536 * 32 % 65536 = _
          omega
        have hmask : (((w &&& tileRowMask) >>> 5 + 1) <<< 5 &&& tileRowMask).toNat =
            (((w &&& tileRowMask) >>> 5 + 1) <<< 5).toNat / 32 % 32 * 32 :=
          Word.toNat_and_field _ 5 5 rfl
        rw [hmask, hshift]
        omega
      rw [if_neg (mt hbeyond.mp h31), toNat_merge, hfield, hnext, hw]
      omega

/-- One row of pixels further. Below row 239 the other row of nametables follows, and below row 255
the same one again. -/
theorem nextRow_place (column below row : Nat) :
    nextRow (place column below row) =
      if row % 256 = 239 then place column (below + 1) 0 else place column below (row + 1) := by
  obtain ⟨-, -, -, -, hfine⟩ := fields_place column below row
  have hvalue := toNat_place column below row
  have hfield : (place column below row &&& fineRowMask).toNat = row % 8 * 4096 := by
    rw [← hfine]
    exact Word.toNat_and_field (place column below row) 3 12 rfl
  have hlast : place column below row &&& fineRowMask = fineRowMask ↔ row % 8 = 7 := by
    rw [← UInt16.toNat_inj, hfield]
    show _ = 28672 ↔ _
    omega
  apply UInt16.toNat_inj.mp
  unfold nextRow
  by_cases h : row % 8 = 7
  · -- the last row of a tile: a row of tiles further
    have hclear : (place column below row &&& ~~~fineRowMask).toNat = column % 32
        + row / 8 % 32 * 32 + column / 32 % 2 * 1024 + below % 2 * 2048 := by
      rw [Word.toNat_clear, hfield, hvalue]
      omega
    have hmod : (row + 1) % 8 = 0 := by omega
    have hdiv : (row + 1) / 8 = row / 8 + 1 := by omega
    have hseam : row % 256 = 239 ↔ row / 8 % 32 = 29 := by omega
    have hswitch : (below + 1) % 2 = 1 - below % 2 := by omega
    rw [if_pos (hlast.mpr h), toNat_nextTileRow (Nat.mod_lt _ (by decide))
      (Nat.mod_lt _ (by decide)) (Nat.mod_lt _ (by decide)) (Nat.mod_lt _ (by decide)) hclear]
    by_cases h29 : row / 8 % 32 = 29
    · rw [if_pos h29, if_pos (hseam.mpr h29), toNat_place, hswitch]
      omega
    · rw [if_neg h29, if_neg (mt hseam.mp h29), toNat_place, hmod, hdiv, Nat.mod_add_mod]
      omega
  · have hmod : (row + 1) % 8 = row % 8 + 1 := by omega
    have hdiv : (row + 1) / 8 = row / 8 := by omega
    have hseam : ¬ row % 256 = 239 := by omega
    have hstep : (0x1000 : UInt16).toNat = 4096 := rfl
    rw [if_neg (mt hlast.mp h), if_neg hseam, UInt16.toNat_add, toNat_place column below (row + 1),
      hmod, hdiv, hvalue, hstep, Nat.mod_eq_of_lt]
    · omega
    · omega

theorem nextColumn_address (column row : Nat) :
    nextColumn (address column row) = address (column + 1) row := by
  rw [address_eq_place, nextColumn_place, address_eq_place]

theorem nextRow_address (column row : Nat) :
    nextRow (address column row) = address column (row + 1) := by
  rw [address_eq_place, nextRow_place, address_eq_place]
  by_cases h : row % 240 = 239
  · have hseam : row % 240 % 256 = 239 := by omega
    have hdiv : (row + 1) / 240 = row / 240 + 1 := by omega
    have hmod : (row + 1) % 240 = 0 := by omega
    rw [if_pos hseam, hdiv, hmod]
  · have hseam : ¬ row % 240 % 256 = 239 := by omega
    have hdiv : (row + 1) / 240 = row / 240 := by omega
    have hmod : (row + 1) % 240 = row % 240 + 1 := by omega
    rw [if_neg hseam, hdiv, hmod]

end Nes.Scroll
