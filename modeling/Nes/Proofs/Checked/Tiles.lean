import Nes.Proofs.Checked.Board
import Nes.Proofs.Ppu.SpriteRow

/-!
# Checked movements, tiles and sprites

What the picture unit computes for a dot, with every sum, difference, index and distance checked:
the movements of the current address, the addresses of shapes, which have to lie in the window of
the cartridge, the digits of a row, and the search for the sprites of a line, with the slots that it
fills. All of these have their plain result.
-/

set_option autoImplicit false

namespace Nes

/-! ## Movements -/

namespace Scroll

/-- One column of tiles further. -/
def nextColumnChecked (v : UInt16) : Option UInt16 :=
  if v &&& columnMask = 31 then some ((v &&& ~~~columnMask) ^^^ 0x0400)
  else (Checked.add 16 v.toNat 1).map UInt16.ofNat

/-- One row of tiles further. -/
def nextTileRowChecked (v : UInt16) : Option UInt16 :=
  let row := (v &&& tileRowMask) >>> 5
  if row = 29 then some ((v &&& ~~~tileRowMask) ^^^ 0x0800)
  else if row = 31 then some (v &&& ~~~tileRowMask)
  else (Checked.add 16 row.toNat 1).map fun next =>
    merge tileRowMask v (UInt16.ofNat next <<< 5)

/-- One row of pixels further. -/
def nextRowChecked (v : UInt16) : Option UInt16 :=
  if v &&& fineRowMask = fineRowMask then nextTileRowChecked (v &&& ~~~fineRowMask)
  else (Checked.add 16 v.toNat 0x1000).map UInt16.ofNat

theorem nextColumnChecked_eq (v : UInt16) : nextColumnChecked v = some (nextColumn v) := by
  unfold nextColumnChecked nextColumn
  split
  · rfl
  · next h =>
      -- a word of ones has its last column
      have hlt : v.toNat + 1 < 2 ^ 16 := by
        have hv := v.toNat_lt
        have hne : v ≠ 0xFFFF := fun h' => h (by rw [h']; rfl)
        have hne' : v.toNat ≠ 65535 := fun h' => hne (UInt16.toNat_inj.mp h')
        omega
      rw [Checked.add_eq hlt, Option.map_some, UInt16.ofNat_add, UInt16.ofNat_toNat]
      rfl

theorem nextTileRowChecked_eq (v : UInt16) : nextTileRowChecked v = some (nextTileRow v) := by
  unfold nextTileRowChecked nextTileRow
  dsimp only
  split
  · rfl
  · split
    · rfl
    · have hfield : (v &&& tileRowMask).toNat ≤ 0x03E0 := by
        rw [UInt16.toNat_and]
        exact Nat.and_le_right
      have hrow : ((v &&& tileRowMask) >>> 5).toNat = (v &&& tileRowMask).toNat / 2 ^ 5 :=
        Word.toNat_shiftRight _ (by decide)
      have hlt : ((v &&& tileRowMask) >>> 5).toNat + 1 < 2 ^ 16 := by omega
      rw [Checked.add_eq hlt, Option.map_some, UInt16.ofNat_add, UInt16.ofNat_toNat]
      rfl

theorem nextRowChecked_eq (v : UInt16) : nextRowChecked v = some (nextRow v) := by
  unfold nextRowChecked nextRow
  split
  · exact nextTileRowChecked_eq _
  · next h =>
      have hfield : (v &&& fineRowMask).toNat = v.toNat / 4096 % 8 * 4096 :=
        Word.toNat_and_field v 3 12 rfl
      -- the row within the tile is below 7, so nothing is carried out of the word
      have hlt : v.toNat + 0x1000 < 2 ^ 16 := by
        have hv := v.toNat_lt
        have hne : v.toNat / 4096 % 8 ≠ 7 := by
          intro h7
          apply h
          apply UInt16.toNat_inj.mp
          rw [hfield, h7]
          rfl
        omega
      rw [Checked.add_eq hlt, Option.map_some, UInt16.ofNat_add, UInt16.ofNat_toNat]
      rfl

end Scroll

/-! ## Shapes -/

/-- Reads a byte of a shape, which has to be one of the cartridge. -/
def Vram.readShapeChecked (s : Vram) (u : UxRom) (address : Nat) : Option UInt8 := do
  let address ← Checked.below 0x2000 address
  s.readChecked u (UInt16.ofNat address)

theorem Vram.readShapeChecked_eq (s : Vram) (u : UxRom) (addr : UInt16) (h : addr.toNat < 0x2000) :
    s.readShapeChecked u addr.toNat = s.read u addr := by
  rw [readShapeChecked, Checked.below_eq h, ← readChecked_eq]
  show s.readChecked u (UInt16.ofNat addr.toNat) = _
  rw [UInt16.ofNat_toNat]

/-- The pixel of a row at a column: its digit is moved down to the lowest place. -/
def Pattern.digitChecked (word : UInt32) (column : Nat) : Option UInt8 := do
  let place ← Checked.sub 7 column
  let bits ← Checked.mul 32 place 4
  let distance ← Checked.distance 32 bits
  some ((word >>> UInt32.ofNat distance) &&& 0x0F).toUInt8

theorem Pattern.digitChecked_eq (word : UInt32) {column : Nat} (h : column ≤ 7) :
    digitChecked word column = some (digit word (UInt32.ofNat column)) := by
  have hbits : (7 - column) * 4 < 2 ^ 32 := by omega
  have hdistance : (7 - column) * 4 < 32 := by omega
  have hword : UInt32.ofNat ((7 - column) * 4) = (7 - UInt32.ofNat column) * 4 := by
    rw [UInt32.ofNat_mul, UInt32.ofNat_sub h]
    rfl
  rw [digitChecked, Checked.sub_eq h]
  simp only [Option.bind_eq_bind, Option.bind_some, Checked.mul_eq hbits,
    Checked.distance_eq hdistance, hword]
  rfl

/-! ## The background -/

namespace Background

/-- First entry of the palette group of a tile. -/
def groupOfChecked (v : UInt16) (attributes : UInt8) : Option UInt8 := do
  let distance ← Checked.distance 8 (((v >>> 4) &&& 4) ||| (v &&& 2)).toNat
  some (((attributes >>> UInt8.ofNat distance) &&& 3) <<< 2)

/-- Where the low plane of a row of a tile is stored. -/
def patternAddressChecked (upperTable : Bool) (tile : UInt8) (v : UInt16) : Option Nat := do
  let offset ← Checked.mul 16 tile.toNat 16
  let start ← Checked.add 16 (if upperTable then 0x1000 else 0) offset
  Checked.add 16 start ((v >>> 12) &&& 7).toNat

/-- The digit drawn at a fine horizontal offset. -/
def digitChecked (b : Background) (fineX : UInt8) : Option UInt8 :=
  Pattern.digitChecked (b.pixels >>> 32).toUInt32 fineX.toNat

theorem groupOfChecked_eq (v : UInt16) (attributes : UInt8) :
    groupOfChecked v attributes = some (groupOf v attributes) := by
  have hlt : (((v >>> 4) &&& 4) ||| (v &&& 2)).toNat < 8 := by
    rw [UInt16.toNat_or, UInt16.toNat_and, UInt16.toNat_and]
    exact Nat.or_lt_two_pow (n := 3) (Nat.lt_of_le_of_lt Nat.and_le_right (by decide))
      (Nat.lt_of_le_of_lt Nat.and_le_right (by decide))
  rw [groupOfChecked, Checked.distance_eq hlt]
  rfl

theorem toNat_patternAddress_eq (upperTable : Bool) (tile : UInt8) (v : UInt16) :
    (patternAddress upperTable tile v).toNat =
      (if upperTable then 0x1000 else 0) + tile.toNat * 16 + ((v >>> 12) &&& 7).toNat := by
  have htile := tile.toNat_lt
  have hrow : ((v >>> 12) &&& 7).toNat ≤ 7 := by
    rw [UInt16.toNat_and]
    exact Nat.and_le_right
  unfold patternAddress
  dsimp only
  generalize (v >>> 12) &&& 7 = row at hrow ⊢
  cases upperTable <;>
    simp only [if_true, if_false, Bool.false_eq_true, UInt16.toNat_add, UInt16.toNat_mul,
      UInt8.toNat_toUInt16, UInt16.toNat_ofNat] <;>
    omega

/-- Both planes of every row lie in the window of the cartridge. -/
theorem patternAddress_lt (upperTable : Bool) (tile : UInt8) (v : UInt16) :
    (patternAddress upperTable tile v).toNat + 8 < 0x2000 := by
  have htile := tile.toNat_lt
  have hrow : ((v >>> 12) &&& 7).toNat ≤ 7 := by
    rw [UInt16.toNat_and]
    exact Nat.and_le_right
  rw [toNat_patternAddress_eq]
  split <;> omega

theorem patternAddressChecked_eq (upperTable : Bool) (tile : UInt8) (v : UInt16) :
    patternAddressChecked upperTable tile v = some (patternAddress upperTable tile v).toNat := by
  have hlt := patternAddress_lt upperTable tile v
  rw [toNat_patternAddress_eq] at hlt ⊢
  simp (disch := omega) only [patternAddressChecked, Option.bind_eq_bind, Option.bind_some,
    Checked.mul_eq, Checked.add_eq]

theorem digitChecked_eq (b : Background) {fineX : UInt8} (h : fineX.toNat < 8) :
    b.digitChecked fineX = some (b.digit fineX) := by
  rw [digitChecked, Pattern.digitChecked_eq _ (Nat.le_of_lt_succ h), UInt32.ofNat_uInt8ToNat]
  rfl

end Background

/-! ## Sprites -/

theorem Oam.getElem?_byte (o : Oam) (entry : Fin 64) (field : Fin 4) :
    o[entry.val * 4 + field.val]? = some (o.byte entry field) :=
  Vector.getElem?_eq_getElem (by omega)

namespace Sprite

/-- Where the low plane of a row of a sprite is stored. -/
def patternAddressChecked (shape : SpriteShape) (tile : UInt8) (row : Nat) : Option Nat :=
  if shape.tall then do
    let table ← Checked.mul 16 0x1000 (tile &&& 1).toNat
    let even := (tile &&& 0xFE).toNat
    let half ← if 7 < row then Checked.add 16 even 1 else some even
    let inHalf ← if 7 < row then Checked.sub row 8 else some row
    let offset ← Checked.mul 16 half 16
    let start ← Checked.add 16 table offset
    Checked.add 16 start inHalf
  else do
    let offset ← Checked.mul 16 tile.toNat 16
    let start ← Checked.add 16 (if shape.upperTable then 0x1000 else 0) offset
    Checked.add 16 start row

/-- The row of the shape shown on a row of the sprite. -/
def shapeRowChecked (shape : SpriteShape) (attributes : UInt8) (row : Nat) : Option Nat :=
  if attributes &&& 0x80 ≠ 0 then Checked.sub (shape.height - 1) row else some row

/-- One row of the sprite of an entry. -/
def fetchRowChecked (vram : Vram) (u : UxRom) (shape : SpriteShape) (oam : Oam) (entry : Fin 64)
    (row : Nat) : Option UInt32 := do
  let tile ← oam[entry.val * 4 + 1]?
  let attributes ← oam[entry.val * 4 + 2]?
  let row ← shapeRowChecked shape attributes row
  let address ← patternAddressChecked shape tile row
  let low ← vram.readShapeChecked u address
  let next ← Checked.add 16 address 8
  let high ← vram.readShapeChecked u next
  some (decode attributes low high)

/-- Finds sprites among entries: how many cover the line, and those that have found a slot. -/
def searchChecked (vram : Vram) (u : UxRom) (shape : SpriteShape) (oam : Oam) (scanline : Nat) :
    List (Fin 64) → Nat → List Sprite → Option (Nat × List Sprite)
  | [], count, found => some (count, found)
  | entry :: rest, count, found => do
      let line ← oam[entry.val * 4]?
      let attributes ← oam[entry.val * 4 + 2]?
      let left ← oam[entry.val * 4 + 3]?
      let row ← Checked.signed 32 (scanline - line.toNat)
      if row < 0 ∨ shape.height ≤ row then
        searchChecked vram u shape oam scanline rest count found
      else do
        let next ← Checked.add 64 count 1
        if count < maxSprites then do
          let pattern ← fetchRowChecked vram u shape oam entry row.toNat
          let _ ← Checked.below maxSprites found.length
          let behind := decide ((attributes >>> 5) &&& 1 ≠ 0)
          searchChecked vram u shape oam scanline rest next
            (found ++ [{ pattern, left, behind, entry }])
        else searchChecked vram u shape oam scanline rest next found

/-- The pixel of a sprite at a column, 0 outside it. -/
def pixelAtChecked (s : Sprite) (x : Nat) : Option UInt8 := do
  let column ← Checked.signed 32 (x - s.left.toNat)
  if 0 ≤ column ∧ column ≤ 7 then Pattern.digitChecked s.pattern column.toNat else some 0

/-- The first of the sprites that shows at a column, and its pixel, from the slot with the given
number on. -/
def firstChecked (x : Nat) : Nat → List Sprite → Option (Option (Sprite × UInt8))
  | _, [] => some none
  | slot, s :: rest => do
      let _ ← Checked.below maxSprites slot
      let pixel ← s.pixelAtChecked x
      if Pattern.opaquePixel pixel then some (some (s, pixel)) else firstChecked x (slot + 1) rest

/-! ### Rows -/

theorem patternAddressChecked_eq (shape : SpriteShape) (tile : UInt8) {row : UInt16}
    (h : row.toNat < shape.height) :
    patternAddressChecked shape tile row.toNat = some (patternAddress shape tile row).toNat := by
  have htile := tile.toNat_lt
  rw [toNat_patternAddress shape tile h]
  obtain ⟨tall, upper⟩ := shape
  cases tall with
  | true =>
      have hrow : row.toNat < 16 := h
      have hodd : (tile &&& 1).toNat = tile.toNat % 2 := Byte.toNat_and_low tile 1 rfl
      have heven : (tile &&& 0xFE).toNat = tile.toNat / 2 % 128 * 2 :=
        Byte.toNat_and_field tile 7 1 rfl
      rw [patternAddressChecked, if_pos rfl, if_pos rfl]
      dsimp only
      rw [hodd, heven]
      -- the upper tile has an even number, the lower one the next
      by_cases hhalf : 7 < row.toNat
      · simp (disch := omega) only [if_pos hhalf, Option.bind_eq_bind, Option.bind_some,
          Checked.mul_eq, Checked.add_eq, Checked.sub_eq, Option.some.injEq]
        omega
      · simp (disch := omega) only [if_neg hhalf, Option.bind_eq_bind, Option.bind_some,
          Checked.mul_eq, Checked.add_eq, Option.some.injEq]
        omega
  | false =>
      have hrow : row.toNat < 8 := h
      have htable : (if upper then 0x1000 else 0) ≤ 0x1000 := by split <;> decide
      rw [patternAddressChecked, if_neg Bool.false_ne_true, if_neg Bool.false_ne_true]
      simp (disch := omega) only [Option.bind_eq_bind, Option.bind_some, Checked.mul_eq,
        Checked.add_eq, Option.some.injEq]
      omega

/-- Both planes of every row lie in the window of the cartridge. -/
theorem patternAddress_lt (shape : SpriteShape) (tile : UInt8) {row : UInt16}
    (h : row.toNat < shape.height) : (patternAddress shape tile row).toNat + 8 < 0x2000 := by
  have htile := tile.toNat_lt
  rw [toNat_patternAddress shape tile h]
  obtain ⟨tall, upper⟩ := shape
  cases tall with
  | true =>
      have hrow : row.toNat < 16 := h
      rw [if_pos rfl]
      omega
  | false =>
      have hrow : row.toNat < 8 := h
      rw [if_neg Bool.false_ne_true]
      split <;> omega

theorem shapeRowChecked_eq (shape : SpriteShape) (attributes : UInt8) {row : Nat}
    (h : row < shape.height) :
    shapeRowChecked shape attributes row =
      some (shapeRow shape attributes (UInt16.ofNat row)).toNat := by
  have hflip := Byte.and_ne_zero_iff attributes (m := 0x80) (k := 7) rfl
  rw [shapeRowChecked, toNat_shapeRow shape attributes h]
  by_cases hbit : attributes.toNat.testBit 7 = true
  · rw [if_pos (hflip.mpr hbit), if_pos hbit, Checked.sub_eq (by omega)]
  · rw [if_neg (mt hflip.mp hbit), if_neg hbit]

/-- A row is fetched where a plain fetch has a result. -/
theorem fetchRowChecked_eq (vram : Vram) (u : UxRom) (shape : SpriteShape) (oam : Oam)
    (entry : Fin 64) {row : Nat} (h : row < shape.height) :
    fetchRowChecked vram u shape oam entry row =
      fetchRow? vram u shape oam entry (UInt16.ofNat row) := by
  have htile : oam[entry.val * 4 + 1]? = some (oam.tile entry) := oam.getElem?_byte entry 1
  have hattributes : oam[entry.val * 4 + 2]? = some (oam.attributes entry) :=
    oam.getElem?_byte entry 2
  have hlt : (shapeRow shape (oam.attributes entry) (UInt16.ofNat row)).toNat < shape.height := by
    rw [toNat_shapeRow shape (oam.attributes entry) h]
    split <;> omega
  have haddress := patternAddress_lt shape (oam.tile entry) hlt
  rw [fetchRowChecked, htile]
  simp only [Option.bind_eq_bind, Option.bind_some, hattributes,
    shapeRowChecked_eq shape (oam.attributes entry) h,
    patternAddressChecked_eq shape (oam.tile entry) hlt]
  rw [fetchRow?, rowAddress]
  generalize patternAddress shape (oam.tile entry) _ = address at haddress ⊢
  have hsum : address.toNat + 8 < 2 ^ 16 := by omega
  have hnext : (address + 8).toNat = address.toNat + 8 := by
    rw [UInt16.toNat_add]
    exact Nat.mod_eq_of_lt hsum
  have hlow := vram.readShapeChecked_eq u address (by omega)
  have hhigh := vram.readShapeChecked_eq u (address + 8) (by omega)
  simp only [Checked.add_eq hsum, Option.bind_some, ← hnext, hlow, hhigh]
  cases vram.read u address <;> cases vram.read u (address + 8) <;> rfl

/-! ### The search -/

/-- One entry of the search: if it covers the line it is counted, and its sprite takes the next slot
as long as one is left. -/
theorem searchChecked_cons (vram : Vram) {u : UxRom} (h : 0x2000 ≤ u.cartridge.chr.size)
    (shape : SpriteShape) (oam : Oam) {scanline : Nat} (hline : scanline < 2 ^ 31)
    (entry : Fin 64) (rest : List (Fin 64)) {count : Nat} {found : List Sprite}
    (hfound : found.length = min count maxSprites) (hcount : count + 1 < 2 ^ 64) :
    searchChecked vram u shape oam scanline (entry :: rest) count found =
      if oam.covers shape.height scanline entry then
        searchChecked vram u shape oam scanline rest (count + 1)
          (found ++
            if count < maxSprites then (fetch? vram u shape oam scanline entry).toList else [])
      else searchChecked vram u shape oam scanline rest count found := by
  have hbyte : oam[entry.val * 4]? = some (oam.line entry) := oam.getElem?_byte entry 0
  have hattributes : oam[entry.val * 4 + 2]? = some (oam.attributes entry) :=
    oam.getElem?_byte entry 2
  have hleft : oam[entry.val * 4 + 3]? = some (oam.left entry) := oam.getElem?_byte entry 3
  have hline' := (oam.line entry).toNat_lt
  have hrow : Checked.signed 32 ((scanline : Int) - (oam.line entry).toNat) =
      some ((scanline : Int) - (oam.line entry).toNat) := Checked.signed_eq (by omega)
  have hcovers := oam.covers_iff shape.height scanline entry
  rw [searchChecked, hbyte]
  simp only [Option.bind_eq_bind, Option.bind_some, hattributes, hleft, hrow]
  by_cases hc : oam.covers shape.height scanline entry = true
  · have hin := hcovers.mp hc
    have hoffset : scanline - (oam.line entry).toNat < shape.height := by omega
    have hnat : ((scanline : Int) - (oam.line entry).toNat).toNat =
        scanline - (oam.line entry).toNat := by omega
    rw [if_neg (by omega), if_pos hc, hnat, fetchRowChecked_eq vram u shape oam entry hoffset,
      Checked.add_eq hcount]
    simp only [Option.bind_some]
    by_cases hslot : count < maxSprites
    · have hsome := (UxRom.completeChr h).isSome_fetchSprite vram shape oam scanline entry
      obtain ⟨sprite, hsprite⟩ := Option.isSome_iff_exists.mp hsome
      obtain ⟨pattern, hpattern, hmade⟩ := Option.map_eq_some_iff.mp hsprite
      have hfree : found.length < maxSprites := by omega
      rw [if_pos hslot, if_pos hslot, hpattern, Option.bind_some, Checked.below_eq hfree,
        Option.bind_some, hsprite, ← hmade]
      rfl
    · rw [if_neg hslot, if_neg hslot, List.append_nil]
  · have hout := mt hcovers.mpr hc
    rw [if_pos (by omega), if_neg hc]

/-- **The search finds a slot for every sprite it keeps**: with a complete cartridge it counts the
entries that cover the line, and keeps those for which a slot is left. -/
theorem searchChecked_eq (vram : Vram) {u : UxRom} (h : 0x2000 ≤ u.cartridge.chr.size)
    (shape : SpriteShape) (oam : Oam) {scanline : Nat} (hline : scanline < 2 ^ 31)
    (entries : List (Fin 64)) {count : Nat} {found : List Sprite}
    (hfound : found.length = min count maxSprites)
    (hcount : count + entries.length < 2 ^ 64) :
    let covering := entries.filter (oam.covers shape.height scanline)
    searchChecked vram u shape oam scanline entries count found =
      some (count + covering.length,
        found ++ (covering.take (maxSprites - count)).filterMap
          (fetch? vram u shape oam scanline)) := by
  intro covering
  induction entries generalizing count found with
  | nil => simp [covering, searchChecked]
  | cons entry rest ih =>
      rw [List.length_cons] at hcount
      rw [searchChecked_cons vram h shape oam hline entry rest hfound (by omega)]
      by_cases hc : oam.covers shape.height scanline entry = true
      · have hcovering : covering = entry :: rest.filter (oam.covers shape.height scanline) :=
          List.filter_cons_of_pos hc
        rw [if_pos hc, hcovering, List.length_cons]
        by_cases hslot : count < maxSprites
        · -- the sprite of the entry has taken a slot
          have hsome := (UxRom.completeChr h).isSome_fetchSprite vram shape oam scanline entry
          obtain ⟨sprite, hsprite⟩ := Option.isSome_iff_exists.mp hsome
          have htake : maxSprites - count = maxSprites - (count + 1) + 1 := by omega
          rw [if_pos hslot, hsprite, Option.toList_some,
            ih (by rw [List.length_append, List.length_singleton]; omega) (by omega), htake,
            List.take_succ_cons, List.filterMap_cons_some hsprite, List.append_assoc,
            Nat.add_right_comm]
          rfl
        · have hnone : maxSprites - count = 0 := by omega
          have hnone' : maxSprites - (count + 1) = 0 := by omega
          rw [if_neg hslot, List.append_nil, ih (by omega) (by omega), hnone, hnone',
            List.take_zero, List.take_zero, Nat.add_right_comm]
          rfl
      · have hcovering : covering = rest.filter (oam.covers shape.height scanline) :=
          List.filter_cons_of_neg hc
        rw [if_neg hc, ih hfound (by omega), hcovering]

/-! ### Pixels -/

theorem pixelAtChecked_eq (s : Sprite) {x : Nat} (h : x < 2 ^ 31) :
    s.pixelAtChecked x = some (s.pixelAt x) := by
  have hleft := s.left.toNat_lt
  have hcolumn : Checked.signed 32 ((x : Int) - s.left.toNat) = some ((x : Int) - s.left.toNat) :=
    Checked.signed_eq (by omega)
  rw [pixelAtChecked, pixelAt, hcolumn]
  simp only [Option.bind_eq_bind, Option.bind_some]
  by_cases hin : s.left.toNat ≤ x ∧ x ≤ s.left.toNat + 7
  · have hnat : ((x : Int) - s.left.toNat).toNat = x - s.left.toNat := by omega
    rw [if_pos hin, if_pos (by omega), hnat, Pattern.digitChecked_eq _ (by omega)]
  · rw [if_neg hin, if_neg (by omega)]

/-- The slots of a line are enough to look for a sprite that shows. -/
theorem firstChecked_eq {x : Nat} (h : x < 2 ^ 31) (sprites : List Sprite) {slot : Nat}
    (hslots : slot + sprites.length ≤ maxSprites) :
    firstChecked x slot sprites = some ((first? sprites x).map fun s => (s, s.pixelAt x)) := by
  induction sprites generalizing slot with
  | nil => rfl
  | cons s rest ih =>
      rw [List.length_cons] at hslots
      rw [firstChecked, Checked.below_eq (by omega), s.pixelAtChecked_eq h, first?,
        List.find?_cons]
      simp only [Option.bind_eq_bind, Option.bind_some]
      cases Pattern.opaquePixel (s.pixelAt x) with
      | true => rfl
      | false => exact ih (by omega)

end Sprite

end Nes
