import Nes.Ppu.Sprite
import Nes.Proofs.Ppu.Fields
import Nes.Proofs.Ppu.PatternRow

/-!
# The row of a sprite, read off sprite memory

What an entry of sprite memory shows on a line is said here in numbers: which row of which tile,
which bits of its planes, and the palette group. The words that the picture unit decodes hold just
these numbers in their digits (`pixelAt_of_fetch`), and the search among the sprites of a line is a
search among the entries (`first?_eq_layer`).
-/

set_option autoImplicit false

namespace Nes

namespace Oam

/-- The row of its shape that an entry shows on a line. -/
def shapeRow (o : Oam) (shape : SpriteShape) (line : Nat) (entry : Fin 64) : Nat :=
  let row := line - (o.line entry).toNat
  if (o.attributes entry).toNat.testBit 7 then shape.height - 1 - row else row

/-- Where the low plane of that row is stored. -/
def planeAddress (o : Oam) (shape : SpriteShape) (line : Nat) (entry : Fin 64) : Nat :=
  let tile := (o.tile entry).toNat
  let row := o.shapeRow shape line entry
  if shape.tall then 0x1000 * (tile % 2) + 16 * (2 * (tile / 2) + row / 8) + row % 8
  else (if shape.upperTable then 0x1000 else 0) + 16 * tile + row

variable {μ : Type} [Board μ]

/-- The pixel of an entry on a line at a column of the screen, 0 outside the sprite. -/
def pixelAt (o : Oam) (board : μ) (shape : SpriteShape) (line : Nat) (entry : Fin 64) (x : Nat) :
    Nat :=
  let left := (o.left entry).toNat
  let attributes := (o.attributes entry).toNat
  let address := o.planeAddress shape line entry
  let column := x - left
  let place := if attributes.testBit 6 then column else 7 - column
  if left ≤ x ∧ x ≤ left + 7 then
    4 * (attributes % 4)
      + Pattern.bitPair (chrByte board address) (chrByte board (address + 8)) place
  else 0

/-- The sprite layer that a line leaves to the next one, at a column of the screen: of the first
eight entries that cover the line, the first that is opaque there. With its pixel comes whether it
is drawn behind the background. -/
def layer (o : Oam) (board : μ) (shape : SpriteShape) (line x : Nat) : Option (Nat × Bool) :=
  let entries := (o.onLine shape.height line).take maxSprites
  (entries.find? fun entry => decide (o.pixelAt board shape line entry x % 4 ≠ 0)).map fun entry =>
    (o.pixelAt board shape line entry x, (o.attributes entry).toNat.testBit 5)

/-- The first entry of a line shows wherever it is opaque. -/
theorem layer_of_first {o : Oam} {board : μ} {shape : SpriteShape} {line x : Nat} {entry : Fin 64}
    (hfirst : ∃ rest, (o.onLine shape.height line).take maxSprites = entry :: rest)
    (hshows : o.pixelAt board shape line entry x % 4 ≠ 0) :
    o.layer board shape line x =
      some (o.pixelAt board shape line entry x, (o.attributes entry).toNat.testBit 5) := by
  obtain ⟨rest, hrest⟩ := hfirst
  simp only [layer, hrest, List.find?_cons, decide_eq_true hshows, Option.map_some]

theorem covers_iff (o : Oam) (height line : Nat) (entry : Fin 64) :
    o.covers height line entry = true ↔
      (o.line entry).toNat ≤ line ∧ line < (o.line entry).toNat + height := by
  rw [covers, Bool.and_eq_true, decide_eq_true_iff, decide_eq_true_iff]

end Oam

theorem SpriteShape.height_le (shape : SpriteShape) : shape.height ≤ 16 := by
  rw [height]
  split <;> decide

namespace Sprite

/-! ## Addresses -/

theorem toNat_patternAddress (shape : SpriteShape) (tile : UInt8) {row : UInt16}
    (h : row.toNat < shape.height) :
    (patternAddress shape tile row).toNat =
      if shape.tall then
        0x1000 * (tile.toNat % 2) + 16 * (2 * (tile.toNat / 2) + row.toNat / 8) + row.toNat % 8
      else (if shape.upperTable then 0x1000 else 0) + 16 * tile.toNat + row.toNat := by
  have hodd : (tile &&& 1).toNat = tile.toNat % 2 := Byte.toNat_and_low tile 1 rfl
  have htile := tile.toNat_lt
  have heven : (tile &&& 0xFE).toNat = 2 * (tile.toNat / 2) := by
    have hfield : (tile &&& 0xFE).toNat = tile.toNat / 2 % 128 * 2 :=
      Byte.toNat_and_field tile 7 1 rfl
    omega
  -- a tall sprite is two tiles, the upper one with an even number
  have hlow : (row &&& 7).toNat = row.toNat % 8 := Word.toNat_and_low row 3 rfl
  have hhigh : (row >>> 3).toNat = row.toNat / 8 := Word.toNat_shiftRight row (by decide)
  obtain ⟨tall, upper⟩ := shape
  cases tall with
  | true =>
      have hrow : row.toNat < 16 := h
      simp only [patternAddress, if_true, UInt16.toNat_add, UInt16.toNat_mul, UInt8.toNat_toUInt16,
        hodd, heven, hlow, hhigh, UInt16.toNat_ofNat, Nat.reducePow, Nat.reduceMod]
      omega
  | false =>
      have hrow : row.toNat < 8 := h
      cases upper <;>
        simp only [patternAddress, if_true, if_false, Bool.false_eq_true, UInt16.toNat_add,
          UInt16.toNat_mul, UInt8.toNat_toUInt16, UInt16.toNat_ofNat] <;>
        omega

theorem toNat_shapeRow (shape : SpriteShape) (attributes : UInt8) {row : Nat}
    (h : row < shape.height) :
    (shapeRow shape attributes (UInt16.ofNat row)).toNat =
      if attributes.toNat.testBit 7 then shape.height - 1 - row else row := by
  have hheight := shape.height_le
  have hrow : (UInt16.ofNat row).toNat = row :=
    UInt16.toNat_ofNat_of_lt (Nat.lt_of_le_of_lt (by omega : _ ≤ 16) (by decide))
  have hlast : (UInt16.ofNat (shape.height - 1)).toNat = shape.height - 1 :=
    UInt16.toNat_ofNat_of_lt (Nat.lt_of_le_of_lt (by omega : _ ≤ 16) (by decide))
  have hflip := Byte.and_ne_zero_iff attributes (m := 0x80) (k := 7) rfl
  unfold shapeRow
  by_cases hbit : attributes.toNat.testBit 7 = true
  · have hle : UInt16.ofNat row ≤ UInt16.ofNat (shape.height - 1) := by
      rw [UInt16.le_iff_toNat_le, hrow, hlast]
      omega
    rw [if_pos (hflip.mpr hbit), if_pos hbit, UInt16.toNat_sub_of_le _ _ hle, hrow, hlast]
  · rw [if_neg (mt hflip.mp hbit), if_neg hbit, hrow]

theorem toNat_rowAddress (o : Oam) (shape : SpriteShape) {line : Nat} {entry : Fin 64}
    (h : o.covers shape.height line entry = true) :
    (rowAddress shape o entry (UInt16.ofNat (line - (o.line entry).toNat))).toNat =
      o.planeAddress shape line entry := by
  have hcovers := (o.covers_iff shape.height line entry).mp h
  have hoffset : line - (o.line entry).toNat < shape.height := by omega
  have hrow := toNat_shapeRow shape (o.attributes entry) hoffset
  have hlt : (shapeRow shape (o.attributes entry)
      (UInt16.ofNat (line - (o.line entry).toNat))).toNat < shape.height := by
    rw [hrow]
    split <;> omega
  rw [rowAddress, toNat_patternAddress shape _ hlt, hrow]
  rfl

theorem planeAddress_lt (o : Oam) (shape : SpriteShape) {line : Nat} {entry : Fin 64}
    (h : o.covers shape.height line entry = true) :
    o.planeAddress shape line entry + 8 < 0x2000 := by
  have hcovers := (o.covers_iff shape.height line entry).mp h
  have hrow : o.shapeRow shape line entry < shape.height := by
    simp only [Oam.shapeRow]
    split <;> omega
  have htile := (o.tile entry).toNat_lt
  obtain ⟨tall, upper⟩ := shape
  simp only [Oam.planeAddress]
  generalize o.shapeRow _ line entry = row at hrow ⊢
  cases tall with
  | true =>
      have : row < 16 := hrow
      rw [if_pos rfl]
      omega
  | false =>
      have : row < 8 := hrow
      rw [if_neg Bool.false_ne_true]
      split <;> omega

/-! ## Rows -/

/-- A digit of a decoded row, which a horizontal flip has turned round. -/
theorem digit_decode (attributes low high : UInt8) {column : Nat} (h : column < 8) :
    (Pattern.digit (decode attributes low high) (UInt32.ofNat column)).toNat =
      4 * (attributes.toNat % 4) + Pattern.bitPair low high
        (if attributes.toNat.testBit 6 then column else 7 - column) := by
  have hflip := Byte.and_ne_zero_iff attributes (m := 0x40) (k := 6) rfl
  unfold decode
  dsimp only
  by_cases hbit : attributes.toNat.testBit 6 = true
  · have hplace : 7 - (7 - column) = column := by omega
    rw [if_pos (hflip.mpr hbit), if_pos hbit, Pattern.digit_row _ _ _ h,
      Pattern.bitPair_reverse _ _ (by omega), hplace]
  · rw [if_neg (mt hflip.mp hbit), if_neg hbit, Pattern.digit_row _ _ _ h]

theorem behind_eq (attributes : UInt8) :
    decide ((attributes >>> 5) &&& 1 ≠ 0) = attributes.toNat.testBit 5 := by
  have hlow := Byte.and_ne_zero_iff (attributes >>> 5) (m := 1) (k := 0) rfl
  have hshift : (attributes >>> 5).toNat = attributes.toNat >>> 5 := UInt8.toNat_shiftRight _ _
  rw [hshift, Nat.testBit_shiftRight] at hlow
  by_cases hbit : attributes.toNat.testBit 5 = true
  · rw [hbit]
    exact decide_eq_true (hlow.mpr hbit)
  · rw [Bool.eq_false_iff.mpr hbit]
    exact decide_eq_false (mt hlow.mp hbit)

variable {μ : Type} [Board μ]

/-- **The decoded sprite of an entry** shows what sprite memory says. -/
theorem pixelAt_of_fetch {vram : Vram} {board : μ} {shape : SpriteShape} {o : Oam} {line : Nat}
    {entry : Fin 64} {s : Sprite} (hcovers : o.covers shape.height line entry = true)
    (h : fetch? vram board shape o line entry = some s) :
    (∀ x, (s.pixelAt x).toNat = o.pixelAt board shape line entry x) ∧
      s.behind = (o.attributes entry).toNat.testBit 5 ∧ s.entry = entry := by
  have haddr := toNat_rowAddress o shape hcovers
  have hlt := planeAddress_lt o shape hcovers
  simp only [fetch?, fetchRow?, Option.map_eq_some_iff] at h
  generalize rowAddress shape o entry _ = address at haddr h
  obtain ⟨pattern, hpattern, rfl⟩ := h
  have hnext : (address + 8).toNat = o.planeAddress shape line entry + 8 := by
    rw [UInt16.toNat_add, haddr]
    exact Nat.mod_eq_of_lt (Nat.lt_trans hlt (by decide))
  refine ⟨fun x => ?_, behind_eq _, rfl⟩
  split at hpattern
  · next low high hlow hhigh =>
      have hlow' := Vram.eq_chrByte_of_read (by omega) hlow
      have hhigh' := Vram.eq_chrByte_of_read (by omega) hhigh
      rw [haddr] at hlow'
      rw [hnext] at hhigh'
      obtain rfl : decode (o.attributes entry) low high = pattern := by simpa using hpattern
      simp only [pixelAt, Oam.pixelAt]
      by_cases hx : (o.left entry).toNat ≤ x ∧ x ≤ (o.left entry).toNat + 7
      · rw [if_pos hx, if_pos hx, digit_decode _ _ _ (by omega), hlow', hhigh']
      · rw [if_neg hx, if_neg hx]
        rfl
  · cases hpattern

/-! ## The search -/

/-- A search among results is a search among what they are results for. -/
theorem map_find?_filterMap {α σ τ : Type} {f : α → Option σ} {p : σ → Bool} {q : α → Bool}
    {g : σ → τ} {g' : α → τ} {l : List α}
    (h : ∀ a ∈ l, ∃ s, f a = some s ∧ p s = q a ∧ g s = g' a) :
    ((l.filterMap f).find? p).map g = (l.find? q).map g' := by
  induction l with
  | nil => rfl
  | cons a l ih =>
      obtain ⟨s, hs, hp, hg⟩ := h a List.mem_cons_self
      have htail := ih fun a' h' => h a' (List.mem_cons_of_mem a h')
      rw [List.filterMap_cons_some hs, List.find?_cons, List.find?_cons, hp]
      cases q a with
      | true => simp [hg]
      | false => exact htail

/-- **The sprites found on a line** show the layer that sprite memory says, if the cartridge has all
bytes of their shapes. -/
theorem first?_eq_layer {vram : Vram} {board : μ} {shape : SpriteShape} {o : Oam} {line : Nat}
    (h : ∀ entry ∈ (o.onLine shape.height line).take maxSprites,
      (fetch? vram board shape o line entry).isSome = true) (x : Nat) :
    (first? (((o.onLine shape.height line).take maxSprites).filterMap
        (fetch? vram board shape o line)) x).map (fun s => ((s.pixelAt x).toNat, s.behind)) =
      o.layer board shape line x := by
  refine map_find?_filterMap fun entry he => ?_
  have hcovers : o.covers shape.height line entry = true :=
    (List.mem_filter.mp (List.mem_of_mem_take he)).2
  obtain ⟨s, hs⟩ := Option.isSome_iff_exists.mp (h entry he)
  obtain ⟨hpixel, hbehind, -⟩ := pixelAt_of_fetch hcovers hs
  refine ⟨s, hs, ?_, ?_⟩
  · rw [Pattern.opaquePixel_eq, hpixel]
  · rw [hpixel, hbehind]

end Sprite

end Nes
