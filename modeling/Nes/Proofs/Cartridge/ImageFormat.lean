import Nes.Cartridge.INes
import Nes.Proofs.Ppu.Fields

/-!
# The image format

What the bytes of an image have to be is said by five requirements, in the order in which they are
checked, and what they mean by `contents`. `parse` refuses an image for the first requirement that
it does not meet and otherwise reads its contents (`parse_eq`).

The bytes 8 to 15 and the bytes behind the last section are not looked at (`parse_congr`). The images
that can be read are those that are put together from parts, with anything behind them, and reading
gives the parts back (`parse_eq_ok_iff_exists_parts`). `readByFormat` collects what holds of every
image, and of every sequence of bytes that is none.
-/

set_option autoImplicit false

namespace Nes.INes

/-! ## What an image has to have -/

/-- Where the program memory starts: after the header and the trainer that bit 2 of byte 6
announces. -/
def prgStart (image : Array UInt8) : Nat :=
  16 + if (image.getD 6 0).toNat.testBit 2 then 512 else 0

/-- Where the program memory ends and the picture memory starts. -/
def prgEnd (image : Array UInt8) : Nat := prgStart image + 16384 * (image.getD 4 0).toNat

/-- Where the picture memory ends, and the image with it. -/
def chrEnd (image : Array UInt8) : Nat := prgEnd image + 8192 * (image.getD 5 0).toNat

/-- The sections follow each other behind the header. -/
theorem sections_ordered (image : Array UInt8) :
    16 ≤ prgStart image ∧ prgStart image ≤ prgEnd image ∧ prgEnd image ≤ chrEnd image :=
  ⟨Nat.le_add_right .., Nat.le_add_right .., Nat.le_add_right ..⟩

/-- What an image has to have. -/
inductive Requirement
  | header
  | mark
  | trainer
  | prgRom
  | chrRom
  deriving DecidableEq, Repr

namespace Requirement

/-- The requirements in the order in which they are checked. -/
def all : List Requirement := [header, mark, trainer, prgRom, chrRom]

/-- When an image meets a requirement. -/
def Met (image : Array UInt8) : Requirement → Prop
  | header => 16 ≤ image.size
  | mark => image.extract 0 4 = #[0x4E, 0x45, 0x53, 0x1A]
  | trainer => prgStart image ≤ image.size
  | prgRom => prgEnd image ≤ image.size
  | chrRom => chrEnd image ≤ image.size

instance (image : Array UInt8) (r : Requirement) : Decidable (r.Met image) :=
  match r with
  | header => inferInstanceAs (Decidable (16 ≤ image.size))
  | mark => inferInstanceAs (Decidable (image.extract 0 4 = #[0x4E, 0x45, 0x53, 0x1A]))
  | trainer => inferInstanceAs (Decidable (prgStart image ≤ image.size))
  | prgRom => inferInstanceAs (Decidable (prgEnd image ≤ image.size))
  | chrRom => inferInstanceAs (Decidable (chrEnd image ≤ image.size))

/-- The error that names a requirement. -/
def error : Requirement → Error
  | header => .truncated .header
  | mark => .badMagic
  | trainer => .truncated .trainer
  | prgRom => .truncated .prgRom
  | chrRom => .truncated .chrRom

end Requirement

/-- The first requirement that an image does not meet. -/
def firstUnmet (image : Array UInt8) : Option Requirement :=
  Requirement.all.find? fun r => decide (¬ r.Met image)

/-- The cartridge that the bytes of an image mean. -/
def contents (image : Array UInt8) : Cartridge where
  prg := image.extract (prgStart image) (prgEnd image)
  chr := if image.getD 5 0 = 0 then Array.replicate 8192 0
    else image.extract (prgEnd image) (chrEnd image)
  sram := Vector.replicate 8192 0
  mirroring :=
    if (image.getD 6 0).toNat.testBit 3 then .fourScreen
    else if (image.getD 6 0).toNat.testBit 0 then .vertical
    else .horizontal
  mapper := (image.getD 6 0 >>> 4) ||| (image.getD 7 0 &&& 0xF0)
  battery := (image.getD 6 0).toNat.testBit 1

/-- Each byte of flags gives one half of the mapper number. -/
theorem toNat_mapper (flags6 flags7 : UInt8) :
    ((flags6 >>> 4) ||| (flags7 &&& 0xF0)).toNat =
      flags7.toNat / 16 * 16 + flags6.toNat / 16 := by
  have hlow : (flags6 >>> 4).toNat = flags6.toNat / 16 := by
    rw [UInt8.toNat_shiftRight, Nat.shiftRight_eq_div_pow]
    rfl
  have hhigh : (flags7 &&& 0xF0).toNat = 2 ^ 4 * (flags7.toNat / 16) := by
    have h7 := flags7.toNat_lt
    rw [Byte.toNat_and_field flags7 4 4 rfl]
    omega
  have hlt : flags6.toNat / 16 < 2 ^ 4 := by
    have h6 := flags6.toNat_lt
    omega
  rw [UInt8.toNat_or, hlow, hhigh, Nat.or_comm, ← Nat.two_pow_add_eq_or_of_lt hlt, Nat.mul_comm]

/-! ## Reading follows the format -/

/-- The header of an image, as reading it takes it. -/
def headerOf (image : Array UInt8) : Header :=
  .ofBytes (image.getD 4 0) (image.getD 5 0) (image.getD 6 0) (image.getD 7 0)

theorem prgOffset_headerOf (image : Array UInt8) : (headerOf image).prgOffset = prgStart image := by
  have hbit := Byte.and_ne_zero_iff (image.getD 6 0) (k := 2) (m := 0x04) rfl
  simp only [Header.prgOffset, headerOf, Header.ofBytes, prgStart, hbit, decide_eq_true_eq]
  rfl

theorem chrOffset_headerOf (image : Array UInt8) : (headerOf image).chrOffset = prgEnd image := by
  rw [Header.chrOffset, prgOffset_headerOf, prgEnd, Nat.mul_comm]
  rfl

theorem prgEnd_add_chrSize_headerOf (image : Array UInt8) :
    prgEnd image + (headerOf image).chrSize = chrEnd image := by
  rw [chrEnd, Nat.mul_comm]
  rfl

theorem layout_eq (flags : UInt8) :
    Header.layout flags =
      if flags.toNat.testBit 3 then .fourScreen
      else if flags.toNat.testBit 0 then .vertical
      else .horizontal := by
  have hfour := Byte.and_ne_zero_iff flags (k := 3) (m := 0x08) rfl
  have hone := Byte.and_ne_zero_iff flags (k := 0) (m := 0x01) rfl
  simp only [Header.layout, hfour, hone]

/-- The parts that reading cuts out of an image of full length are its contents. -/
theorem ofParts_headerOf {image : Array UInt8} (h : chrEnd image ≤ image.size) :
    Cartridge.ofParts (image.extract (prgStart image) (prgEnd image))
        (image.extract (prgEnd image) (chrEnd image)) (headerOf image).mapper
        (headerOf image).mirroring (headerOf image).battery =
      contents image := by
  have hempty : (image.extract (prgEnd image) (chrEnd image)).isEmpty = true ↔
      image.getD 5 0 = 0 := by
    rw [Array.isEmpty_iff_size_eq_zero, Array.size_extract, Nat.min_eq_left h, chrEnd,
      Nat.add_sub_cancel_left, ← UInt8.toNat_inj]
    show 8192 * (image.getD 5 0).toNat = 0 ↔ (image.getD 5 0).toNat = 0
    omega
  have hbattery := Byte.and_ne_zero_iff (image.getD 6 0) (k := 1) (m := 0x02) rfl
  simp only [Cartridge.ofParts, headerOf, Header.ofBytes, contents, hempty, layout_eq, hbattery,
    Bool.decide_eq_true]
  rfl

/-- Reading the header looks for the first two requirements. -/
theorem readHeader_eq (image : Array UInt8) :
    readHeader image =
      if ¬ Requirement.header.Met image then .error Requirement.header.error
      else if ¬ Requirement.mark.Met image then .error Requirement.mark.error
      else .ok (headerOf image) := by
  simp only [readHeader, headerSize, Requirement.Met, Nat.not_le]
  rfl

/-- The first requirement that is not met, looked for one by one. -/
theorem firstUnmet_eq (image : Array UInt8) :
    firstUnmet image =
      if ¬ Requirement.header.Met image then some .header
      else if ¬ Requirement.mark.Met image then some .mark
      else if ¬ Requirement.trainer.Met image then some .trainer
      else if ¬ Requirement.prgRom.Met image then some .prgRom
      else if ¬ Requirement.chrRom.Met image then some .chrRom
      else none := by
  simp only [firstUnmet, Requirement.all, List.find?_cons, List.find?_nil]
  repeat' split
  all_goals simp_all

/-- An image is refused for the first requirement that it does not meet, and else read. -/
theorem parse_eq (image : Array UInt8) :
    parse image =
      match firstUnmet image with
      | some r => .error r.error
      | none => .ok (contents image) := by
  rw [firstUnmet_eq, parse, readHeader_eq]
  by_cases hheader : ¬ Requirement.header.Met image
  · rw [if_pos hheader, if_pos hheader]
    rfl
  rw [if_neg hheader, if_neg hheader]
  by_cases hmark : ¬ Requirement.mark.Met image
  · rw [if_pos hmark, if_pos hmark]
    rfl
  rw [if_neg hmark, if_neg hmark]
  -- the header is there, and the ends of the sections are compared with the length of the image
  simp only [bind, Except.bind, prgOffset_headerOf, chrOffset_headerOf,
    prgEnd_add_chrSize_headerOf, Requirement.Met, Nat.not_le]
  split
  · rfl
  · split
    · rfl
    · split
      · rfl
      · next hchr => rw [ofParts_headerOf (Nat.le_of_not_lt hchr)]

/-- An image of full length has all its sections. -/
theorem firstUnmet_eq_none_iff (image : Array UInt8) :
    firstUnmet image = none ↔
      Requirement.header.Met image ∧ Requirement.mark.Met image ∧ chrEnd image ≤ image.size := by
  obtain ⟨-, hprg, hchr⟩ := sections_ordered image
  have hsections : (prgStart image ≤ image.size ∧ prgEnd image ≤ image.size ∧
      chrEnd image ≤ image.size) ↔ chrEnd image ≤ image.size := by
    omega
  rw [firstUnmet, List.find?_eq_none]
  simp only [Requirement.all, List.forall_mem_cons, List.not_mem_nil, false_implies, implies_true,
    and_true, decide_eq_true_eq, Classical.not_not]
  rw [← hsections]
  rfl

theorem parse_eq_ok_iff {image : Array UInt8} {c : Cartridge} :
    parse image = .ok c ↔ firstUnmet image = none ∧ contents image = c := by
  rw [parse_eq]
  cases firstUnmet image with
  | none => simp
  | some r => simp

theorem parse_eq_error_iff {image : Array UInt8} {e : Error} :
    parse image = .error e ↔ (firstUnmet image).map Requirement.error = some e := by
  rw [parse_eq]
  cases firstUnmet image with
  | none => simp
  | some r => simp

/-- Too few bytes are refused for their number, even where the mark is wrong as well. -/
example : parse #[0x4E, 0x45, 0x53, 0x1B] = .error (.truncated .header) := by
  rw [parse_eq_error_iff]
  decide

/-! ## Bytes that are not looked at -/

/-- A part of an image is made of the bytes in its range. -/
theorem getElem?_extract_range (xs : Array UInt8) (i j k : Nat) :
    (xs.extract i j)[k]? = if i + k < j then xs[i + k]? else none := by
  rw [Array.getElem?_extract]
  by_cases hk : i + k < xs.size
  · have hiff : k < min j xs.size - i ↔ i + k < j := by omega
    simp only [hiff]
  · have hout : ¬ k < min j xs.size - i := by omega
    rw [if_neg hout, Array.getElem?_eq_none (Nat.le_of_not_lt hk), ite_self]

theorem extract_congr {xs ys : Array UInt8} {i j : Nat}
    (h : ∀ k, i ≤ k → k < j → ys[k]? = xs[k]?) : ys.extract i j = xs.extract i j := by
  apply Array.ext_getElem?
  intro k
  rw [getElem?_extract_range, getElem?_extract_range]
  split
  · next hk => exact h (i + k) (Nat.le_add_right i k) hk
  · rfl

/-- Images agree that have the same bytes in their sections and in the first half of the header,
if both are long enough or equally long. -/
theorem parse_congr {image image' : Array UInt8}
    (hsize : image'.size = image.size ∨
      chrEnd image ≤ image.size ∧ chrEnd image ≤ image'.size)
    (hbyte : ∀ k < chrEnd image, k < 8 ∨ 16 ≤ k → image'[k]? = image[k]?) :
    parse image' = parse image := by
  obtain ⟨hstart, hprg, hchr⟩ := sections_ordered image
  have hget (k : Nat) (hk : k < 8) : image'.getD k 0 = image.getD k 0 := by
    rw [Array.getD_eq_getD_getElem?, Array.getD_eq_getD_getElem?, hbyte k (by omega) (.inl hk)]
  -- the header puts the sections at the same places
  have hstart' : prgStart image' = prgStart image := by
    rw [prgStart, prgStart, hget 6 (by decide)]
  have hprg' : prgEnd image' = prgEnd image := by
    rw [prgEnd, prgEnd, hstart', hget 4 (by decide)]
  have hchr' : chrEnd image' = chrEnd image := by
    rw [chrEnd, chrEnd, hprg', hget 5 (by decide)]
  have hmet (r : Requirement) : r.Met image' ↔ r.Met image := by
    cases r with
    | header => simp only [Requirement.Met]; omega
    | mark =>
        have hmark : image'.extract 0 4 = image.extract 0 4 :=
          extract_congr fun k _ hk => hbyte k (by omega) (.inl (by omega))
        simp only [Requirement.Met, hmark]
    | trainer => simp only [Requirement.Met, hstart']; omega
    | prgRom => simp only [Requirement.Met, hprg']; omega
    | chrRom => simp only [Requirement.Met, hchr']; omega
  have hunmet : firstUnmet image' = firstUnmet image := by
    simp only [firstUnmet, hmet]
  have hcontents : contents image' = contents image := by
    have hprgRom : image'.extract (prgStart image) (prgEnd image) =
        image.extract (prgStart image) (prgEnd image) :=
      extract_congr fun k hk hlt => hbyte k (by omega) (.inr (by omega))
    have hchrRom : image'.extract (prgEnd image) (chrEnd image) =
        image.extract (prgEnd image) (chrEnd image) :=
      extract_congr fun k hk hlt => hbyte k (by omega) (.inr (by omega))
    simp only [contents, hstart', hprg', hchr', hprgRom, hchrRom, hget 5 (by decide),
      hget 6 (by decide), hget 7 (by decide)]
  rw [parse_eq, parse_eq, hunmet, hcontents]

/-! ## Images put together from parts -/

/-- What an image is put together from. The low half of byte 7 and the bytes 8 to 15 have no
meaning, and the bit for the vertical layout has none next to the one for four screens. -/
structure Parts where
  prgUnits : UInt8
  chrUnits : UInt8
  prg : Vector UInt8 (16384 * prgUnits.toNat)
  chr : Vector UInt8 (8192 * chrUnits.toNat)
  trainer : Option (Vector UInt8 512)
  mapper : UInt8
  fourScreen : Bool
  vertical : Bool
  battery : Bool
  spare : Fin 16
  padding : Vector UInt8 8

namespace Parts

/-- Byte 6, with the low half of the mapper number above the flags. -/
def flags6 (p : Parts) : UInt8 :=
  .ofNat (p.mapper.toNat % 16 * 16 + p.fourScreen.toNat * 8 + p.trainer.isSome.toNat * 4 +
    p.battery.toNat * 2 + p.vertical.toNat)

/-- Byte 7, with the high half of the mapper number at its place. -/
def flags7 (p : Parts) : UInt8 := .ofNat (p.mapper.toNat / 16 * 16 + p.spare)

/-- The first half of the header. -/
def marks (p : Parts) : Array UInt8 :=
  #[0x4E, 0x45, 0x53, 0x1A, p.prgUnits, p.chrUnits, p.flags6, p.flags7]

/-- The header and the trainer. -/
def front (p : Parts) : Array UInt8 :=
  p.marks ++ p.padding.toArray ++ (p.trainer.map Vector.toArray).getD #[]

/-- The image of the parts. -/
def bytes (p : Parts) : Array UInt8 := p.front ++ p.prg.toArray ++ p.chr.toArray

/-- The cartridge with the parts; without units of picture memory it gets CHR RAM. -/
def cartridge (p : Parts) : Cartridge where
  prg := p.prg.toArray
  chr := if p.chrUnits = 0 then Array.replicate 8192 0 else p.chr.toArray
  sram := Vector.replicate 8192 0
  mirroring := if p.fourScreen then .fourScreen else if p.vertical then .vertical else .horizontal
  mapper := p.mapper
  battery := p.battery

/-- A flag is worth its bit at most. -/
theorem flags_le_one (p : Parts) :
    p.fourScreen.toNat ≤ 1 ∧ p.trainer.isSome.toNat ≤ 1 ∧ p.battery.toNat ≤ 1 ∧
      p.vertical.toNat ≤ 1 :=
  ⟨Bool.toNat_le _, Bool.toNat_le _, Bool.toNat_le _, Bool.toNat_le _⟩

theorem toNat_flags6 (p : Parts) :
    p.flags6.toNat = p.mapper.toNat % 16 * 16 + p.fourScreen.toNat * 8 +
      p.trainer.isSome.toNat * 4 + p.battery.toNat * 2 + p.vertical.toNat := by
  obtain ⟨hfour, htrainer, hbattery, hvertical⟩ := p.flags_le_one
  rw [flags6, UInt8.toNat_ofNat_of_lt']
  show _ < 256
  omega

theorem toNat_flags7 (p : Parts) : p.flags7.toNat = p.mapper.toNat / 16 * 16 + p.spare := by
  have hmapper := p.mapper.toNat_lt
  have hspare := p.spare.isLt
  rw [flags7, UInt8.toNat_ofNat_of_lt']
  show _ < 256
  omega

/-- The flags are found at their bits. -/
theorem testBit_flags6 (p : Parts) :
    p.flags6.toNat.testBit 3 = p.fourScreen ∧ p.flags6.toNat.testBit 2 = p.trainer.isSome ∧
      p.flags6.toNat.testBit 1 = p.battery ∧ p.flags6.toNat.testBit 0 = p.vertical := by
  obtain ⟨hfour, htrainer, hbattery, hvertical⟩ := p.flags_le_one
  have hbit {k : Nat} {b : Bool} (h : p.flags6.toNat / 2 ^ k % 2 = b.toNat) :
      p.flags6.toNat.testBit k = b := by
    rw [Nat.testBit_eq_decide_div_mod_eq, h]
    cases b <;> rfl
  rw [toNat_flags6] at hbit ⊢
  exact ⟨hbit (by omega), hbit (by omega), hbit (by omega), hbit (by omega)⟩

theorem mapper_flags (p : Parts) : (p.flags6 >>> 4) ||| (p.flags7 &&& 0xF0) = p.mapper := by
  obtain ⟨hfour, htrainer, hbattery, hvertical⟩ := p.flags_le_one
  have hspare := p.spare.isLt
  rw [← UInt8.toNat_inj, toNat_mapper, toNat_flags6, toNat_flags7]
  omega

/-! ### Where the parts are in their image -/

theorem size_front (p : Parts) :
    p.front.size = 16 + if p.trainer.isSome then 512 else 0 := by
  cases h : p.trainer with
  | none => simp [front, marks, h]
  | some trainer => simp [front, marks, h]

theorem getElem?_bytes_append (p : Parts) (rest : Array UInt8) {k : Nat} (hk : k < 8) :
    (p.bytes ++ rest)[k]? = p.marks[k]? := by
  have hsize : k < p.marks.size := hk
  simp only [bytes, front, Array.append_assoc]
  exact Array.getElem?_append_left hsize

theorem getD_bytes_append (p : Parts) (rest : Array UInt8) :
    (p.bytes ++ rest).getD 4 0 = p.prgUnits ∧ (p.bytes ++ rest).getD 5 0 = p.chrUnits ∧
      (p.bytes ++ rest).getD 6 0 = p.flags6 ∧ (p.bytes ++ rest).getD 7 0 = p.flags7 := by
  simp only [Array.getD_eq_getD_getElem?]
  refine ⟨?_, ?_, ?_, ?_⟩
  all_goals
    rw [getElem?_bytes_append p rest (by decide)]
    rfl

theorem prgStart_bytes_append (p : Parts) (rest : Array UInt8) :
    prgStart (p.bytes ++ rest) = p.front.size := by
  rw [prgStart, (p.getD_bytes_append rest).2.2.1, p.testBit_flags6.2.1, size_front]

theorem prgEnd_bytes_append (p : Parts) (rest : Array UInt8) :
    prgEnd (p.bytes ++ rest) = (p.front ++ p.prg.toArray).size := by
  rw [prgEnd, prgStart_bytes_append, (p.getD_bytes_append rest).1, Array.size_append,
    Vector.size_toArray]

theorem chrEnd_bytes_append (p : Parts) (rest : Array UInt8) :
    chrEnd (p.bytes ++ rest) = p.bytes.size := by
  have hsize : p.bytes.size = (p.front ++ p.prg.toArray).size + p.chr.toArray.size :=
    Array.size_append
  rw [chrEnd, prgEnd_bytes_append, (p.getD_bytes_append rest).2.1, hsize, Vector.size_toArray]

end Parts

/-- What stands between two parts of an array is cut out at their sizes. -/
theorem extract_append_middle (xs ys zs : Array UInt8) :
    (xs ++ ys ++ zs).extract xs.size (xs ++ ys).size = ys := by
  simp [Array.extract_append]

/-- An image put together from parts is read as the cartridge with these parts. -/
theorem parse_bytes_append (p : Parts) (rest : Array UInt8) :
    parse (p.bytes ++ rest) = .ok p.cartridge := by
  obtain ⟨-, hchrUnits, hflags6, hflags7⟩ := p.getD_bytes_append rest
  obtain ⟨hfour, -, hbattery, hvertical⟩ := p.testBit_flags6
  have hstart := p.prgStart_bytes_append rest
  have hprgEnd := p.prgEnd_bytes_append rest
  have hchrEnd := p.chrEnd_bytes_append rest
  have hlength : p.bytes.size ≤ (p.bytes ++ rest).size := by
    rw [Array.size_append]
    exact Nat.le_add_right ..
  have hmark : (p.bytes ++ rest).extract 0 4 = p.marks.extract 0 4 :=
    extract_congr fun k _ hk => p.getElem?_bytes_append rest (by omega)
  -- each section is found where the ones before it end
  have hprg : (p.bytes ++ rest).extract p.front.size (p.front ++ p.prg.toArray).size =
      p.prg.toArray := by
    rw [Parts.bytes, Array.append_assoc]
    exact extract_append_middle ..
  have hchr : (p.bytes ++ rest).extract (p.front ++ p.prg.toArray).size p.bytes.size =
      p.chr.toArray :=
    extract_append_middle ..
  rw [parse_eq_ok_iff, firstUnmet_eq_none_iff]
  refine ⟨⟨?header, hmark, hchrEnd ▸ hlength⟩, ?contents⟩
  case header =>
    obtain ⟨h16, hprgRom, hchrRom⟩ := sections_ordered (p.bytes ++ rest)
    show 16 ≤ _
    omega
  case contents =>
    simp only [contents, hstart, hprgEnd, hchrEnd, hchrUnits, hflags6, hflags7, hprg, hchr, hfour,
      hbattery, hvertical, p.mapper_flags, Parts.cartridge]

/-! ### The parts of an image -/

/-- The parts that an image of full length is made of. -/
def partsOf (image : Array UInt8) (h : chrEnd image ≤ image.size) : Parts where
  prgUnits := image.getD 4 0
  chrUnits := image.getD 5 0
  prg := ⟨image.extract (prgStart image) (prgEnd image), by
    obtain ⟨-, -, hle⟩ := sections_ordered image
    rw [Array.size_extract, Nat.min_eq_left (Nat.le_trans hle h), prgEnd, Nat.add_sub_cancel_left]⟩
  chr := ⟨image.extract (prgEnd image) (chrEnd image), by
    rw [Array.size_extract, Nat.min_eq_left h, chrEnd, Nat.add_sub_cancel_left]⟩
  trainer :=
    if (image.getD 6 0).toNat.testBit 2 then some (.ofFn fun i => image.getD (16 + i) 0) else none
  mapper := (image.getD 6 0 >>> 4) ||| (image.getD 7 0 &&& 0xF0)
  fourScreen := (image.getD 6 0).toNat.testBit 3
  vertical := (image.getD 6 0).toNat.testBit 0
  battery := (image.getD 6 0).toNat.testBit 1
  spare := ⟨(image.getD 7 0).toNat % 16, Nat.mod_lt _ (by decide)⟩
  padding := .ofFn fun i => image.getD (8 + i) 0

theorem cartridge_partsOf {image : Array UInt8} (h : chrEnd image ≤ image.size) :
    (partsOf image h).cartridge = contents image := rfl

theorem flags6_partsOf {image : Array UInt8} (h : chrEnd image ≤ image.size) :
    (partsOf image h).flags6 = image.getD 6 0 := by
  have hisSome : (partsOf image h).trainer.isSome = (image.getD 6 0).toNat.testBit 2 := by
    show (if (image.getD 6 0).toNat.testBit 2 then some _ else none).isSome = _
    cases (image.getD 6 0).toNat.testBit 2 <;> rfl
  have h6 := (image.getD 6 0).toNat_lt
  rw [← UInt8.toNat_inj, Parts.toNat_flags6, hisSome]
  simp only [partsOf, toNat_mapper, Nat.toNat_testBit]
  omega

theorem flags7_partsOf {image : Array UInt8} (h : chrEnd image ≤ image.size) :
    (partsOf image h).flags7 = image.getD 7 0 := by
  have h6 := (image.getD 6 0).toNat_lt
  have h7 := (image.getD 7 0).toNat_lt
  rw [← UInt8.toNat_inj, Parts.toNat_flags7]
  simp only [partsOf, toNat_mapper]
  omega

/-- Bytes taken one by one make up the range they are taken from. -/
theorem toArray_ofFn_getD (image : Array UInt8) {i n : Nat} (h : i + n ≤ image.size) :
    (Vector.ofFn fun k : Fin n => image.getD (i + k) 0).toArray = image.extract i (i + n) := by
  apply Array.ext
  · rw [Vector.size_toArray, Array.size_extract]
    omega
  · intro k hk hk'
    have hlt : k < n := by simpa using hk
    have hin : i + k < image.size := by omega
    simp [hin]

theorem marks_partsOf {image : Array UInt8} (h : chrEnd image ≤ image.size)
    (hmark : Requirement.mark.Met image) : (partsOf image h).marks = image.extract 0 8 := by
  have hlength : 4 + 4 ≤ image.size := by
    obtain ⟨hstart, hprg, hchr⟩ := sections_ordered image
    omega
  have hrest : #[image.getD 4 0, image.getD 5 0, image.getD 6 0, image.getD 7 0] =
      image.extract 4 8 :=
    toArray_ofFn_getD image hlength
  have hsplit : image.extract 0 4 ++ image.extract 4 8 = image.extract 0 8 :=
    Array.extract_append_extract
  rw [← hsplit, hmark, ← hrest, Parts.marks, flags6_partsOf, flags7_partsOf]
  rfl

theorem front_partsOf {image : Array UInt8} (h : chrEnd image ≤ image.size)
    (hmark : Requirement.mark.Met image) :
    (partsOf image h).front = image.extract 0 (prgStart image) := by
  obtain ⟨hstart, hprg, hchr⟩ := sections_ordered image
  have hpadding : (partsOf image h).padding.toArray = image.extract 8 16 :=
    toArray_ofFn_getD image (by omega)
  have hheader : image.extract 0 8 ++ image.extract 8 16 = image.extract 0 16 :=
    Array.extract_append_extract
  rw [Parts.front, marks_partsOf h hmark, hpadding, hheader]
  -- with a trainer and without one, the same bit says how far the front reaches
  by_cases hbit : (image.getD 6 0).toNat.testBit 2 = true
  · have hstart : prgStart image = 16 + 512 := by rw [prgStart, if_pos hbit]
    have htrainer : ((partsOf image h).trainer.map Vector.toArray).getD #[] =
        image.extract 16 (16 + 512) := by
      simp only [partsOf, hbit, if_true, Option.map_some, Option.getD_some]
      exact toArray_ofFn_getD image (by omega)
    rw [htrainer, hstart]
    exact Array.extract_append_extract
  · have hstart : prgStart image = 16 := by rw [prgStart, if_neg hbit]
    have htrainer : ((partsOf image h).trainer.map Vector.toArray).getD #[] = #[] := by
      simp only [partsOf, hbit]
      rfl
    rw [htrainer, hstart, Array.append_empty]

/-- An image of full length is put together from its parts, with the rest behind them. -/
theorem bytes_partsOf_append {image : Array UInt8} (h : chrEnd image ≤ image.size)
    (hmark : Requirement.mark.Met image) :
    (partsOf image h).bytes ++ image.extract (chrEnd image) image.size = image := by
  obtain ⟨-, hprg, hchr⟩ := sections_ordered image
  have hstep {i j k : Nat} (hij : i ≤ j) (hjk : j ≤ k) :
    image.extract i j ++ image.extract j k = image.extract i k := by
      rw [Array.extract_append_extract, Nat.min_eq_left hij, Nat.max_eq_right hjk]
  calc (partsOf image h).bytes ++ image.extract (chrEnd image) image.size
      = image.extract 0 (prgStart image) ++ image.extract (prgStart image) (prgEnd image) ++
          image.extract (prgEnd image) (chrEnd image) ++
          image.extract (chrEnd image) image.size := by
        rw [Parts.bytes, front_partsOf h hmark]
        rfl
    _ = image.extract 0 image.size := by
        rw [hstep (Nat.zero_le _) hprg, hstep (Nat.zero_le _) hchr, hstep (Nat.zero_le _) h]
    _ = image := Array.extract_size

/-- An image can be read if it is put together from parts, whatever stands behind them. -/
theorem parse_eq_ok_iff_exists_parts {image : Array UInt8} {c : Cartridge} :
    parse image = .ok c ↔
      ∃ (p : Parts) (rest : Array UInt8), image = p.bytes ++ rest ∧ p.cartridge = c := by
  constructor
  · intro hparse
    obtain ⟨hunmet, hc⟩ := parse_eq_ok_iff.mp hparse
    obtain ⟨-, hmark, hlength⟩ := (firstUnmet_eq_none_iff image).mp hunmet
    exact ⟨partsOf image hlength, image.extract (chrEnd image) image.size,
      (bytes_partsOf_append hlength hmark).symm, (cartridge_partsOf hlength).trans hc⟩
  · rintro ⟨p, rest, rfl, rfl⟩
    exact parse_bytes_append p rest

/-! ## The format -/

/-- The report does not change what is read. -/
theorem snd_load (image : Array UInt8) (j : Journal) : (load image j).2 = parse image := by
  unfold load
  split
  · next hparse => exact hparse.symm
  · next hparse => exact hparse.symm

/-- What it means for an image to be read by the format. -/
structure ReadByFormat (image : Array UInt8) : Prop where
  /-- It can be read if it has a header with the mark and all sections that the header promises. -/
  accepts : (∃ c, parse image = .ok c) ↔
    16 ≤ image.size ∧ image.extract 0 4 = #[0x4E, 0x45, 0x53, 0x1A] ∧ chrEnd image ≤ image.size
  /-- The cartridge read is the one that its bytes mean. -/
  reads : ∀ c, parse image = .ok c → c = contents image
  /-- Otherwise the error names the first requirement that it does not meet. -/
  refuses : ∀ e, parse image = .error e ↔ (firstUnmet image).map Requirement.error = some e
  /-- The bytes 8 to 15 and those behind the last section do not change the result. -/
  overlooks : ∀ image' : Array UInt8,
    (image'.size = image.size ∨ chrEnd image ≤ image.size ∧ chrEnd image ≤ image'.size) →
    (∀ k < chrEnd image, k < 8 ∨ 16 ≤ k → image'[k]? = image[k]?) →
    parse image' = parse image
  /-- The images that can be read are those put together from parts, and reading gives the parts
  back. -/
  returns : ∀ c, parse image = .ok c ↔
    ∃ (p : Parts) (rest : Array UInt8), image = p.bytes ++ rest ∧ p.cartridge = c
  /-- Nothing of this depends on what was reported before. -/
  loads : ∀ j, (load image j).2 = parse image

/-- **Images are read by the format**, and whatever is none is refused by it. -/
theorem readByFormat (image : Array UInt8) : ReadByFormat image where
  accepts := by
    constructor
    · rintro ⟨c, hparse⟩
      exact (firstUnmet_eq_none_iff image).mp (parse_eq_ok_iff.mp hparse).1
    · intro hmet
      exact ⟨contents image, parse_eq_ok_iff.mpr ⟨(firstUnmet_eq_none_iff image).mpr hmet, rfl⟩⟩
  reads := by
    intro c hparse
    exact (parse_eq_ok_iff.mp hparse).2.symm
  refuses _ := parse_eq_error_iff
  overlooks _ := parse_congr
  returns _ := parse_eq_ok_iff_exists_parts
  loads := snd_load image

end Nes.INes
