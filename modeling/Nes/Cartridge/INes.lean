import Nes.Cartridge.Basic
import Nes.Error
import Nes.Journal

/-!
# iNES cartridge images

An image is a header of sixteen bytes, a trainer of 512 bytes if the header announces one, the
program memory in units of 16 KiB and the picture memory in units of 8 KiB. The header holds

* the four bytes `NES` and 1A,
* the two counts of units (bytes 4 and 5),
* the layout, battery and trainer flags and the low half of the mapper number (byte 6),
* the high half of the mapper number (byte 7).

The trainer is skipped, a count of no picture memory stands for CHR RAM, and what follows the
last section is ignored. `parse` finds the first of these parts that is missing or wrong.
-/

set_option autoImplicit false

namespace Nes.INes

/-- Length of the header. -/
def headerSize : Nat := 16

/-- Length of a trainer. -/
def trainerSize : Nat := 512

/-- The bytes every image starts with. -/
def magic : Array UInt8 := #[0x4E, 0x45, 0x53, 0x1A]

/-- What the header says. -/
structure Header where
  prgUnits : Nat
  chrUnits : Nat
  mapper : UInt8
  mirroring : Mirroring
  battery : Bool
  trainer : Bool
  deriving DecidableEq, Repr

namespace Header

/-- The layout flags of byte 6: bit 3 asks for four screens and wins over bit 0. -/
def layout (flags : UInt8) : Mirroring :=
  if flags &&& 0x08 ≠ 0 then .fourScreen
  else if flags &&& 0x01 ≠ 0 then .vertical
  else .horizontal

/-- The header made of the bytes 4 to 7 of an image. -/
def ofBytes (prgUnits chrUnits flags6 flags7 : UInt8) : Header where
  prgUnits := prgUnits.toNat
  chrUnits := chrUnits.toNat
  mapper := (flags6 >>> 4) ||| (flags7 &&& 0xF0)
  mirroring := layout flags6
  battery := decide (flags6 &&& 0x02 ≠ 0)
  trainer := decide (flags6 &&& 0x04 ≠ 0)

/-- Where the program memory starts. -/
def prgOffset (h : Header) : Nat := headerSize + if h.trainer then trainerSize else 0

/-- Length of the program memory. -/
def prgSize (h : Header) : Nat := h.prgUnits * prgBankSize

/-- Where the picture memory starts. -/
def chrOffset (h : Header) : Nat := h.prgOffset + h.prgSize

/-- Length of the picture memory. -/
def chrSize (h : Header) : Nat := h.chrUnits * chrBankSize

end Header

/-- Reads the header, if there is one and it is marked as one. -/
def readHeader (image : Array UInt8) : Except Error Header :=
  if image.size < headerSize then .error (.truncated .header)
  else if image.extract 0 4 ≠ magic then .error .badMagic
  else .ok (Header.ofBytes (image.getD 4 0) (image.getD 5 0) (image.getD 6 0) (image.getD 7 0))

/-- Reads an image. -/
def parse (image : Array UInt8) : Except Error Cartridge := do
  let h ← readHeader image
  if image.size < h.prgOffset then .error (.truncated .trainer)
  else if image.size < h.chrOffset then .error (.truncated .prgRom)
  else if image.size < h.chrOffset + h.chrSize then .error (.truncated .chrRom)
  else .ok (Cartridge.ofParts (image.extract h.prgOffset h.chrOffset)
    (image.extract h.chrOffset (h.chrOffset + h.chrSize)) h.mapper h.mirroring h.battery)

/-- The report on a cartridge read from an image; sizes are given in whole KiB. -/
def report (c : Cartridge) (chrIsRam : Bool) : String :=
  let ram := if chrIsRam then " (RAM)" else ""
  s!"loaded iNES image: mapper {c.mapper} prg {c.prg.size / 1024} KiB chr {c.chr.size / 1024} KiB"
    ++ ram ++ " mirroring " ++ c.mirroring.name

/-- Reads an image and records a report if that succeeds. -/
def load (image : Array UInt8) (j : Journal) : Journal × Except Error Cartridge :=
  match parse image with
  | .error e => (j, .error e)
  | .ok c => (j.record .info fun _ => report c (decide (image.getD 5 0 = 0)), .ok c)

end Nes.INes
