/-!
# Cartridges

A cartridge holds program memory (PRG), picture memory (CHR), 8 KiB of save memory (SRAM), the
layout of the nametables, the number of the board it is built on and whether its save memory
is kept by a battery. A cartridge without picture memory of its own carries 8 KiB of CHR RAM.
-/

set_option autoImplicit false

namespace Nes

/-- Size of one bank of program memory. -/
def prgBankSize : Nat := 0x4000

/-- Size of one bank of picture memory, and of the CHR RAM of a cartridge without CHR ROM. -/
def chrBankSize : Nat := 0x2000

/-- Size of the save memory. -/
def sramSize : Nat := 0x2000

/-- How the four nametables of the picture address space are laid onto memory. -/
inductive Mirroring
  | horizontal
  | vertical
  | singleScreen0
  | singleScreen1
  | fourScreen
  deriving DecidableEq, Repr

namespace Mirroring

/-- The layout that a byte stands for; bytes without a layout stand for the horizontal one. -/
def ofByte (b : UInt8) : Mirroring :=
  if b = 1 then vertical
  else if b = 2 then singleScreen0
  else if b = 3 then singleScreen1
  else if b = 4 then fourScreen
  else horizontal

/-- The byte of a layout. -/
def toByte : Mirroring → UInt8
  | horizontal => 0
  | vertical => 1
  | singleScreen0 => 2
  | singleScreen1 => 3
  | fourScreen => 4

/-- The name of a layout in reports. -/
def name : Mirroring → String
  | horizontal => "Horizontal"
  | vertical => "Vertical"
  | singleScreen0 => "SingleScreen0"
  | singleScreen1 => "SingleScreen1"
  | fourScreen => "FourScreen"

end Mirroring

/-- The contents and the wiring of a cartridge. -/
structure Cartridge where
  prg : Array UInt8
  chr : Array UInt8
  sram : Vector UInt8 sramSize
  mirroring : Mirroring
  mapper : UInt8
  battery : Bool

namespace Cartridge

/-- Save memory before anything is stored in it. -/
def blankSram : Vector UInt8 sramSize := Vector.replicate sramSize 0

/-- Assembles a cartridge with blank save memory; without picture memory it gets CHR RAM. -/
def ofParts (prg chr : Array UInt8) (mapper : UInt8) (mirroring : Mirroring) (battery : Bool) :
    Cartridge where
  prg := prg
  chr := if chr.isEmpty then Array.replicate chrBankSize 0 else chr
  sram := blankSram
  mirroring := mirroring
  mapper := mapper
  battery := battery

/-- Puts a saved image into the save memory, cut or filled up with zeros to its size. -/
def withSram (c : Cartridge) (image : Array UInt8) : Cartridge :=
  { c with sram := Vector.ofFn fun i => image.getD i 0 }

@[simp] theorem prg_ofParts (prg chr : Array UInt8) (mapper : UInt8) (m : Mirroring) (b : Bool) :
    (ofParts prg chr mapper m b).prg = prg := rfl

theorem chr_ofParts_of_ne {prg chr : Array UInt8} {mapper : UInt8} {m : Mirroring} {b : Bool}
    (h : chr.isEmpty = false) : (ofParts prg chr mapper m b).chr = chr := by
  simp [ofParts, h]

@[simp] theorem chr_ofParts_empty (prg : Array UInt8) (mapper : UInt8) (m : Mirroring) (b : Bool) :
    (ofParts prg #[] mapper m b).chr = Array.replicate chrBankSize 0 := by
  simp [ofParts]

@[simp] theorem prg_withSram (c : Cartridge) (image : Array UInt8) :
    (c.withSram image).prg = c.prg := by
  rw [withSram]

@[simp] theorem chr_withSram (c : Cartridge) (image : Array UInt8) :
    (c.withSram image).chr = c.chr := by
  rw [withSram]

theorem getElem_withSram (c : Cartridge) (image : Array UInt8) (i : Nat) (h : i < sramSize) :
    (c.withSram image).sram[i] = image.getD i 0 := by
  simp [withSram]

end Cartridge

end Nes
