import Nes.Board.Basic

/-!
# Picture memory

The picture unit sees an address space of fourteen bits. Below 2000 the cartridge answers with the
shapes of tiles. From 2000 to 3EFF there are four nametables, of which the console has memory for
two; the cartridge picks one of five layouts (`Mirroring`). From 3F00 on there are the 32 entries of
the palette, over and over; the entries 10, 14, 18 and 1C are the entries 00, 04, 08 and 0C.
-/

set_option autoImplicit false

namespace Nes

/-- Bytes of nametable memory. -/
def nametableSize : Nat := 0x0800

/-- Entries of the palette. -/
def paletteSize : Nat := 32

namespace Mirroring

/-- The physical table behind a logical one, 0 to 3. -/
def physicalTable (m : Mirroring) (table : UInt16) : UInt16 :=
  match m with
  | horizontal => table / 2
  | vertical => table % 2
  | singleScreen0 => 0
  | singleScreen1 => 1
  | fourScreen => table

/-- Folds a nametable address onto the table that a layout puts behind it. -/
def fold (m : Mirroring) (addr : UInt16) : UInt16 :=
  let offset := (addr - 0x2000) % 0x1000
  0x2000 + m.physicalTable (offset / 0x0400) * 0x0400 + offset % 0x0400

end Mirroring

/-- Nametable and palette memory. -/
structure Vram where
  nametable : Vector UInt8 nametableSize
  palette : Vector UInt8 paletteSize

namespace Vram

/-- All bytes zero, as at power-on. -/
def blank : Vram := ⟨Vector.replicate _ 0, Vector.replicate _ 0⟩

/-- The byte of nametable memory behind an address. -/
def nametableIndex (m : Mirroring) (addr : UInt16) : Fin nametableSize :=
  ⟨(m.fold addr).toNat % nametableSize, Nat.mod_lt _ (by decide)⟩

/-- The palette entry behind an address, or behind the number of an entry. -/
def paletteIndex (addr : UInt16) : Fin paletteSize :=
  let i := addr.toNat % paletteSize
  ⟨if 16 ≤ i ∧ i % 4 = 0 then i - 16 else i, by
    have h : i < paletteSize := Nat.mod_lt _ (by decide)
    split <;> omega⟩

/-- Reads a nametable. -/
def readNametable (s : Vram) (m : Mirroring) (addr : UInt16) : UInt8 :=
  s.nametable[nametableIndex m addr]

/-- Reads a palette entry. -/
def readPalette (s : Vram) (addr : UInt16) : UInt8 :=
  s.palette[paletteIndex addr]

/-- Writes a palette entry. -/
def writePalette (s : Vram) (addr : UInt16) (value : UInt8) : Vram :=
  { s with palette := s.palette.set (paletteIndex addr) value }

/-- Writes a nametable. -/
def writeNametable (s : Vram) (m : Mirroring) (addr : UInt16) (value : UInt8) : Vram :=
  { s with nametable := s.nametable.set (nametableIndex m addr) value }

theorem readNametable_writeNametable (s : Vram) (m : Mirroring) (a b : UInt16) (value : UInt8) :
    (s.writeNametable m a value).readNametable m b =
      if nametableIndex m a = nametableIndex m b then value else s.readNametable m b := by
  simp only [writeNametable, readNametable, Fin.getElem_fin, Vector.getElem_set, Fin.ext_iff]

theorem readNametable_writePalette (s : Vram) (m : Mirroring) (a b : UInt16) (value : UInt8) :
    (s.writePalette a value).readNametable m b = s.readNametable m b := rfl

theorem readPalette_writePalette (s : Vram) (a b : UInt16) (value : UInt8) :
    (s.writePalette a value).readPalette b =
      if paletteIndex a = paletteIndex b then value else s.readPalette b := by
  simp only [writePalette, readPalette, Fin.getElem_fin, Vector.getElem_set, Fin.ext_iff]

variable {μ : Type} [Board μ]

/-- Reads a byte; there is none where the cartridge lacks picture memory. -/
def read (s : Vram) (board : μ) (addr : UInt16) : Option UInt8 :=
  let a := addr % 0x4000
  if a < 0x2000 then Board.ppuRead board a
  else if a < 0x3F00 then some (s.readNametable (Board.mirroring board) a)
  else some (s.readPalette a)

/-- Writes a byte; it is lost where the cartridge lacks picture memory. -/
def write (s : Vram) (board : μ) (addr : UInt16) (value : UInt8) : Vram × μ :=
  let a := addr % 0x4000
  if a < 0x2000 then (s, Board.ppuWrite board a value)
  else if a < 0x3F00 then (s.writeNametable (Board.mirroring board) a value, board)
  else (s.writePalette a value, board)

end Vram

end Nes
