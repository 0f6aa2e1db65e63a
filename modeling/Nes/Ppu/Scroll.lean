/-!
# Scroll registers

The picture unit keeps a current address `v`, an address `t` to start from, a fine horizontal offset
and a toggle that tells which half of a double write comes next. Bits 0 to 4 of an address are the
column of tiles, bits 5 to 9 the row of tiles, bits 10 and 11 the nametable, and bits 12 to 14 the
row within the tile.
-/

set_option autoImplicit false

namespace Nes

/-- The addresses and the toggle. -/
structure Scroll where
  v : UInt16 := 0
  t : UInt16 := 0
  /-- Column within the tile, 0 to 7. -/
  fineX : UInt8 := 0
  /-- The next write is the second of two. -/
  second : Bool := false
  deriving DecidableEq, Repr

namespace Scroll

/-- The column of tiles. -/
def columnMask : UInt16 := 0x001F

/-- The row of tiles. -/
def tileRowMask : UInt16 := 0x03E0

/-- The two bits of the nametable. -/
def tableMask : UInt16 := 0x0C00

/-- The row within the tile. -/
def fineRowMask : UInt16 := 0x7000

/-- The horizontal half of an address: the column and the nametable beside. -/
def horizontalMask : UInt16 := 0x041F

/-- The vertical half of an address: both rows and the nametable below. -/
def verticalMask : UInt16 := 0x7BE0

/-- The bits of a mask from the second word, the others from the first. -/
def merge (mask old new : UInt16) : UInt16 := (old &&& ~~~mask) ||| (new &&& mask)

/-! ## Register writes -/

/-- Takes the nametable from the low two bits of a byte. -/
def selectNametable (s : Scroll) (value : UInt8) : Scroll :=
  { s with t := merge tableMask s.t (value.toUInt16 <<< 10) }

/-- A scroll offset: the first write is the horizontal one, the second the vertical one. -/
def writeOffset (s : Scroll) (value : UInt8) : Scroll :=
  if s.second then
    { s with
      t := merge tileRowMask (merge fineRowMask s.t (value.toUInt16 <<< 12)) (value.toUInt16 <<< 2)
      second := false }
  else
    { s with
      t := merge columnMask s.t (value.toUInt16 >>> 3)
      fineX := value &&& 0x07
      second := true }

/-- An address: the first write is its high byte, of which six bits count, the second its low byte,
which also makes the address current. -/
def writeAddress (s : Scroll) (value : UInt8) : Scroll :=
  if s.second then
    let t := merge 0x00FF s.t value.toUInt16
    { s with t := t, v := t, second := false }
  else
    { s with t := merge 0x7F00 s.t ((value &&& 0x3F).toUInt16 <<< 8), second := true }

/-- The next write is the first of two again. -/
def resetToggle (s : Scroll) : Scroll := { s with second := false }

/-- Moves the current address on, within fifteen bits. -/
def advance (s : Scroll) (step : UInt16) : Scroll := { s with v := (s.v + step) &&& 0x7FFF }

/-! ## Movements while rendering -/

/-- One column of tiles further, into the nametable beside after the last one. -/
def nextColumn (v : UInt16) : UInt16 :=
  if v &&& columnMask = 31 then (v &&& ~~~columnMask) ^^^ 0x0400 else v + 1

/-- One row of tiles further. Row 29 is the last one and leads into the nametable below; from the
rows beyond it, 31 leads back to row 0 of the same nametable. -/
def nextTileRow (v : UInt16) : UInt16 :=
  let row := (v &&& tileRowMask) >>> 5
  if row = 29 then (v &&& ~~~tileRowMask) ^^^ 0x0800
  else if row = 31 then v &&& ~~~tileRowMask
  else merge tileRowMask v ((row + 1) <<< 5)

/-- One row of pixels further. -/
def nextRow (v : UInt16) : UInt16 :=
  if v &&& fineRowMask = fineRowMask then nextTileRow (v &&& ~~~fineRowMask) else v + 0x1000

/-- Moves one column of tiles to the right. -/
def incrementX (s : Scroll) : Scroll := { s with v := nextColumn s.v }

/-- Moves one row of pixels down. -/
def incrementY (s : Scroll) : Scroll := { s with v := nextRow s.v }

/-- Takes the horizontal half of the starting address. -/
def copyX (s : Scroll) : Scroll := { s with v := merge horizontalMask s.v s.t }

/-- Takes the vertical half of the starting address. -/
def copyY (s : Scroll) : Scroll := { s with v := merge verticalMask s.v s.t }

end Scroll

end Nes
