import Nes.Ppu.Pattern

/-!
# The background pipeline

Tiles are fetched in eight dots each: the number of the tile, its palette group, and the two planes
of one row of its shape. The eight decoded pixels join a shift register of sixteen digits from
below. The register moves on by one digit at every dot of the fetch cycle, so its upper half holds
the tile on screen while the next one is fetched, and the fine horizontal offset picks a digit from
it.
-/

set_option autoImplicit false

namespace Nes

/-- What has been fetched for the next tile, and the pixels waiting to be drawn. -/
structure Background where
  /-- Number of the tile. -/
  tile : UInt8 := 0
  /-- First entry of the palette group. -/
  palette : UInt8 := 0
  low : UInt8 := 0
  high : UInt8 := 0
  /-- The shift register. -/
  pixels : UInt64 := 0
  deriving DecidableEq, Repr

namespace Background

/-- Where the number of a tile is stored. -/
def tileAddress (v : UInt16) : UInt16 := 0x2000 ||| (v &&& 0x0FFF)

/-- Where the palette groups of the square of sixteen tiles around a tile are stored. -/
def attributeAddress (v : UInt16) : UInt16 :=
  let table : UInt16 := v &&& 0x0C00
  let row : UInt16 := (v >>> 4) &&& 0x38
  let column : UInt16 := (v >>> 2) &&& 0x07
  0x23C0 ||| table ||| row ||| column

/-- First entry of the palette group of a tile, out of the byte for its square: each quarter of the
square has two bits. -/
def groupOf (v : UInt16) (attributes : UInt8) : UInt8 :=
  let shift := ((v >>> 4) &&& 4) ||| (v &&& 2)
  ((attributes >>> shift.toUInt8) &&& 3) <<< 2

/-- Where the low plane of a row of a tile is stored; the high plane is eight bytes further. -/
def patternAddress (upperTable : Bool) (tile : UInt8) (v : UInt16) : UInt16 :=
  let table : UInt16 := if upperTable then 0x1000 else 0
  let row : UInt16 := (v >>> 12) &&& 7
  table + tile.toUInt16 * 16 + row

/-- One digit further. -/
def shift (b : Background) : Background := { b with pixels := b.pixels <<< 4 }

/-- Appends the fetched row. Its planes are used up. -/
def store (b : Background) : Background :=
  { b with
    pixels := b.pixels ||| (Pattern.row b.palette b.low b.high).toUInt64
    low := 0
    high := 0 }

/-- The digit drawn at a fine horizontal offset. -/
def digit (b : Background) (fineX : UInt8) : UInt8 :=
  Pattern.digit (b.pixels >>> 32).toUInt32 fineX.toUInt32

end Background

end Nes
