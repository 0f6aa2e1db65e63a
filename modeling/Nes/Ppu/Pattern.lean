/-!
# Rows of patterns

The shape of a tile is stored in two planes. A row of eight pixels takes one byte of each plane, and
the highest bit is the leftmost pixel. Decoded, a row is a word of eight digits of four bits, the
leftmost pixel in the highest digit: the low two bits of a digit come from the planes, the high two
select a group of palette entries. A pixel whose low two bits are 0 is transparent.
-/

set_option autoImplicit false

namespace Nes.Pattern

/-- Spreads the bits of a byte over the digits of a word, keeping their order. -/
def spread (b : UInt8) : UInt32 :=
  let x := b.toUInt32
  let x := (x ||| (x <<< 12)) &&& 0x000F000F
  let x := (x ||| (x <<< 6)) &&& 0x03030303
  (x ||| (x <<< 3)) &&& 0x11111111

/-- Reverses the order of the bits of a byte. -/
def reverse (b : UInt8) : UInt8 :=
  let b := (b <<< 4) ||| (b >>> 4)
  let b := ((b &&& 0x33) <<< 2) ||| ((b >>> 2) &&& 0x33)
  ((b &&& 0x55) <<< 1) ||| ((b >>> 1) &&& 0x55)

/-- The row made of the bytes of the two planes, in the palette group whose entries start at
`palette`. -/
def row (palette low high : UInt8) : UInt32 :=
  (palette.toUInt32 * (0x11111111 : UInt32)) ||| spread low ||| (spread high <<< 1)

/-- The digit of a column, 0 to 7 from the left. -/
def digit (word : UInt32) (column : UInt32) : UInt8 :=
  ((word >>> ((7 - column) * 4)) &&& 0x0F).toUInt8

/-- Whether a pixel shows. -/
def opaquePixel (colour : UInt8) : Bool := decide (colour % 4 ≠ 0)

end Nes.Pattern
