/-!
# Colours

The picture unit draws in 64 colours. A byte of palette memory names one by its low six bits.
-/

set_option autoImplicit false

namespace Nes

/-- One of the 64 colours. -/
abbrev Colour := Fin 64

namespace Colour

/-- The colours as red, green and blue bytes, red highest. -/
def table : Vector UInt32 64 := #v[
    0x757575, 0x271B8F, 0x0000AB, 0x47009F, 0x8F0077, 0xAB0013, 0xA70000, 0x7F0B00,
    0x432F00, 0x004700, 0x005100, 0x003F17, 0x1B3F5F, 0x000000, 0x000000, 0x000000,
    0xBCBCBC, 0x0073EF, 0x233BEF, 0x8300F3, 0xBF00BF, 0xE7005B, 0xDB2B00, 0xCB4F0F,
    0x8B7300, 0x009700, 0x00AB00, 0x00933B, 0x00838B, 0x000000, 0x000000, 0x000000,
    0xFFFFFF, 0x3FBFFF, 0x5F97FF, 0xA78BFD, 0xF77BFF, 0xFF77B7, 0xFF7763, 0xFF9B3B,
    0xF3BF3F, 0x83D313, 0x4FDF4B, 0x58F898, 0x00EBDB, 0x000000, 0x000000, 0x000000,
    0xFFFFFF, 0xABE7FF, 0xC7D7FF, 0xD7CBFF, 0xFFC7FF, 0xFFC7DB, 0xFFBFB3, 0xFFDBAB,
    0xFFE7A3, 0xE3FFA3, 0xABF3BF, 0xB3FFCF, 0x9FFFF3, 0x000000, 0x000000, 0x000000]

/-- The colour that a byte of palette memory names. -/
def ofByte (b : UInt8) : Colour := Fin.ofNat 64 b.toNat

/-- The black of a screen on which nothing has been drawn. -/
def black : Colour := 0x0F

/-- The red, green and blue bytes of a colour as one number. -/
def rgb (c : Colour) : UInt32 := table[c]

/-- Red. -/
def red (c : Colour) : UInt8 := (c.rgb >>> 16).toUInt8

/-- Green. -/
def green (c : Colour) : UInt8 := (c.rgb >>> 8).toUInt8

/-- Blue. -/
def blue (c : Colour) : UInt8 := c.rgb.toUInt8

end Colour

end Nes
