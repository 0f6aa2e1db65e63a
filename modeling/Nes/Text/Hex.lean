/-!
# Hexadecimal text

Bytes and addresses are written in upper-case hexadecimal, most significant digit first and
padded with zeros: two digits for a byte, four for an address.
-/

set_option autoImplicit false

namespace Nes.Hex

/-- The digit of a value below sixteen. -/
def digit (n : Nat) : Char :=
  if n < 10 then Char.ofNat (48 + n) else Char.ofNat (55 + n)

/-- The two digits of a byte. -/
def byte (b : UInt8) : String :=
  String.ofList [digit (b.toNat / 16), digit (b.toNat % 16)]

/-- The four digits of an address. -/
def word (w : UInt16) : String :=
  byte (w >>> 8).toUInt8 ++ byte w.toUInt8

/-- A byte string, two digits a byte, without separators. -/
def bytes (bs : Array UInt8) : String :=
  bs.foldl (fun text b => text ++ byte b) ""

end Nes.Hex
