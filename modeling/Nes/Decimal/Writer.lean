import Nes.Decimal.Shortest

/-!
# Writing numbers

A floating-point number is written with the fewest digits that identify it, always positionally:
zeros fill the places up to the point, and there is a point only if digits follow it.
-/

set_option autoImplicit false

namespace Nes.Decimal

/-- A numeral in positional notation. -/
def Numeral.text (d : Numeral) : String :=
  let digits := Nat.toDigits 10 d.digits
  if 0 ≤ d.exponent then String.ofList (digits ++ List.replicate d.exponent.toNat '0')
  else
    let places := (-d.exponent).toNat
    let padded := List.replicate (places + 1 - digits.length) '0' ++ digits
    let whole := padded.length - places
    String.ofList (padded.take whole ++ '.' :: padded.drop whole)

/-- The text of a number that is not negative. -/
def magnitudeText (x : Float) : String :=
  if x.isInf then "inf"
  else if x == 0.0 then "0"
  else (Span.ofBits x.toBits).shortest.text

/-- The text of a floating-point number. A minus sign stands before negative numbers and before the
negative zero. -/
def floatText (x : Float) : String :=
  if x.isNaN then "NaN"
  else if x.toBits >>> 63 = 1 then "-" ++ magnitudeText x.abs
  else magnitudeText x

end Nes.Decimal
