/-!
# Reading numbers

A whole number is a run of digits after an optional plus sign. A floating-point number is an
optional sign before `inf`, `infinity`, `nan`, or before digits with at most one point among them or
at their ends, and then an optional exponent. Letters may have either case, and nothing may stand
before, between or after these parts. A number is rounded to the nearest floating-point number.
-/

set_option autoImplicit false

namespace Nes.Decimal

/-- The value of a run of digits. -/
def valueOf (digits : List Char) : Nat :=
  digits.foldl (fun n c => 10 * n + (c.toNat - 48)) 0

/-- The value of a run of digits that is neither empty nor interrupted. -/
def digits? (text : List Char) : Option Nat :=
  if text ≠ [] ∧ text.all Char.isDigit then some (valueOf text) else none

/-- A whole number below `2 ^ 64`. -/
def natural? (text : String) : Option UInt64 :=
  let digits := match text.toList with
    | '+' :: rest => rest
    | rest => rest
  match digits? digits with
  | some n => if n < UInt64.size then some n.toUInt64 else none
  | none => none

/-! ## Floating-point numbers -/

/-- The part of a text after the mark of an exponent, which may have a sign. -/
def exponent? : List Char → Option Int
  | '-' :: rest => (digits? rest).map fun n => -(n : Int)
  | '+' :: rest => (digits? rest).map fun n => (n : Int)
  | rest => (digits? rest).map fun n => (n : Int)

/-- The floating-point number nearest to a run of digits times a power of ten. Far outside the range
of exponents the answer is infinite or zero without further computation. -/
def nearest (digits : List Char) (exponent : Int) : Float :=
  let significant := digits.dropWhile (· == '0')
  let magnitude := significant.length + exponent
  if significant.isEmpty ∨ magnitude < -330 then 0.0
  else if 310 < magnitude then 1.0 / 0.0
  else Float.ofScientific (valueOf significant) (decide (exponent < 0)) exponent.natAbs

/-- A number written with digits: its whole part, its fraction and its exponent. -/
def positional? (text : List Char) : Option Float :=
  let whole := text.takeWhile Char.isDigit
  let afterWhole := text.dropWhile Char.isDigit
  let parts := match afterWhole with
    | '.' :: rest => (rest.takeWhile Char.isDigit, rest.dropWhile Char.isDigit)
    | rest => ([], rest)
  let digits := whole ++ parts.1
  let places : Int := parts.1.length
  if digits.isEmpty then none
  else
    match parts.2 with
    | [] => some (nearest digits (-places))
    | mark :: rest =>
        if mark = 'e' ∨ mark = 'E' then
          (exponent? rest).map fun e => nearest digits (e - places)
        else none

/-- A number without its sign. -/
def magnitude? (text : List Char) : Option Float :=
  match String.ofList (text.map Char.toLower) with
  | "inf" => some (1.0 / 0.0)
  | "infinity" => some (1.0 / 0.0)
  | "nan" => some (0.0 / 0.0)
  | _ => positional? text

/-- A floating-point number. -/
def float? (text : String) : Option Float :=
  match text.toList with
  | '-' :: rest => (magnitude? rest).map fun x => -x
  | '+' :: rest => magnitude? rest
  | rest => magnitude? rest

end Nes.Decimal
