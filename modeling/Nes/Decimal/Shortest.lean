/-!
# The fewest digits that identify a number

A 64-bit floating-point number stands for all reals that round to it. These reals form an interval
from halfway to the number below to halfway to the number above, and its ends belong to it if the
significand is even. `Span` is that interval, in exact arithmetic, and `Span.shortest` is the
decimal numeral inside it that needs the fewest digits. Of two such numerals it is the one nearer to
the number, and the larger one if both are equally near.

The search goes through the decimal grids from coarse to fine. A point of a grid lies in the
interval only if one of the two grid points around the number does, so these two are all it looks
at.
-/

set_option autoImplicit false

namespace Nes.Decimal

/-- The decimal numeral `digits * 10 ^ exponent`. -/
structure Numeral where
  digits : Nat
  exponent : Int
  deriving DecidableEq, Repr

/-- A positive number and the interval of reals that round to it. All three numerators are over one
denominator. -/
structure Span where
  value : Nat
  low : Nat
  high : Nat
  den : Nat
  /-- Whether the ends belong to the interval. -/
  closed : Bool
  deriving Repr

namespace Span

/-- The interval of `m * 2 ^ e`. The neighbour below a power of two is half as far away as the one
above, and `halfBelow` says that this is such a number. -/
def ofBinary (m : Nat) (e : Int) (halfBelow : Bool) : Span :=
  let unit := Nat.pow 2 e.toNat
  { value := 4 * m * unit
    low := if halfBelow then (4 * m - 1) * unit else (4 * m - 2) * unit
    high := (4 * m + 2) * unit
    den := 4 * Nat.pow 2 (-e).toNat
    closed := m % 2 == 0 }

/-- The interval of the finite number with the given bits, sign left out. Numbers with the least
exponent have no hidden bit and the spacing of those with the next one. -/
def ofBits (bits : UInt64) : Span :=
  let biased := (bits >>> 52).toNat % 2048
  let fraction := bits.toNat % Nat.pow 2 52
  if biased = 0 then ofBinary fraction (-1074) false
  else ofBinary (Nat.pow 2 52 + fraction) (biased - 1075) (fraction == 0 && biased != 1)

/-- Whether a numeral lies in the interval. -/
def contains (s : Span) (d : Numeral) : Bool :=
  let x := d.digits * Nat.pow 10 d.exponent.toNat * s.den
  let scale := Nat.pow 10 (-d.exponent).toNat
  if s.closed then decide (s.low * scale ≤ x ∧ x ≤ s.high * scale)
  else decide (s.low * scale < x ∧ x < s.high * scale)

/-- The point of a decimal grid just below the number, or at it. -/
def floorOn (s : Span) (exponent : Int) : Nat :=
  s.value * Nat.pow 10 (-exponent).toNat / (s.den * Nat.pow 10 exponent.toNat)

/-- Whether the number is nearer to the grid point just below than to the one above. -/
def nearerBelow (s : Span) (exponent : Int) : Bool :=
  decide (2 * s.value * Nat.pow 10 (-exponent).toNat <
    (2 * s.floorOn exponent + 1) * (s.den * Nat.pow 10 exponent.toNat))

/-- The numeral on a decimal grid that stands for the number, if the grid is fine enough. -/
def onGrid? (s : Span) (exponent : Int) : Option Numeral :=
  let below : Numeral := ⟨s.floorOn exponent, exponent⟩
  let above : Numeral := ⟨s.floorOn exponent + 1, exponent⟩
  match s.contains below, s.contains above with
  | true, true => some (if s.nearerBelow exponent then below else above)
  | true, false => some below
  | false, true => some above
  | false, false => none

/-- The numeral with the fewest digits that stands for the number. Every number is below `10 ^ 309`,
and neighbours are more than four points of the grid with exponent -324 apart, so the search ends
with a hit. -/
def shortest (s : Span) : Numeral :=
  ((List.range 634).findSome? fun (i : Nat) => s.onGrid? (309 - i)).getD ⟨s.floorOn (-324), -324⟩

end Span

end Nes.Decimal
