import Mathlib.Algebra.Group.Int.Defs
import Mathlib.Algebra.Group.Nat.Defs

/-!
# Checked operations

Words have a width and arrays have a length. An operation that leaves the range of its words, shifts
by their width or further, divides by zero or looks past the end of an array has no result. Each
operation here is given by its condition, and comes with the fact that it has the plain result where
the condition holds. Words are natural numbers, or integers where they carry a sign.
-/

set_option autoImplicit false

namespace Nes.Checked

/-- The sum of two words. -/
def add (width a b : Nat) : Option Nat := if a + b < 2 ^ width then some (a + b) else none

/-- The product of two words. -/
def mul (width a b : Nat) : Option Nat := if a * b < 2 ^ width then some (a * b) else none

/-- The difference of two words. -/
def sub (a b : Nat) : Option Nat := if b ≤ a then some (a - b) else none

/-- A signed result, within the range of its word. -/
def signed (width : Nat) (i : Int) : Option Int :=
  if -2 ^ (width - 1) ≤ i ∧ i < 2 ^ (width - 1) then some i else none

/-- A distance by which a word can be shifted. -/
def distance (width k : Nat) : Option Nat := if k < width then some k else none

/-- The remainder of a division. -/
def mod (a b : Nat) : Option Nat := if b = 0 then none else some (a % b)

/-- A number below a bound, as an index into a table of that length. -/
def below (bound i : Nat) : Option Nat := if i < bound then some i else none

/-- An array after a store. -/
def store {α : Type} {n : Nat} (v : Vector α n) (i : Nat) (x : α) : Option (Vector α n) :=
  if h : i < n then some (v.set i x h) else none

theorem add_eq {width a b : Nat} (h : a + b < 2 ^ width) : add width a b = some (a + b) := if_pos h

theorem mul_eq {width a b : Nat} (h : a * b < 2 ^ width) : mul width a b = some (a * b) := if_pos h

theorem sub_eq {a b : Nat} (h : b ≤ a) : sub a b = some (a - b) := if_pos h

theorem signed_eq {width : Nat} {i : Int} (h : -2 ^ (width - 1) ≤ i ∧ i < 2 ^ (width - 1)) :
    signed width i = some i := if_pos h

theorem distance_eq {width k : Nat} (h : k < width) : distance width k = some k := if_pos h

theorem mod_eq {a b : Nat} (h : 0 < b) : mod a b = some (a % b) := if_neg (Nat.ne_of_gt h)

theorem below_eq {bound i : Nat} (h : i < bound) : below bound i = some i := if_pos h

theorem store_eq {α : Type} {n : Nat} (v : Vector α n) {i : Nat} (h : i < n) (x : α) :
    store v i x = some (v.set i x h) := dif_pos h

end Nes.Checked
