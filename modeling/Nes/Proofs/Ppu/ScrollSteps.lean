import Mathlib.Logic.Function.Iterate
import Nes.Proofs.Ppu.ScrollAddress
import Nes.Proofs.Ppu.ScrollBounds

/-!
# Many movements

What any number of movements does to the current address. Those to the right go around the 64
columns of tiles. Those down go around the 480 rows of pixels, once they are among them: an address
can start in one of the sixteen rows below a nametable, and then it comes to the top of the same
nametable first.

Movements in one direction leave the fields of the other alone, so it only matters how many there
are of each (`Scroll.moveAll_eq`).
-/

set_option autoImplicit false

namespace Nes.Scroll

/-! ## Coordinates of an address -/

/-- The column of tiles among the 64 of the plane. -/
def columnOf (v : UInt16) : Nat := 32 * (v.toNat / 1024 % 2) + v.toNat % 32

/-- The row of nametables, the upper or the lower one. -/
def belowOf (v : UInt16) : Nat := v.toNat / 2048 % 2

/-- The row of pixels within the nametable. From 240 on it is below the last one. -/
def rowOf (v : UInt16) : Nat := 8 * (v.toNat / 32 % 32) + v.toNat / 4096 % 8

theorem columnOf_place (column below row : Nat) :
    columnOf (place column below row) = column % 64 := by
  obtain ⟨hcolumn, -, hright, -, -⟩ := fields_place column below row
  rw [columnOf, hcolumn, hright]
  omega

theorem belowOf_place (column below row : Nat) : belowOf (place column below row) = below % 2 :=
  (fields_place column below row).2.2.2.1

theorem rowOf_place (column below row : Nat) : rowOf (place column below row) = row % 256 := by
  obtain ⟨-, htile, -, -, hfine⟩ := fields_place column below row
  rw [rowOf, htile, hfine]
  omega

theorem rowOf_lt (v : UInt16) : rowOf v < 256 := by
  unfold rowOf
  omega

/-- An address is the address of its coordinates. -/
theorem eq_place_coordinates {v : UInt16} (hv : v.toNat < 0x8000) :
    v = place (columnOf v) (belowOf v) (rowOf v) := eq_place hv

/-- The bits outside the horizontal half do not depend on the column. -/
theorem toNat_place_clear_horizontal (column below row : Nat) :
    (place column below row &&& ~~~horizontalMask).toNat =
      row / 8 % 32 * 32 + below % 2 * 2048 + row % 8 * 4096 := by
  obtain ⟨hcolumn, -, hright, -, -⟩ := fields_place column below row
  rw [Word.toNat_clear, toNat_and_horizontal, hcolumn, hright, toNat_place]
  omega

/-- The bits outside the vertical half do not depend on the row. -/
theorem toNat_place_clear_vertical (column below row : Nat) :
    (place column below row &&& ~~~verticalMask).toNat =
      column % 32 + column / 32 % 2 * 1024 := by
  obtain ⟨-, htile, -, -, -⟩ := fields_place column below row
  have hcolumn : column % 32 < 32 := Nat.mod_lt _ (by decide)
  have hright : column / 32 % 2 < 2 := Nat.mod_lt _ (by decide)
  have hbelow : below % 2 < 2 := Nat.mod_lt _ (by decide)
  rw [Word.toNat_clear, toNat_and_vertical, htile, toNat_place]
  generalize column % 32 = a at *
  generalize row / 8 % 32 = b at *
  generalize column / 32 % 2 = c at *
  generalize below % 2 = d at *
  omega

/-! ## Movements in one direction -/

theorem iterate_nextColumn_place (n column below row : Nat) :
    nextColumn^[n] (place column below row) = place (column + n) below row := by
  induction n with
  | zero => rfl
  | succ n ih => rw [Function.iterate_succ_apply', ih, nextColumn_place, Nat.add_assoc]

/-- From a row of the nametable, the movements go around the 480 rows of the plane. -/
theorem iterate_nextRow_place (n column below : Nat) {row : Nat} (hrow : row < 240) :
    nextRow^[n] (place column below row) = address column (240 * below + row + n) := by
  have hstart : place column below row = address column (240 * below + row) := by
    have hdiv : (240 * below + row) / 240 = below := by omega
    have hmod : (240 * below + row) % 240 = row := by omega
    rw [address_eq_place, hdiv, hmod]
  induction n with
  | zero => exact hstart
  | succ n ih => rw [Function.iterate_succ_apply', ih, nextRow_address, Nat.add_assoc]

/-- From a row below the nametable, they come down to row 255 first. -/
theorem iterate_nextRow_place_of_le {n row : Nat} (column below : Nat) (hrow : 240 ≤ row)
    (hn : row + n ≤ 256) : nextRow^[n] (place column below row) = place column below (row + n) := by
  induction n with
  | zero => rfl
  | succ n ih =>
      have hnot : ¬ (row + n) % 256 = 239 := by omega
      rw [Function.iterate_succ_apply', ih (by omega), nextRow_place, if_neg hnot, Nat.add_assoc]

theorem iterate_incrementX (n : Nat) (s : Scroll) :
    incrementX^[n] s = { s with v := nextColumn^[n] s.v } := by
  induction n with
  | zero => rfl
  | succ n ih => rw [Function.iterate_succ_apply', Function.iterate_succ_apply', ih, incrementX]

theorem iterate_incrementY (n : Nat) (s : Scroll) :
    incrementY^[n] s = { s with v := nextRow^[n] s.v } := by
  induction n with
  | zero => rfl
  | succ n ih => rw [Function.iterate_succ_apply', Function.iterate_succ_apply', ih, incrementY]

/-- What a number of movements to the right changes: the column and the nametable beside, which go
around the plane together. -/
structure MovesRight (n : Nat) (v w : UInt16) : Prop where
  others : w &&& ~~~horizontalMask = v &&& ~~~horizontalMask
  column : columnOf w = (columnOf v + n) % 64

/-- What a number of movements down changes: both rows and the nametable below. Among the 480 rows
of the plane they go around. From a row below the nametable they go on to row 255 in the same
nametable, and then from its top around the plane. -/
structure MovesDown (n : Nat) (v w : UInt16) : Prop where
  others : w &&& ~~~verticalMask = v &&& ~~~verticalMask
  among : rowOf v < 240 → rowOf w < 240 ∧
    240 * belowOf w + rowOf w = (240 * belowOf v + rowOf v + n) % 480
  beyond : 240 ≤ rowOf v → n < 256 - rowOf v → belowOf w = belowOf v ∧ rowOf w = rowOf v + n
  back : 240 ≤ rowOf v → 256 - rowOf v ≤ n → rowOf w < 240 ∧
    240 * belowOf w + rowOf w = (240 * belowOf v + n - (256 - rowOf v)) % 480

theorem movesRight_place (n column below row : Nat) :
    MovesRight n (place column below row) (nextColumn^[n] (place column below row)) := by
  rw [iterate_nextColumn_place]
  constructor
  · apply UInt16.toNat_inj.mp
    rw [toNat_place_clear_horizontal, toNat_place_clear_horizontal]
  · rw [columnOf_place, columnOf_place, Nat.mod_add_mod]

/-- The rows of the plane, from an address with one of them. -/
theorem row_address (column row : Nat) :
    rowOf (address column row) < 240 ∧
      240 * belowOf (address column row) + rowOf (address column row) = row % 480 := by
  rw [address_eq_place, rowOf_place, belowOf_place]
  omega

theorem movesDown_place (n column : Nat) {below row : Nat} (hbelow : below < 2) (hrow : row < 256) :
    MovesDown n (place column below row) (nextRow^[n] (place column below row)) := by
  have hsame : belowOf (place column below row) = below := by
    rw [belowOf_place, Nat.mod_eq_of_lt hbelow]
  have hstart : rowOf (place column below row) = row := by
    rw [rowOf_place, Nat.mod_eq_of_lt hrow]
  -- the rest of the movements, once the top of a nametable is reached
  have hback : 240 ≤ row → 256 - row ≤ n → nextRow^[n] (place column below row) =
      address column (240 * below + n - (256 - row)) := by
    intro hbeyond hn
    obtain ⟨k, rfl⟩ := Nat.exists_eq_add_of_le' hn
    have htop : nextRow^[256 - row] (place column below row) = place column below 0 := by
      rw [iterate_nextRow_place_of_le column below hbeyond (by omega),
        Nat.add_sub_cancel' (Nat.le_of_lt hrow)]
      rfl
    rw [Function.iterate_add_apply, htop, iterate_nextRow_place k column below (by decide)]
    congr 1
    omega
  refine ⟨?others, ?among, ?beyond, ?back⟩
  case others =>
    obtain ⟨below', row', h⟩ : ∃ below' row',
        nextRow^[n] (place column below row) = place column below' row' := by
      by_cases hin : row < 240
      · exact ⟨_, _, (iterate_nextRow_place n column below hin).trans (address_eq_place ..)⟩
      · by_cases hn : row + n ≤ 256
        · exact ⟨_, _, iterate_nextRow_place_of_le column below (Nat.le_of_not_lt hin) hn⟩
        · exact ⟨_, _, (hback (by omega) (by omega)).trans (address_eq_place ..)⟩
    apply UInt16.toNat_inj.mp
    rw [h, toNat_place_clear_vertical, toNat_place_clear_vertical]
  case among =>
    intro hin
    rw [hstart] at hin
    rw [hsame, hstart, iterate_nextRow_place n column below hin]
    exact row_address column _
  case beyond =>
    intro hbeyond hn
    rw [hstart] at hbeyond hn
    rw [hsame, hstart, iterate_nextRow_place_of_le column below hbeyond (by omega), belowOf_place,
      rowOf_place, Nat.mod_eq_of_lt hbelow, Nat.mod_eq_of_lt (by omega)]
    exact ⟨rfl, rfl⟩
  case back =>
    intro hbeyond hn
    rw [hstart] at hbeyond hn
    rw [hsame, hstart, hback hbeyond hn]
    exact row_address column _

/-! ## Movements in both directions -/

/-- A movement while rendering. -/
inductive Movement
  | right
  | down
  deriving DecidableEq, Repr

/-- What a movement does. -/
def Movement.move : Movement → Scroll → Scroll
  | right => incrementX
  | down => incrementY

/-- Some movements, one after the other. -/
def moveAll (moves : List Movement) (s : Scroll) : Scroll :=
  moves.foldl (fun s m => m.move s) s

theorem toNat_move_lt {s : Scroll} (hv : s.v.toNat < 0x8000) (m : Movement) :
    (m.move s).v.toNat < 0x8000 := by
  cases m with
  | right => exact toNat_nextColumn_lt hv
  | down => exact toNat_nextRow_lt hv

/-- A movement down can be made before or after others to the right. -/
theorem iterate_incrementX_incrementY {s : Scroll} (hv : s.v.toNat < 0x8000) (n : Nat) :
    incrementX^[n] (incrementY s) = incrementY (incrementX^[n] s) := by
  have hcomm : ∀ column below row, nextColumn^[n] (nextRow (place column below row)) =
      nextRow (nextColumn^[n] (place column below row)) := by
    intro column below row
    rw [iterate_nextColumn_place, nextRow_place, nextRow_place]
    split <;> rw [iterate_nextColumn_place]
  rw [iterate_incrementX, iterate_incrementX, incrementY, incrementY]
  dsimp only
  rw [eq_place_coordinates hv, hcomm]

/-- **It only matters how many movements there are of each kind.** -/
theorem moveAll_eq (moves : List Movement) {s : Scroll} (hv : s.v.toNat < 0x8000) :
    moveAll moves s = incrementY^[moves.count .down] (incrementX^[moves.count .right] s) := by
  induction moves generalizing s with
  | nil => rfl
  | cons m moves ih =>
      have hrest := ih (toNat_move_lt hv m)
      cases m with
      | right =>
          calc moveAll (.right :: moves) s
              = incrementY^[moves.count .down]
                  (incrementX^[moves.count .right] (incrementX s)) := hrest
            _ = _ := by
                rw [List.count_cons_self, List.count_cons_of_ne (by decide),
                  Function.iterate_succ_apply]
      | down =>
          calc moveAll (.down :: moves) s
              = incrementY^[moves.count .down]
                  (incrementX^[moves.count .right] (incrementY s)) := hrest
            _ = incrementY^[moves.count .down]
                  (incrementY (incrementX^[moves.count .right] s)) := by
                rw [iterate_incrementX_incrementY hv]
            _ = _ := by
                rw [List.count_cons_self, List.count_cons_of_ne (by decide),
                  Function.iterate_succ_apply]

theorem toNat_moveAll_lt (moves : List Movement) {s : Scroll} (hv : s.v.toNat < 0x8000) :
    (moveAll moves s).v.toNat < 0x8000 := by
  induction moves generalizing s with
  | nil => exact hv
  | cons m moves ih => exact ih (toNat_move_lt hv m)

/-- **Closed form of the movements**, from every address of fifteen bits: any number to the right,
any number down, and any sequence of both, which is as good as one in order and stays within the
fifteen bits. -/
theorem moveAll_closedForm {s : Scroll} (hv : s.v.toNat < 0x8000) :
    (∀ n, ∃ w, incrementX^[n] s = { s with v := w } ∧ MovesRight n s.v w) ∧
    (∀ n, ∃ w, incrementY^[n] s = { s with v := w } ∧ MovesDown n s.v w) ∧
    ∀ moves, moveAll moves s =
        incrementY^[moves.count .down] (incrementX^[moves.count .right] s) ∧
      (moveAll moves s).v.toNat < 0x8000 := by
  have hplace := eq_place_coordinates hv
  have hbelow : belowOf s.v < 2 := Nat.mod_lt _ (by decide)
  refine ⟨?right, ?down, fun moves => ⟨moveAll_eq moves hv, toNat_moveAll_lt moves hv⟩⟩
  case right =>
    intro n
    refine ⟨_, iterate_incrementX n s, ?_⟩
    rw [hplace]
    exact movesRight_place n _ _ _
  case down =>
    intro n
    refine ⟨_, iterate_incrementY n s, ?_⟩
    rw [hplace]
    exact movesDown_place n _ hbelow (rowOf_lt s.v)

/-- From row 250 of the upper nametable, which is below its last one, six movements lead to its top
and 240 more to the top of the lower one. -/
theorem moveAll_closedForm_beyond :
    let s : Scroll := { v := 0x23E0 }
    s.v.toNat < 0x8000 ∧ rowOf s.v = 250 ∧ belowOf s.v = 0 ∧
      ∃ w, incrementY^[246] s = { s with v := w } ∧ rowOf w < 240 ∧
        240 * belowOf w + rowOf w = 240 := by
  intro s
  have hv : s.v.toNat < 0x8000 := by decide
  have hrow : rowOf s.v = 250 := by decide
  have hbelow : belowOf s.v = 0 := by decide
  obtain ⟨-, hdown, -⟩ := moveAll_closedForm hv
  obtain ⟨w, hw, hmoves⟩ := hdown 246
  have hback := hmoves.back (by omega) (by omega)
  rw [hrow, hbelow] at hback
  exact ⟨hv, hrow, hbelow, w, hw, hback⟩

end Nes.Scroll
