import Nes.Memory.Bus

/-!
# Flat memory

A bus of 65536 plain cells. A write to one address, if one is chosen, also counts as the start of a
transfer into sprite memory.
-/

set_option autoImplicit false

namespace Nes

/-- Plain memory behind every address. -/
structure Flat where
  cells : Vector UInt8 0x10000
  /-- The address whose writes start a transfer. -/
  dmaAddress : Option UInt16 := none
  dmaRequested : Bool := false

namespace Flat

/-- Memory that holds the same byte everywhere. -/
def filled (value : UInt8) : Flat := { cells := Vector.replicate 0x10000 value }

/-- The cell at an address. -/
def get (m : Flat) (addr : UInt16) : UInt8 :=
  have h := addr.toNat_lt
  m.cells[addr.toNat]

/-- Stores a byte in the cell at an address, without starting a transfer. -/
def set (m : Flat) (addr : UInt16) (value : UInt8) : Flat :=
  { m with cells := m.cells.set addr.toNat value addr.toNat_lt }

/-- Stores bytes in consecutive cells; the first cell follows the last one. -/
def setMany (m : Flat) (addr : UInt16) (values : List UInt8) : Flat :=
  match values with
  | [] => m
  | value :: rest => (m.set addr value).setMany (addr + 1) rest

instance : Bus Flat where
  read m addr := (m.get addr, m)
  write m addr value :=
    let m := m.set addr value
    if m.dmaAddress = some addr then { m with dmaRequested := true } else m
  takeOamDma m := (m.dmaRequested, { m with dmaRequested := false })

@[simp] theorem get_filled (value : UInt8) (addr : UInt16) : (filled value).get addr = value := by
  simp [get, filled]

theorem get_set_self (m : Flat) (addr : UInt16) (value : UInt8) :
    (m.set addr value).get addr = value := by
  simp [get, set]

theorem get_set_of_ne (m : Flat) {a b : UInt16} (value : UInt8) (h : a ≠ b) :
    (m.set a value).get b = m.get b := by
  have h' : a.toNat ≠ b.toNat := fun e => h (UInt16.toNat_inj.mp e)
  simp [get, set, h']

/-- A write on the bus changes one cell. -/
theorem get_write (m : Flat) (addr addr' : UInt16) (value : UInt8) :
    (Bus.write m addr value).get addr' = if addr = addr' then value else m.get addr' := by
  have hcells : (Bus.write m addr value).get addr' = (m.set addr value).get addr' := by
    show (if _ then _ else _ : Flat).get addr' = _
    split <;> rfl
  rw [hcells]
  split
  · next h => rw [h, get_set_self]
  · next h => rw [get_set_of_ne _ _ h]

end Flat

end Nes
