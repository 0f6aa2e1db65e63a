/-!
# Work RAM

The console has 2 KiB of work RAM. Only the low eleven bits of an address select a cell, so the
cells repeat through the window at 0000 to 1FFF.
-/

set_option autoImplicit false

namespace Nes

/-- Number of cells. -/
def ramSize : Nat := 0x0800

/-- The cells of the work RAM. -/
structure Ram where
  cells : Vector UInt8 ramSize

namespace Ram

/-- All cells zero, as at power-on. -/
def blank : Ram := ⟨Vector.replicate ramSize 0⟩

/-- The cell behind an address. -/
def index (addr : UInt16) : Fin ramSize := ⟨addr.toNat % ramSize, Nat.mod_lt _ (by decide)⟩

/-- Reads a cell. -/
def read (r : Ram) (addr : UInt16) : UInt8 := r.cells[index addr]

/-- Writes a cell. -/
def write (r : Ram) (addr : UInt16) (value : UInt8) : Ram :=
  ⟨r.cells.set (index addr) value⟩

instance : ToString Ram := ⟨fun _ => s!"Ram({ramSize} bytes)"⟩

theorem read_write_of_eq (r : Ram) {a b : UInt16} (value : UInt8) (h : index a = index b) :
    (r.write a value).read b = value := by
  simp [read, write, h]

theorem read_write_of_ne (r : Ram) {a b : UInt16} (value : UInt8) (h : index a ≠ index b) :
    (r.write a value).read b = r.read b := by
  have h' : (index a).val ≠ (index b).val := fun e => h (Fin.ext e)
  simp [read, write, h']

end Ram

end Nes
