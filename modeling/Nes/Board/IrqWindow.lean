import Nes.Board.Basic

/-!
# A board that holds down the interrupt line for a while

Wraps another board and counts the dots that pass. From dot `first` until before dot `last` the
interrupt line is held down. The wrapped board is not told of dots or resets, and the layout of
the nametables is the one its cartridge is wired for.
-/

set_option autoImplicit false

namespace Nes

/-- A board with an interrupt line that is held down between two counts of dots. -/
structure IrqWindow (μ : Type) where
  board : μ
  first : Nat
  last : Nat
  count : Nat := 0

namespace IrqWindow

variable {μ : Type} [Board μ]

instance : Board (IrqWindow μ) where
  cartridge w := Board.cartridge w.board
  cpuRead w addr :=
    let r := Board.cpuRead w.board addr
    (r.1, { w with board := r.2 })
  cpuWrite w addr value := { w with board := Board.cpuWrite w.board addr value }
  ppuRead w addr := Board.ppuRead w.board addr
  ppuWrite w addr value := { w with board := Board.ppuWrite w.board addr value }
  step w := { w with count := w.count + 1 }
  irqPending w := decide (w.first ≤ w.count ∧ w.count < w.last)

end IrqWindow

end Nes
