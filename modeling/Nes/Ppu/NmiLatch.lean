/-!
# The interrupt line of the picture unit

The line is high during the vertical blank, as long as interrupts are switched on and the status has
not been read. When it rises, a countdown of fifteen dots starts; if the line is high when the
countdown ends, the interrupt is delivered. A line that falls and rises again starts the countdown
anew.
-/

set_option autoImplicit false

namespace Nes

/-- Dots between the rise of the line and the delivery. -/
def nmiDelay : Nat := 15

/-- State of the interrupt line. -/
structure NmiLatch where
  /-- Within the vertical blank, and the status has not been read in it. -/
  occurred : Bool := false
  /-- Interrupts are switched on. -/
  output : Bool := false
  /-- The level of the line when it was last looked at. -/
  previous : Bool := false
  /-- Dots until the delivery, 0 when none is due. -/
  delay : Nat := 0
  /-- Delivered and not yet taken. -/
  pending : Bool := false
  deriving DecidableEq, Repr

namespace NmiLatch

/-- The level of the line. -/
def line (l : NmiLatch) : Bool := l.output && l.occurred

/-- Looks at the line; if it has risen, the countdown starts. -/
def change (l : NmiLatch) : NmiLatch :=
  { l with
    delay := if l.line && !l.previous then nmiDelay else l.delay
    previous := l.line }

/-- One dot of the countdown. -/
def tick (l : NmiLatch) : NmiLatch :=
  if l.delay = 0 then l
  else
    { l with
      delay := l.delay - 1
      pending := l.pending || (l.delay == 1 && l.line) }

/-- Switches interrupts on or off. -/
def setOutput (l : NmiLatch) (on : Bool) : NmiLatch := ({ l with output := on }).change

/-- The vertical blank starts, or ends, or its flag is read. -/
def setOccurred (l : NmiLatch) (on : Bool) : NmiLatch := ({ l with occurred := on }).change

end NmiLatch

end Nes
