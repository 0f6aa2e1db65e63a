/-!
# The beam

A frame takes 262 lines of 341 dots: lines 0 to 239 are visible, line 240 is idle, the lines 241 to
260 are the vertical blank, and line 261 prepares the next frame. The beam counts dots, lines and
frames. While something is rendered, the last dot of line 261 is left out in odd frames.

The flag for odd frames is a counter of its own: a reset sets the frame number back and leaves the
flag as it is.
-/

set_option autoImplicit false

namespace Nes

/-- Dots in a line. -/
def dotsPerScanline : Nat := 341

/-- Lines in a frame. -/
def scanlinesPerFrame : Nat := 262

/-- The line before the first visible one. -/
def preRenderLine : Nat := 261

/-- The first line of the vertical blank. -/
def vblankLine : Nat := 241

/-- Position of the beam and number of frames completed. -/
structure Beam where
  dot : Nat := 340
  scanline : Nat := 240
  frame : Nat := 0
  odd : Bool := false
  deriving DecidableEq, Repr

namespace Beam

/-- Back to the last dot of the idle line, in frame 0. -/
def reset (b : Beam) : Beam := { b with dot := 340, scanline := 240, frame := 0 }

/-- The first dot of the next frame. -/
def nextFrame (b : Beam) : Beam :=
  { dot := 0, scanline := 0, frame := b.frame + 1, odd := !b.odd }

/-- One dot further. -/
def advance (b : Beam) (rendering : Bool) : Beam :=
  if rendering ∧ b.odd ∧ b.scanline = preRenderLine ∧ b.dot = 339 then b.nextFrame
  else if b.dot < 340 then { b with dot := b.dot + 1 }
  else if b.scanline < preRenderLine then { b with dot := 0, scanline := b.scanline + 1 }
  else b.nextFrame

/-- On a visible line. -/
def visible (b : Beam) : Bool := decide (b.scanline < 240)

/-- On the line before the first visible one. -/
def preRender (b : Beam) : Bool := decide (b.scanline = preRenderLine)

/-- On a line for which tiles are fetched. -/
def renders (b : Beam) : Bool := b.visible || b.preRender

/-- At a dot at which a pixel is drawn. -/
def inPicture (b : Beam) : Prop := b.scanline < 240 ∧ 1 ≤ b.dot ∧ b.dot ≤ 256

instance (b : Beam) : Decidable b.inPicture := inferInstanceAs (Decidable (_ ∧ _ ∧ _))

/-- At a dot of the fetch cycle: those of the picture, and those of the two tiles fetched ahead for
the next line. -/
def fetches (b : Beam) : Bool :=
  (decide (1 ≤ b.dot) && decide (b.dot ≤ 256)) || (decide (321 ≤ b.dot) && decide (b.dot ≤ 336))

/-- At the dot that starts the vertical blank. -/
def startsVblank (b : Beam) : Bool := decide (b.scanline = vblankLine) && decide (b.dot = 1)

/-- At the dot that ends the vertical blank. -/
def endsVblank (b : Beam) : Bool := b.preRender && decide (b.dot = 1)

end Beam

end Nes
