import Nes.Ppu.Colour

/-!
# Frames

A frame is a picture of 256 by 240 pixels, row after row from the top. Every pixel is opaque, so a
frame holds colours only; its view as bytes gives red, green, blue and full alpha for each pixel.
-/

set_option autoImplicit false

namespace Nes

/-- Pixels in a row. -/
def frameWidth : Nat := 256

/-- Rows. -/
def frameHeight : Nat := 240

/-- Bytes of a pixel: red, green, blue, alpha. -/
def bytesPerPixel : Nat := 4

/-- Bytes of a frame. -/
def frameBytes : Nat := frameWidth * frameHeight * bytesPerPixel

/-- A picture. -/
structure Frame where
  pixels : Vector Colour (frameWidth * frameHeight)

namespace Frame

/-- A frame on which nothing has been drawn. -/
def black : Frame := ⟨Vector.replicate _ Colour.black⟩

/-- Where a pixel is stored. -/
def index (x : Fin frameWidth) (y : Fin frameHeight) : Fin (frameWidth * frameHeight) :=
  ⟨y.val * frameWidth + x.val, by
    have hx := x.isLt
    have hy := y.isLt
    simp only [frameWidth, frameHeight] at *
    omega⟩

theorem index_inj {x x' : Fin frameWidth} {y y' : Fin frameHeight}
    (h : index x y = index x' y') : x = x' ∧ y = y' := by
  have hx := x.isLt
  have hx' := x'.isLt
  have hv := Fin.val_eq_of_eq h
  simp only [index, frameWidth] at *
  exact ⟨Fin.ext (by omega), Fin.ext (by omega)⟩

/-- The colour of a pixel. -/
def get (f : Frame) (x : Fin frameWidth) (y : Fin frameHeight) : Colour :=
  f.pixels[index x y]

/-- Draws a pixel. -/
def set (f : Frame) (x : Fin frameWidth) (y : Fin frameHeight) (c : Colour) : Frame :=
  ⟨f.pixels.set (index x y) c⟩

/-- The four bytes of a pixel. -/
def bytesOf (c : Colour) : List UInt8 := [c.red, c.green, c.blue, 0xFF]

/-- The colours of a row. -/
def row (f : Frame) (y : Fin frameHeight) : Array Colour :=
  Array.ofFn fun x => f.get x y

/-- The pixels of a whole frame in the order in which they are stored. -/
def colours (f : Frame) : Array Colour := f.pixels.toArray

@[simp] theorem get_set_self (f : Frame) (x : Fin frameWidth) (y : Fin frameHeight) (c : Colour) :
    (f.set x y c).get x y = c := by
  simp [get, set]

theorem get_set_of_ne (f : Frame) {x x' : Fin frameWidth} {y y' : Fin frameHeight} (c : Colour)
    (h : x ≠ x' ∨ y ≠ y') : (f.set x y c).get x' y' = f.get x' y' := by
  have hne : (index x y).val ≠ (index x' y').val := by
    intro e
    obtain ⟨hx, hy⟩ := index_inj (Fin.ext e)
    rcases h with h | h
    · exact h hx
    · exact h hy
  simp [get, set, hne]

@[simp] theorem get_black (x : Fin frameWidth) (y : Fin frameHeight) :
    black.get x y = Colour.black := by
  simp [get, black]

end Frame

end Nes
