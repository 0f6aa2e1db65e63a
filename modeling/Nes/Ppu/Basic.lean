import Nes.Ppu.Background
import Nes.Ppu.Beam
import Nes.Ppu.Frame
import Nes.Ppu.NmiLatch
import Nes.Ppu.Scroll
import Nes.Ppu.Sprite
import Nes.Text.Hex

/-!
# The picture unit

All state of the picture unit: the beam, the scroll registers, its memories, the registers that the
CPU writes, the flags it reads, the pipelines and two frames, the finished one in front and the one
being drawn behind it.

The shapes of tiles lie on the cartridge, which can have less memory than the picture unit
addresses. `fault` remembers that a byte was asked for which is not there.
-/

set_option autoImplicit false

namespace Nes

/-- The state of the picture unit. -/
structure Ppu where
  beam : Beam := {}
  scroll : Scroll := {}
  vram : Vram := .blank
  oam : Oam := Vector.replicate _ 0
  oamAddr : UInt8 := 0
  /-- The byte last written to any register. -/
  latch : UInt8 := 0
  ctrl : UInt8 := 0
  mask : UInt8 := 0
  /-- The byte that the next read of picture memory returns. -/
  buffer : UInt8 := 0
  spriteZeroHit : Bool := false
  spriteOverflow : Bool := false
  nmi : NmiLatch := {}
  background : Background := {}
  sprites : List Sprite := []
  front : Frame := .black
  back : Frame := .black
  /-- A byte of picture memory was asked for that the cartridge does not have. -/
  fault : Bool := false

namespace Ppu

/-- The picture unit at power-on, on the last dot of the idle line. -/
def powerOn : Ppu := {}

/-! ## Control and mask bits -/

/-- The current address moves on by 32 instead of 1. -/
def incrementsBy32 (p : Ppu) : Bool := decide (p.ctrl &&& 0x04 ≠ 0)

/-- The shape of the sprites. -/
def spriteShape (p : Ppu) : SpriteShape where
  tall := decide (p.ctrl &&& 0x20 ≠ 0)
  upperTable := decide (p.ctrl &&& 0x08 ≠ 0)

/-- The tiles of the background come from the upper table. -/
def backgroundTable (p : Ppu) : Bool := decide (p.ctrl &&& 0x10 ≠ 0)

/-- The background shows in the eight leftmost columns. -/
def showsLeftBackground (p : Ppu) : Bool := decide (p.mask &&& 0x02 ≠ 0)

/-- Sprites show in the eight leftmost columns. -/
def showsLeftSprites (p : Ppu) : Bool := decide (p.mask &&& 0x04 ≠ 0)

/-- The background is rendered. -/
def showsBackground (p : Ppu) : Bool := decide (p.mask &&& 0x08 ≠ 0)

/-- Sprites are rendered. -/
def showsSprites (p : Ppu) : Bool := decide (p.mask &&& 0x10 ≠ 0)

/-- Something is rendered. -/
def rendering (p : Ppu) : Bool := decide (p.mask &&& 0x18 ≠ 0)

/-! ## State that others look at -/

/-- Within the vertical blank, and the status has not been read in it. -/
def inVblank (p : Ppu) : Bool := p.nmi.occurred

/-- A palette entry. -/
def readPalette (p : Ppu) (index : UInt16) : UInt8 := p.vram.readPalette index

/-- The colour of a palette entry. -/
def colour (p : Ppu) (index : UInt16) : Colour := Colour.ofByte (p.readPalette index)

/-- An interrupt has been delivered and not yet taken. -/
def nmiPending (p : Ppu) : Bool := p.nmi.pending

/-- Takes the interrupt that has been delivered. -/
def takeNmi (p : Ppu) : Ppu := { p with nmi := { p.nmi with pending := false } }

instance : ToString Ppu where
  toString p :=
    "Ppu \x7b " ++ s!"dot: {p.beam.dot}, scanline: {p.beam.scanline}, frame: {p.beam.frame}, v: "
      ++ Hex.word p.scroll.v ++ ", t: " ++ Hex.word p.scroll.t ++ ", ctrl: " ++ Hex.byte p.ctrl
      ++ ", mask: " ++ Hex.byte p.mask ++ ", .. \x7d"

end Ppu

end Nes
