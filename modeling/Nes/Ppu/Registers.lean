import Nes.Ppu.Basic

/-!
# The registers of the picture unit

The CPU sees eight registers at 2000 to 2007. Any write leaves its byte in the latch, whose low five
bits come back in the status. Registers that can only be written read as 0.

Picture memory is read and written through the current address, which every access moves on. A read
below the palette returns the byte that the read before it has fetched; a palette entry is returned
at once, and the nametable byte that lies under it goes into the buffer.
-/

set_option autoImplicit false

namespace Nes

/-- The registers. -/
inductive Register
  | ctrl
  | mask
  | status
  | oamAddr
  | oamData
  | scroll
  | address
  | data
  deriving DecidableEq, Repr

/-- The register at an address. -/
def Register.at? (addr : UInt16) : Option Register :=
  if addr = 0x2000 then some ctrl
  else if addr = 0x2001 then some mask
  else if addr = 0x2002 then some status
  else if addr = 0x2003 then some oamAddr
  else if addr = 0x2004 then some oamData
  else if addr = 0x2005 then some scroll
  else if addr = 0x2006 then some address
  else if addr = 0x2007 then some data
  else none

namespace Ppu

/-! ## Control, mask, status -/

/-- Writes the control register: its bits also switch interrupts and select the nametable. -/
def writeControl (p : Ppu) (value : UInt8) : Ppu :=
  { p with
    ctrl := value
    nmi := p.nmi.setOutput (decide (value &&& 0x80 ≠ 0))
    scroll := p.scroll.selectNametable value }

/-- The status byte: the flags in the high bits, the latch in the low ones. -/
def status (p : Ppu) : UInt8 :=
  (p.latch &&& 0x1F) ||| (if p.spriteOverflow then 0x20 else 0)
    ||| (if p.spriteZeroHit then 0x40 else 0) ||| (if p.nmi.occurred then 0x80 else 0)

/-- What reading the status changes: the vertical blank counts as seen, and the next double write
starts anew. -/
def seeStatus (p : Ppu) : Ppu :=
  { p with
    nmi := p.nmi.setOccurred false
    scroll := p.scroll.resetToggle }

/-! ## Sprite memory -/

/-- The byte of sprite memory at its address. -/
def oamByte (p : Ppu) : UInt8 :=
  have h := p.oamAddr.toNat_lt
  p.oam[p.oamAddr.toNat]

/-- Writes a byte of sprite memory and moves its address on. -/
def writeOam (p : Ppu) (value : UInt8) : Ppu :=
  { p with
    oam := p.oam.set p.oamAddr.toNat value p.oamAddr.toNat_lt
    oamAddr := p.oamAddr + 1 }

/-- Stores a page in sprite memory, starting at its address. -/
def writeOamPage (p : Ppu) (page : UInt8) (bytes : Array UInt8) : Ppu :=
  bytes.foldl writeOam { p with latch := page }

/-! ## Picture memory -/

variable {μ : Type} [Board μ]

/-- Moves the current address on. -/
def advanceAddress (p : Ppu) : Ppu :=
  { p with scroll := p.scroll.advance (if p.incrementsBy32 then 32 else 1) }

/-- Whether the cartridge has the byte at the current address, if it is to have it. -/
def lacksByte (p : Ppu) (board : μ) : Bool := (p.vram.read board p.scroll.v).isNone

/-- The byte of picture memory at an address, 0 where there is none. -/
def peek (p : Ppu) (board : μ) (addr : UInt16) : UInt8 := (p.vram.read board addr).getD 0

/-- Reads picture memory at the current address. -/
def readData (p : Ppu) (board : μ) : UInt8 × Ppu :=
  let v := p.scroll.v
  let value := p.peek board v
  let fault := p.fault || p.lacksByte board
  if v % 0x4000 < 0x3F00 then
    (p.buffer, ({ p with buffer := value, fault := fault }).advanceAddress)
  else
    (value, ({ p with buffer := p.peek board (v - 0x1000), fault := fault }).advanceAddress)

/-- Writes picture memory at the current address. -/
def writeData (p : Ppu) (board : μ) (value : UInt8) : Ppu × μ :=
  let fault := p.fault || p.lacksByte board
  let r := p.vram.write board p.scroll.v value
  (({ p with vram := r.1, fault := fault }).advanceAddress, r.2)

/-! ## All registers -/

/-- A read by the CPU. -/
def readRegister (p : Ppu) (board : μ) (addr : UInt16) : UInt8 × Ppu :=
  match Register.at? addr with
  | some .status => (p.status, p.seeStatus)
  | some .oamData => (p.oamByte, p)
  | some .data => p.readData board
  | _ => (0, p)

/-- A write by the CPU. -/
def writeRegister (p : Ppu) (board : μ) (addr : UInt16) (value : UInt8) : Ppu × μ :=
  let p := { p with latch := value }
  match Register.at? addr with
  | some .ctrl => (p.writeControl value, board)
  | some .mask => ({ p with mask := value }, board)
  | some .oamAddr => ({ p with oamAddr := value }, board)
  | some .oamData => (p.writeOam value, board)
  | some .scroll => ({ p with scroll := p.scroll.writeOffset value }, board)
  | some .address => ({ p with scroll := p.scroll.writeAddress value }, board)
  | some .data => p.writeData board value
  | some .status | none => (p, board)

/-- Back to the idle line of frame 0, with control, mask and the address of sprite memory cleared.
-/
def reset (p : Ppu) : Ppu :=
  { ({ p with beam := p.beam.reset } : Ppu).writeControl 0 with mask := 0, oamAddr := 0 }

end Ppu

end Nes
