import Nes.Board.Basic
import Nes.Journal
import Nes.Memory.Bus
import Nes.Memory.Ram
import Nes.Ppu.Registers

/-!
# What the CPU of the console reaches

Work RAM lies at 0000 to 1FFF and the registers of the picture unit at 2000 to 3FFF, both repeated.
From 4000 to 5FFF reads give 0 and writes are ignored, but for one address: a byte written at 4014
names a page that is copied into sprite memory at once. Everything from 6000 on is answered by the
cartridge board.

The copied page is read as the CPU would read it, register reads included.
-/

set_option autoImplicit false

namespace Nes

/-- Where the page to be copied into sprite memory is written. -/
def oamDmaAddress : UInt16 := 0x4014

/-- Everything the CPU reaches, for the length of one step. -/
structure CpuMemory (μ : Type) where
  ram : Ram
  ppu : Ppu
  board : μ
  /-- A page has been copied, and the CPU has not been told. -/
  oamDma : Bool := false
  journal : Journal := {}

namespace CpuMemory

variable {μ : Type} [Board μ]

/-- Records a notice, unless the run has already failed. -/
@[inline] def note (m : CpuMemory μ) (level : Level) (text : Unit → String) : CpuMemory μ :=
  if m.ppu.fault then m else { m with journal := m.journal.record level text }

/-- The address of the register behind an address of their window. -/
def registerAddress (addr : UInt16) : UInt16 := 0x2000 + addr % 8

/-- A read by the CPU. -/
def read (m : CpuMemory μ) (addr : UInt16) : UInt8 × CpuMemory μ :=
  if addr < 0x2000 then (m.ram.read addr, m)
  else if addr < 0x4000 then
    let r := m.ppu.readRegister m.board (registerAddress addr)
    (r.1, { m with ppu := r.2 })
  else if addr < 0x6000 then (0, m)
  else
    let r := Board.cpuRead m.board addr
    (r.1, { m with board := r.2 })

/-- Copies a page into sprite memory. -/
def copyPage (m : CpuMemory μ) (page : UInt8) : CpuMemory μ :=
  let r := readPage read m page
  let m := { r.2 with ppu := r.2.ppu.writeOamPage page r.1, oamDma := true }
  m.note .debug fun _ => "oam dma from page $" ++ Hex.byte page

/-- A write by the CPU. -/
def write (m : CpuMemory μ) (addr : UInt16) (value : UInt8) : CpuMemory μ :=
  if addr < 0x2000 then { m with ram := m.ram.write addr value }
  else if addr < 0x4000 then
    let r := m.ppu.writeRegister m.board (registerAddress addr) value
    { m with ppu := r.1, board := r.2 }
  else if addr = oamDmaAddress then m.copyPage value
  else if addr < 0x6000 then
    m.note .trace fun _ =>
      "ignored io write $" ++ Hex.word addr ++ " = $" ++ Hex.byte value
  else { m with board := Board.cpuWrite m.board addr value }

instance : Bus (CpuMemory μ) where
  read := read
  write := write
  takeOamDma m := (m.oamDma, { m with oamDma := false })

end CpuMemory

end Nes
