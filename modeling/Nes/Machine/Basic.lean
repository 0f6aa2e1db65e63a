import Nes.Cpu.Step
import Nes.Memory.Map

/-!
# Machines

A machine is a CPU, a picture unit, work RAM and a cartridge board, with the journal of its run. The
parts do not know each other: for each step the CPU is wired to a view of the others
(`Machine.wired`), which is taken apart again afterwards.

The machine also lets the outside read and write what the CPU reaches, with the same effects. A copy
into sprite memory started from outside costs the CPU nothing.
-/

set_option autoImplicit false

namespace Nes

/-- A machine with a board of type `μ`. -/
structure Machine (μ : Type) where
  cpu : Cpu := .powerOn
  ram : Ram := .blank
  ppu : Ppu := .powerOn
  board : μ
  journal : Journal := {}

namespace Machine

variable {μ : Type}

/-- What the CPU reaches. -/
def memory (m : Machine μ) : CpuMemory μ where
  ram := m.ram
  ppu := m.ppu
  board := m.board
  journal := m.journal

/-- The CPU on what it reaches. -/
def wired (m : Machine μ) : Wired (CpuMemory μ) := ⟨m.cpu, m.memory⟩

/-- The machine made of a CPU and what it reaches. -/
def ofWired (s : Wired (CpuMemory μ)) : Machine μ where
  cpu := s.cpu
  ram := s.bus.ram
  ppu := s.bus.ppu
  board := s.bus.board
  journal := s.bus.journal

/-- Records a notice, unless the run has already failed. -/
@[inline] def note (m : Machine μ) (level : Level) (text : Unit → String) : Machine μ :=
  if m.ppu.fault then m else { m with journal := m.journal.record level text }

variable [Board μ]

/-! ## Accesses from outside -/

/-- Reads what the CPU would read. -/
def read (m : Machine μ) (addr : UInt16) : UInt8 × Machine μ :=
  let cpu := m.cpu
  let r := m.memory.read addr
  (r.1, ofWired ⟨cpu, r.2⟩)

/-- Writes as the CPU would write. -/
def write (m : Machine μ) (addr : UInt16) (value : UInt8) : Machine μ :=
  let cpu := m.cpu
  ofWired ⟨cpu, m.memory.write addr value⟩

/-! ## Reset -/

/-- Resets the CPU alone. -/
def resetCpu (m : Machine μ) : Machine μ := ofWired m.wired.reset

/-- Resets the board and the CPU. The picture unit and all memory stay. -/
def reset (m : Machine μ) : Machine μ :=
  let m := ({ m with board := Board.reset m.board }).resetCpu
  m.note .info fun _ =>
    s!"console reset: mapper {(Board.cartridge m.board).mapper} pc $" ++ Hex.word m.cpu.pc

/-- The colour behind everything: that of the first palette entry. -/
def backgroundColour (m : Machine μ) : Colour := m.ppu.colour 0

end Machine

end Nes
