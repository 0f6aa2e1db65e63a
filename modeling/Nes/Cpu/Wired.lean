import Nes.Cpu.Basic
import Nes.Memory.Bus

/-!
# A CPU on its bus

Instructions act on a CPU together with the bus it is wired to. Here are the single accesses and
what is made of them: the stack in the page from 0100 on, and the entry into an interrupt.

The stack pointer names the next free cell. A push stores and then counts down, a pull counts up
and then reads, and the pointer wraps within the page. Words are pushed high byte first.
-/

set_option autoImplicit false

namespace Nes

/-- A CPU and the bus it is wired to. -/
structure Wired (β : Type) where
  cpu : Cpu
  bus : β

/-- Where the address of the handler of a non-maskable interrupt is found. -/
def nmiVector : UInt16 := 0xFFFA

/-- Where the address of the first instruction is found. -/
def resetVector : UInt16 := 0xFFFC

/-- Where the address of the handler of an interrupt is found. -/
def irqVector : UInt16 := 0xFFFE

namespace Wired

variable {β : Type} [Bus β]

/-- Changes the CPU only. -/
@[inline] def mapCpu (s : Wired β) (f : Cpu → Cpu) : Wired β := { s with cpu := f s.cpu }

/-! ## Accesses -/

/-- Reads a byte. -/
def read (s : Wired β) (addr : UInt16) : UInt8 × Wired β :=
  let r := Bus.read s.bus addr
  (r.1, { s with bus := r.2 })

/-- Writes a byte. -/
def write (s : Wired β) (addr : UInt16) (value : UInt8) : Wired β :=
  { s with bus := Bus.write s.bus addr value }

/-- Reads a word, low byte first. -/
def readWord (s : Wired β) (addr : UInt16) : UInt16 × Wired β :=
  let r := Bus.readWord s.bus addr
  (r.1, { s with bus := r.2 })

/-! ## The stack -/

/-- The cell of the stack that a stack pointer names. -/
def stackCell (sp : UInt8) : UInt16 := 0x0100 ||| sp.toUInt16

/-- Pushes a byte. -/
def push (s : Wired β) (value : UInt8) : Wired β :=
  (s.write (stackCell s.cpu.sp) value).mapCpu fun c => { c with sp := c.sp - 1 }

/-- Pulls a byte. -/
def pull (s : Wired β) : UInt8 × Wired β :=
  let s := s.mapCpu fun c => { c with sp := c.sp + 1 }
  s.read (stackCell s.cpu.sp)

/-- Pushes a word. -/
def pushWord (s : Wired β) (value : UInt16) : Wired β :=
  (s.push (value >>> 8).toUInt8).push value.toUInt8

/-- Pulls a word. -/
def pullWord (s : Wired β) : UInt16 × Wired β :=
  let low := s.pull
  let high := low.2.pull
  (wordOf low.1 high.1, high.2)

/-- Pushes the status byte with the break bit set. -/
def pushStatus (s : Wired β) : Wired β := s.push (s.cpu.p ||| Status.brk)

/-- Pulls the status byte, without the break bit and with the unused one. -/
def pullStatus (s : Wired β) : Wired β :=
  let r := s.pull
  r.2.mapCpu fun c => { c with p := (r.1 &&& ~~~Status.brk) ||| Status.unused }

/-! ## Interrupts and reset -/

/-- Goes to the address found at a vector. -/
def jumpThrough (s : Wired β) (vector : UInt16) : Wired β :=
  let r := s.readWord vector
  r.2.mapCpu fun c => { c with pc := r.1 }

/-- Enters a handler: saves the program counter and the status byte, disables interrupts and goes
to the address found at the vector. -/
def enterInterrupt (s : Wired β) (vector : UInt16) : Wired β :=
  let s := (s.pushWord s.cpu.pc).pushStatus
  (s.mapCpu fun c => c.setFlag Status.irqDisable true).jumpThrough vector

/-- Resets the CPU. The registers A, X and Y and the cycle counter stay. -/
def reset (s : Wired β) : Wired β :=
  (s.jumpThrough resetVector).mapCpu fun c =>
    { c with sp := 0xFD, p := Status.reset, interrupt := .none, stall := 0 }

end Wired

end Nes
