import Nes.Cpu.Effect
import Nes.Text.Hex

/-!
# Steps of the CPU

A step is one cycle of waiting, or one instruction, or the entry into an interrupt together with
the first instruction of its handler. `Wired.step` carries it out and gives the cycles it took.

Waiting is not counted by the cycle counter. A transfer into sprite memory that an instruction has
started makes the CPU wait for 513 cycles, and for one more if the counter is odd after the
instruction.
-/

set_option autoImplicit false

namespace Nes

/-- Cycles to wait for a transfer into sprite memory that ends its instruction on an even cycle. -/
def dmaStallCycles : Nat := 513

/-- Cycles to wait for a transfer, by the value of the cycle counter. -/
def stallCycles (cycles : Nat) : Nat := dmaStallCycles + cycles % 2

/-- Cycles that the entry into an interrupt takes. -/
def interruptCycles : Nat := 7

namespace Wired

variable {β : Type} [Bus β]

/-- Enters the handler of the waiting interrupt, if there is one. -/
def serveInterrupt (s : Wired β) : Wired β :=
  let enter (vector : UInt16) : Wired β :=
    ((s.mapCpu fun c => { c with interrupt := .none }).enterInterrupt vector).mapCpu fun c =>
      { c with cycles := c.cycles + interruptCycles }
  match s.cpu.interrupt with
  | .none => s
  | .nmi => enter nmiVector
  | .irq => enter irqVector

/-- Reads the opcode at the program counter and its operand. -/
def fetch (s : Wired β) : Instruction × Wired β :=
  let byte := s.read s.cpu.pc
  let opcode := Opcode.ofByte byte.1
  let operand := Operand.find byte.2.cpu byte.2.bus opcode.mode
  (⟨byte.1, operand.1, s.cpu.pc + UInt16.ofNat opcode.size⟩, { byte.2 with bus := operand.2 })

/-- Moves on to the next instruction and counts the cycles of this one. -/
def advance (s : Wired β) (i : Instruction) : Wired β :=
  s.mapCpu fun c => { c with pc := i.next, cycles := c.cycles + i.cycles }

/-- Makes the CPU wait for a transfer that has just been started. -/
def chargeOamDma (s : Wired β) : Wired β :=
  let r := Bus.takeOamDma s.bus
  let s := { s with bus := r.2 }
  if r.1 then s.mapCpu fun c => { c with stall := c.stall + stallCycles c.cycles } else s

/-- Runs one instruction, entering the waiting interrupt before it. -/
def runInstruction (s : Wired β) : Wired β :=
  let r := s.serveInterrupt.fetch
  (r.1.opcode.mnemonic.effect.run r.1 (r.2.advance r.1)).chargeOamDma

/-- One step, and the cycles it took. -/
def step (s : Wired β) : Nat × Wired β :=
  if s.cpu.stall = 0 then
    let t := s.runInstruction
    (t.cpu.cycles - s.cpu.cycles, t)
  else (1, s.mapCpu fun c => { c with stall := c.stall - 1 })

/-- The instruction that the next step runs, with the CPU and the bus as it finds them. There is
none when the CPU waits. -/
def upcoming? (s : Wired β) : Option (Instruction × Wired β) :=
  if s.cpu.stall = 0 then some s.serveInterrupt.fetch else none

end Wired

/-- The line that traces an instruction, with the registers as the instruction finds them. -/
def Instruction.traceLine (i : Instruction) (c : Cpu) : String :=
  Hex.word c.pc ++ "  " ++ Hex.byte i.byte ++ "  " ++ i.opcode.mnemonic.name ++ " "
    ++ i.opcode.mode.name ++ " $" ++ Hex.word i.operand.address
    ++ "  A:" ++ Hex.byte c.a ++ " X:" ++ Hex.byte c.x ++ " Y:" ++ Hex.byte c.y
    ++ " P:" ++ Hex.byte c.p ++ " SP:" ++ Hex.byte c.sp ++ s!" CYC:{c.cycles}"

end Nes
