import Nes.Cpu.Arithmetic
import Nes.Cpu.Opcode
import Nes.Cpu.Operand
import Nes.Cpu.Wired

/-!
# What instructions do

The effect of an instruction is data: `Mnemonic.effect` says of each family which accesses it
makes and what it does to the registers in between, and `Effect.run` carries that out. The accesses
of an effect can be read off its constructor: a load reads its operand once, a store writes it
once, a modification reads it and writes it back, and the other effects leave it alone.

The undocumented families that combine two documented ones are put together from their halves, with
the count up or down left without flags of its own. The ones that are not stable do nothing beyond
taking their operand bytes.
-/

set_option autoImplicit false

namespace Nes

/-- An instruction that has been fetched: its opcode, its operand and where the next one starts. -/
structure Instruction where
  byte : UInt8
  operand : Operand
  next : UInt16
  deriving DecidableEq, Repr

namespace Instruction

/-- The opcode of an instruction. -/
def opcode (i : Instruction) : Opcode := Opcode.ofByte i.byte

/-- Cycles of an instruction, taken branches apart. -/
def cycles (i : Instruction) : Nat :=
  i.opcode.cycles + if i.operand.crossed then i.opcode.pageCycles else 0

end Instruction

/-- What an instruction does. -/
inductive Effect
  /-- Reads the operand and works it into the registers. -/
  | load (f : Cpu → UInt8 → Cpu)
  /-- Writes a byte made of the registers. -/
  | store (f : Cpu → UInt8)
  /-- Reads a byte and writes back another; on the accumulator, the byte is A. -/
  | modify (f : Cpu → UInt8 → UInt8 × Cpu)
  /-- Changes registers only. -/
  | registers (f : Cpu → Cpu)
  /-- Goes to the operand address if a condition holds. -/
  | branch (taken : Cpu → Bool)
  | jump
  | call
  | returnFromCall
  | softwareInterrupt
  | returnFromInterrupt
  | pushA
  | pushStatus
  | pullA
  | pullStatus
  | idle

namespace Cpu

/-! ## Combined families -/

/-- A modification whose result is then worked into the registers. -/
def modifyThen (f : Cpu → UInt8 → UInt8 × Cpu) (g : Cpu → UInt8 → Cpu) (c : Cpu) (value : UInt8) :
    UInt8 × Cpu :=
  let r := f c value
  (r.1, g r.2 r.1)

/-- Adds one and leaves the flags to what follows. -/
def countUp (c : Cpu) (value : UInt8) : UInt8 × Cpu := (value + 1, c)

/-- Subtracts one and leaves the flags to what follows. -/
def countDown (c : Cpu) (value : UInt8) : UInt8 × Cpu := (value - 1, c)

/-- Keeps in A what it shares with a byte. -/
def andA (c : Cpu) (value : UInt8) : Cpu := c.setA (c.a &&& value)

/-- Joins a byte to A. -/
def orA (c : Cpu) (value : UInt8) : Cpu := c.setA (c.a ||| value)

/-- Flips in A the bits of a byte. -/
def xorA (c : Cpu) (value : UInt8) : Cpu := c.setA (c.a ^^^ value)

/-- Compares A with a byte. -/
def compareA (c : Cpu) (value : UInt8) : Cpu := c.compare c.a value

/-- Loads a byte into A and X. -/
def loadAX (c : Cpu) (value : UInt8) : Cpu := ({ c with a := value, x := value }).updateZN value

/-- Loads into A, X and the stack pointer what a byte shares with the stack pointer. -/
def loadMasked (c : Cpu) (value : UInt8) : Cpu :=
  let result := value &&& c.sp
  ({ c with a := result, x := result, sp := result }).updateZN result

/-- Keeps in A what it shares with a byte, and copies the sign into the carry. -/
def andCopySign (c : Cpu) (value : UInt8) : Cpu :=
  let c := c.andA value
  c.setFlag Status.carry (c.flag Status.negative)

/-- Shifts right what A shares with a byte, and puts it into A. -/
def andShift (c : Cpu) (value : UInt8) : Cpu :=
  let r := c.shiftRight (c.a &&& value)
  { r.2 with a := r.1 }

/-- Rotates right what A shares with a byte, and puts it into A. The carry becomes bit 6 of the
result, and overflow tells whether its bits 6 and 5 differ. -/
def andRotate (c : Cpu) (value : UInt8) : Cpu :=
  let result := ((c.a &&& value) >>> 1) ||| (c.carry <<< 7)
  ((c.setA result).setFlag Status.carry (decide (result &&& 0x40 ≠ 0))).setFlag Status.overflow
    (decide (((result >>> 6) ^^^ (result >>> 5)) &&& 1 ≠ 0))

/-- Subtracts a byte, without borrow, from what A and X share, and puts the result into X. -/
def subtractIntoX (c : Cpu) (value : UInt8) : Cpu :=
  let shared := c.a &&& c.x
  (c.setX (shared - value)).setFlag Status.carry (decide (value ≤ shared))

end Cpu

/-! ## Effects by family -/

/-- The effect of a family. -/
def Mnemonic.effect : Mnemonic → Effect
  | adc => .load Cpu.addWithCarry
  | sbc => .load Cpu.subtractWithCarry
  | cmp => .load Cpu.compareA
  | cpx => .load fun c value => c.compare c.x value
  | cpy => .load fun c value => c.compare c.y value
  | bit => .load Cpu.testBits
  | and => .load Cpu.andA
  | ora => .load Cpu.orA
  | eor => .load Cpu.xorA
  | lda => .load Cpu.setA
  | ldx => .load Cpu.setX
  | ldy => .load Cpu.setY
  | lax => .load Cpu.loadAX
  | las => .load Cpu.loadMasked
  | anc => .load Cpu.andCopySign
  | alr => .load Cpu.andShift
  | arr => .load Cpu.andRotate
  | axs => .load Cpu.subtractIntoX
  | sta => .store fun c => c.a
  | stx => .store fun c => c.x
  | sty => .store fun c => c.y
  | sax => .store fun c => c.a &&& c.x
  | inc => .modify Cpu.increment
  | dec => .modify Cpu.decrement
  | asl => .modify Cpu.shiftLeft
  | lsr => .modify Cpu.shiftRight
  | rol => .modify Cpu.rotateLeft
  | ror => .modify Cpu.rotateRight
  | slo => .modify (Cpu.modifyThen Cpu.shiftLeft Cpu.orA)
  | rla => .modify (Cpu.modifyThen Cpu.rotateLeft Cpu.andA)
  | sre => .modify (Cpu.modifyThen Cpu.shiftRight Cpu.xorA)
  | rra => .modify (Cpu.modifyThen Cpu.rotateRight Cpu.addWithCarry)
  | dcp => .modify (Cpu.modifyThen Cpu.countDown Cpu.compareA)
  | isc => .modify (Cpu.modifyThen Cpu.countUp Cpu.subtractWithCarry)
  | inx => .registers fun c => c.setX (c.x + 1)
  | iny => .registers fun c => c.setY (c.y + 1)
  | dex => .registers fun c => c.setX (c.x - 1)
  | dey => .registers fun c => c.setY (c.y - 1)
  | tax => .registers fun c => c.setX c.a
  | tay => .registers fun c => c.setY c.a
  | txa => .registers fun c => c.setA c.x
  | tya => .registers fun c => c.setA c.y
  | tsx => .registers fun c => c.setX c.sp
  | txs => .registers fun c => { c with sp := c.x }
  | clc => .registers fun c => c.setFlag Status.carry false
  | cld => .registers fun c => c.setFlag Status.decimal false
  | cli => .registers fun c => c.setFlag Status.irqDisable false
  | clv => .registers fun c => c.setFlag Status.overflow false
  | sec => .registers fun c => c.setFlag Status.carry true
  | sed => .registers fun c => c.setFlag Status.decimal true
  | sei => .registers fun c => c.setFlag Status.irqDisable true
  | bcc => .branch fun c => !c.flag Status.carry
  | bcs => .branch fun c => c.flag Status.carry
  | bne => .branch fun c => !c.flag Status.zero
  | beq => .branch fun c => c.flag Status.zero
  | bpl => .branch fun c => !c.flag Status.negative
  | bmi => .branch fun c => c.flag Status.negative
  | bvc => .branch fun c => !c.flag Status.overflow
  | bvs => .branch fun c => c.flag Status.overflow
  | jmp => .jump
  | jsr => .call
  | rts => .returnFromCall
  | brk => .softwareInterrupt
  | rti => .returnFromInterrupt
  | pha => .pushA
  | php => .pushStatus
  | pla => .pullA
  | plp => .pullStatus
  | nop | kil | xaa | ahx | tas | shx | shy => .idle

/-! ## Carrying out an effect -/

/-- Goes to the address of the operand: one cycle more, and another one if that is on another page
than the next instruction. -/
def Cpu.takeBranch (c : Cpu) (i : Instruction) : Cpu :=
  { c with
    pc := i.operand.address
    cycles := c.cycles + if pageOf i.next = pageOf i.operand.address then 1 else 2 }

/-- Carries out an effect. The program counter has moved on to the next instruction. -/
def Effect.run {β : Type} [Bus β] (e : Effect) (i : Instruction) (s : Wired β) : Wired β :=
  let addr := i.operand.address
  match e with
  | .load f =>
      let r := s.read addr
      r.2.mapCpu fun c => f c r.1
  | .store f => s.write addr (f s.cpu)
  | .modify f =>
      if i.opcode.mode = .accumulator then
        s.mapCpu fun c =>
          let r := f c c.a
          { r.2 with a := r.1 }
      else
        let r := s.read addr
        let m := f r.2.cpu r.1
        (r.2.write addr m.1).mapCpu fun _ => m.2
  | .registers f => s.mapCpu f
  | .branch taken => if taken s.cpu then s.mapCpu fun c => c.takeBranch i else s
  | .jump => s.mapCpu fun c => { c with pc := addr }
  | .call => (s.pushWord (s.cpu.pc - 1)).mapCpu fun c => { c with pc := addr }
  | .returnFromCall =>
      let r := s.pullWord
      r.2.mapCpu fun c => { c with pc := r.1 + 1 }
  | .softwareInterrupt => s.enterInterrupt irqVector
  | .returnFromInterrupt =>
      let r := s.pullStatus.pullWord
      r.2.mapCpu fun c => { c with pc := r.1 }
  | .pushA => s.push s.cpu.a
  | .pushStatus => s.pushStatus
  | .pullA =>
      let r := s.pull
      r.2.mapCpu fun c => c.setA r.1
  | .pullStatus => s.pullStatus
  | .idle => s

end Nes
