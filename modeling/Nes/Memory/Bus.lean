/-!
# What the CPU reaches

The CPU reads and writes bytes at sixteen-bit addresses. A bus is anything that answers; an
access may change it. A bus also says, once, whether the writes made so far have started a
transfer into sprite memory, for which the CPU has to wait; most never do.

Two buses are built from others here: `Recorded` keeps the list of accesses, and `NoTransfer`
never reports a transfer.
-/

set_option autoImplicit false

namespace Nes

/-- Anything that answers the reads and writes of the CPU. -/
class Bus (β : Type) where
  read : β → UInt16 → UInt8 × β
  write : β → UInt16 → UInt8 → β
  /-- Whether a transfer into sprite memory was started since the last time this was asked. -/
  takeOamDma : β → Bool × β := fun b => (false, b)

/-- A sixteen-bit word made of its low and its high byte. -/
def wordOf (low high : UInt8) : UInt16 := (high.toUInt16 <<< 8) ||| low.toUInt16

/-- The page of an address: its high byte. -/
def pageOf (addr : UInt16) : UInt16 := addr &&& 0xFF00

/-- The next address in the same page; the last one is followed by the first. -/
def nextInPage (addr : UInt16) : UInt16 := pageOf addr ||| (addr.toUInt8 + 1).toUInt16

/-- Reads as many consecutive addresses as the number says, one after the other. -/
def readRange {β : Type} (read : β → UInt16 → UInt8 × β) :
    Nat → β → UInt16 → Array UInt8 → Array UInt8 × β
  | 0, b, _, acc => (acc, b)
  | n + 1, b, addr, acc =>
      let r := read b addr
      readRange read n r.2 (addr + 1) (acc.push r.1)

/-- The first address of a page. -/
def pageStart (page : UInt8) : UInt16 := page.toUInt16 <<< 8

/-- Bytes moved by one transfer into sprite memory: a page. -/
def dmaTransferSize : Nat := 256

/-- Reads a whole page from its first byte to its last. -/
def readPage {β : Type} (read : β → UInt16 → UInt8 × β) (b : β) (page : UInt8) :
    Array UInt8 × β :=
  readRange read dmaTransferSize b (pageStart page) #[]

namespace Bus

variable {β : Type} [Bus β]

/-- Reads the word at an address, low byte first. -/
def readWord (b : β) (addr : UInt16) : UInt16 × β :=
  let low := read b addr
  let high := read low.2 (addr + 1)
  (wordOf low.1 high.1, high.2)

/-- Reads a pointer, low byte first, without leaving its page. -/
def readPointer (b : β) (addr : UInt16) : UInt16 × β :=
  let low := read b addr
  let high := read low.2 (nextInPage addr)
  (wordOf low.1 high.1, high.2)

end Bus

/-- One access on a bus. -/
inductive Access
  | read (addr : UInt16)
  | write (addr : UInt16) (value : UInt8)
  deriving DecidableEq, Repr

/-- A bus with the list of all accesses made on it, in their order. -/
structure Recorded (β : Type) where
  bus : β
  accesses : Array Access := #[]

instance {β : Type} [Bus β] : Bus (Recorded β) where
  read r addr :=
    let answer := Bus.read r.bus addr
    (answer.1, ⟨answer.2, r.accesses.push (.read addr)⟩)
  write r addr value := ⟨Bus.write r.bus addr value, r.accesses.push (.write addr value)⟩
  takeOamDma r :=
    let answer := Bus.takeOamDma r.bus
    (answer.1, { r with bus := answer.2 })

/-- A bus that never reports a transfer, and leaves it to be reported by the bus inside. -/
structure NoTransfer (β : Type) where
  bus : β

instance {β : Type} [Bus β] : Bus (NoTransfer β) where
  read r addr :=
    let answer := Bus.read r.bus addr
    (answer.1, ⟨answer.2⟩)
  write r addr value := ⟨Bus.write r.bus addr value⟩

end Nes
