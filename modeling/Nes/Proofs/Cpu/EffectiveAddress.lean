import Nes.Memory.Flat
import Nes.Proofs.Cpu.Cost

/-!
# Where operands are

On a bus whose reads have no side effect, the operand of an instruction is an address made of the
contents of the bus, the program counter and an index register. Here it is given as a number for
each of the thirteen modes (`Mode.effectiveAddress`), together with the addresses that are read on
the way to it (`Mode.addressesRead`).

The modes wrap in four ways. Addresses and words of operand bytes wrap at the end of the address
space; an index in page zero and the second byte of a pointer in page zero wrap within that page;
the pointer of an indirect jump wraps within its own page; and the distance of a branch has a sign.
-/

set_option autoImplicit false

namespace Nes

variable {β : Type} [Bus β]

/-- Reads find the bytes `m` and change nothing. -/
def Bus.Shows (b : β) (m : UInt16 → UInt8) : Prop := ∀ addr, Bus.read b addr = (m addr, b)

theorem Flat.shows (m : Flat) : Bus.Shows m m.get := fun _ => rfl

/-! ## Contents as numbers -/

section Contents

variable (m : UInt16 → UInt8)

/-- The byte at a place. -/
def byteNumber (place : Nat) : Nat := (m (UInt16.ofNat place)).toNat

/-- The number made of a low and a high byte, by their places. -/
def pairNumber (low high : Nat) : Nat := byteNumber m low + 256 * byteNumber m high

/-- The word at a place. It may start in the last cell of the address space. -/
def wordNumber (place : Nat) : Nat := pairNumber m place ((place + 1) % 65536)

theorem byteNumber_toNat (addr : UInt16) : byteNumber m addr.toNat = (m addr).toNat := by
  rw [byteNumber, UInt16.ofNat_toNat]

theorem pairNumber_toNat (low high : UInt16) :
    pairNumber m low.toNat high.toNat = (wordOf (m low) (m high)).toNat := by
  rw [pairNumber, byteNumber_toNat, byteNumber_toNat, toNat_wordOf]

end Contents

/-- A byte in two's complement. -/
def signedByte (n : Nat) : Int := if n < 128 then n else n - 256

theorem toNat_add_one (addr : UInt16) : (addr + 1).toNat = (addr.toNat + 1) % 65536 :=
  UInt16.toNat_add addr 1

theorem wordNumber_toNat (m : UInt16 → UInt8) (addr : UInt16) :
    wordNumber m addr.toNat = (wordOf (m addr) (m (addr + 1))).toNat := by
  rw [wordNumber, ← toNat_add_one, pairNumber_toNat]

theorem toNat_nextInPage (addr : UInt16) :
    (nextInPage addr).toNat = addr.toNat / 256 * 256 + (addr.toNat % 256 + 1) % 256 := by
  have hlow : (addr.toUInt8 + 1).toUInt16.toNat = (addr.toNat % 256 + 1) % 256 := by
    rw [UInt8.toNat_toUInt16, UInt8.toNat_add, UInt16.toNat_toUInt8]
    rfl
  have hlt : (addr.toNat % 256 + 1) % 256 < 2 ^ 8 := Nat.mod_lt _ (by decide)
  rw [nextInPage, UInt16.toNat_or, toNat_pageOf, hlow, Nat.mul_comm (addr.toNat / 256)]
  exact (Nat.two_pow_add_eq_or_of_lt hlt _).symm

/-- In page zero the next cell is found without regard to the page. -/
theorem toNat_nextInPage_zeroPage (byte : UInt8) :
    (nextInPage byte.toUInt16).toNat = (byte.toNat + 1) % 256 := by
  have hbyte := byte.toNat_lt
  rw [toNat_nextInPage, UInt8.toNat_toUInt16]
  omega

theorem toNat_add_distance (addr : UInt16) (offset : UInt8) :
    ((addr + Operand.distance offset).toNat : Int) =
      (addr.toNat + signedByte offset.toNat) % 65536 := by
  have haddr : addr.toNat < 65536 := addr.toNat_lt
  have hoffset := offset.toNat_lt
  have hpage : (0x100 : UInt16).toNat = 256 := rfl
  have hhalf : offset < 0x80 ↔ offset.toNat < 128 := UInt8.lt_iff_toNat_lt
  rw [UInt16.toNat_add, Operand.distance, signedByte]
  by_cases h : offset.toNat < 128
  · rw [if_pos (hhalf.mpr h), if_pos h, UInt8.toNat_toUInt16]
    omega
  · rw [if_neg (mt hhalf.mp h), if_neg h, UInt16.toNat_sub, UInt8.toNat_toUInt16, hpage]
    omega

/-! ## The modes -/

namespace Mode

variable (c : Cpu) (m : UInt16 → UInt8)

/-- The place of the byte behind the opcode. -/
def operandPlace : Nat := (c.pc.toNat + 1) % 65536

/-- The modes whose operand is in page zero. -/
def staysInZeroPage : Mode → Bool
  | zeroPage | zeroPageX | zeroPageY => true
  | _ => false

/-- The modes whose pointer is in page zero. -/
def pointsFromZeroPage : Mode → Bool
  | indexedIndirect | indirectIndexed => true
  | _ => false

/-- The base address and the index of the modes that add an index to a word. -/
def indexed? : Mode → Option (Nat × Nat)
  | absoluteX => some (wordNumber m (operandPlace c), c.x.toNat)
  | absoluteY => some (wordNumber m (operandPlace c), c.y.toNat)
  | indirectIndexed =>
      let pointer := byteNumber m (operandPlace c)
      some (pairNumber m pointer ((pointer + 1) % 256), c.y.toNat)
  | _ => none

/-- The address of the operand. -/
def effectiveAddress : Mode → Nat
  | implied | accumulator => 0
  | immediate => operandPlace c
  | zeroPage => byteNumber m (operandPlace c)
  | zeroPageX => (byteNumber m (operandPlace c) + c.x.toNat) % 256
  | zeroPageY => (byteNumber m (operandPlace c) + c.y.toNat) % 256
  | relative => ((c.pc.toNat + 2 + signedByte (byteNumber m (operandPlace c))) % 65536).toNat
  | absolute => wordNumber m (operandPlace c)
  | absoluteX => (wordNumber m (operandPlace c) + c.x.toNat) % 65536
  | absoluteY => (wordNumber m (operandPlace c) + c.y.toNat) % 65536
  | indirect =>
      let pointer := wordNumber m (operandPlace c)
      pairNumber m pointer (pointer / 256 * 256 + (pointer % 256 + 1) % 256)
  | indexedIndirect =>
      let pointer := (byteNumber m (operandPlace c) + c.x.toNat) % 256
      pairNumber m pointer ((pointer + 1) % 256)
  | indirectIndexed =>
      let pointer := byteNumber m (operandPlace c)
      (pairNumber m pointer ((pointer + 1) % 256) + c.y.toNat) % 65536

/-- The addresses that are read to find the operand, in their order. -/
def addressesRead : Mode → List Nat
  | implied | accumulator | immediate => []
  | zeroPage | zeroPageX | zeroPageY | relative => [operandPlace c]
  | absolute | absoluteX | absoluteY => [operandPlace c, (operandPlace c + 1) % 65536]
  | indirect =>
      let pointer := wordNumber m (operandPlace c)
      [operandPlace c, (operandPlace c + 1) % 65536, pointer,
        pointer / 256 * 256 + (pointer % 256 + 1) % 256]
  | indexedIndirect =>
      let pointer := (byteNumber m (operandPlace c) + c.x.toNat) % 256
      [operandPlace c, pointer, (pointer + 1) % 256]
  | indirectIndexed =>
      let pointer := byteNumber m (operandPlace c)
      [operandPlace c, pointer, (pointer + 1) % 256]

end Mode

namespace Bus.Shows

variable {b : β} {m : UInt16 → UInt8} (h : Shows b m)
include h

theorem readWord (addr : UInt16) :
    Bus.readWord b addr = (wordOf (m addr) (m (addr + 1)), b) := by
  simp only [Bus.readWord, h addr, h (addr + 1)]

theorem readPointer (addr : UInt16) :
    Bus.readPointer b addr = (wordOf (m addr) (m (nextInPage addr)), b) := by
  simp only [Bus.readPointer, h addr, h (nextInPage addr)]

end Bus.Shows

/-- A pointer in page zero finds its second byte there as well. -/
theorem pairNumber_zeroPage (m : UInt16 → UInt8) (byte : UInt8) :
    pairNumber m byte.toNat ((byte.toNat + 1) % 256) =
      (wordOf (m byte.toUInt16) (m (nextInPage byte.toUInt16))).toNat := by
  rw [← toNat_nextInPage_zeroPage, ← UInt8.toNat_toUInt16, pairNumber_toNat]

namespace Operand

variable {b : β} {m : UInt16 → UInt8} (h : Bus.Shows b m) (c : Cpu)

theorem byteNumber_operandPlace : byteNumber m (Mode.operandPlace c) = (m (c.pc + 1)).toNat := by
  rw [Mode.operandPlace, ← toNat_add_one, byteNumber_toNat]

theorem wordNumber_operandPlace :
    wordNumber m (Mode.operandPlace c) = (wordOf (m (c.pc + 1)) (m (c.pc + 1 + 1))).toNat := by
  rw [Mode.operandPlace, ← toNat_add_one, wordNumber_toNat]

include h

/-- Finding an operand leaves the bus as it is. -/
theorem snd_find_of_shows (mode : Mode) : (find c b mode).2 = b := by
  cases mode <;> simp only [find, h _, h.readWord, h.readPointer]

theorem toNat_address_find (mode : Mode) :
    (find c b mode).1.address.toNat = mode.effectiveAddress c m := by
  have hindex : ∀ (base : UInt16) (index : UInt8),
      (indexed base index).address.toNat = (base.toNat + index.toNat) % 65536 := by
    intro base index
    show (base + index.toUInt16).toNat = _
    rw [UInt16.toNat_add, UInt8.toNat_toUInt16]
  cases mode with
  | implied | accumulator => rfl
  | immediate => exact toNat_add_one c.pc
  | zeroPage =>
      simp only [find, h _, direct, Mode.effectiveAddress, byteNumber_operandPlace]
      exact UInt8.toNat_toUInt16 _
  | zeroPageX | zeroPageY =>
      simp only [find, h _, direct, Mode.effectiveAddress, byteNumber_operandPlace]
      rw [UInt8.toNat_toUInt16, UInt8.toNat_add]
  | relative =>
      have hnext : (c.pc + 2).toNat = (c.pc.toNat + 2) % 65536 := UInt16.toNat_add c.pc 2
      have htarget := toNat_add_distance (c.pc + 2) (m (c.pc + 1))
      simp only [find, h _, direct, Mode.effectiveAddress, byteNumber_operandPlace]
      omega
  | absolute =>
      simp only [find, h.readWord, direct, Mode.effectiveAddress, wordNumber_operandPlace]
  | absoluteX | absoluteY =>
      simp only [find, h.readWord, hindex, Mode.effectiveAddress, wordNumber_operandPlace]
  | indirect =>
      simp only [find, h.readWord, h.readPointer, direct, Mode.effectiveAddress,
        wordNumber_operandPlace]
      rw [← toNat_nextInPage, pairNumber_toNat]
  | indexedIndirect =>
      simp only [find, h _, h.readPointer, direct, Mode.effectiveAddress, byteNumber_operandPlace]
      rw [← UInt8.toNat_add, pairNumber_zeroPage]
  | indirectIndexed =>
      simp only [find, h _, h.readPointer, hindex, Mode.effectiveAddress, byteNumber_operandPlace,
        pairNumber_zeroPage]

/-- The modes that add an index take the base from the contents. -/
theorem indexed?_eq_parts? (mode : Mode) :
    mode.indexed? c m = (parts? c b mode).map fun parts => (parts.1.toNat, parts.2.toNat) := by
  cases mode with
  | absoluteX | absoluteY =>
      simp only [Mode.indexed?, parts?, h.readWord, wordNumber_operandPlace, Option.map_some]
  | indirectIndexed =>
      simp only [Mode.indexed?, parts?, h _, h.readPointer, byteNumber_operandPlace,
        pairNumber_zeroPage, Option.map_some]
  | implied | accumulator | immediate | zeroPage | zeroPageX | zeroPageY | relative | absolute
  | indirect | indexedIndirect => rfl

/-- Where an index is added, it leads to another page when it carries out of the low byte. -/
theorem crossed_find (mode : Mode) :
    (find c b mode).1.crossed = true ↔
      ∃ base index, mode.indexed? c m = some (base, index) ∧ 255 < base % 256 + index := by
  rw [indexed?_eq_parts? h]
  cases hparts : parts? c b mode with
  | none => simp [crossed_of_no_parts hparts]
  | some parts =>
      rw [find_of_parts hparts, crossed_indexed]
      constructor
      · intro hcarry
        exact ⟨parts.1.toNat, parts.2.toNat, rfl, hcarry⟩
      · rintro ⟨base, index, hsome, hcarry⟩
        cases hsome
        exact hcarry

/-- The read of a place of the contents. -/
def shownRead (m : UInt16 → UInt8) (place : Nat) : Exchange :=
  .read (UInt16.ofNat place) (m (UInt16.ofNat place))

/-- What is read to find an operand. -/
theorem exchanges_find_of_shows (mode : Mode) :
    (find c (⟨b, []⟩ : Transcribed β) mode).2.exchanges =
      (mode.addressesRead c m).map (shownRead m) := by
  have hread : ∀ (l : List Exchange) (addr : UInt16), Bus.read (⟨b, l⟩ : Transcribed β) addr =
      (m addr, ⟨b, l ++ [shownRead m addr.toNat]⟩) := by
    intro l addr
    rw [shownRead, UInt16.ofNat_toNat]
    show ((Bus.read b addr).1, (⟨(Bus.read b addr).2, _⟩ : Transcribed β)) = _
    rw [h addr]
  have hplace : (c.pc + 1).toNat = Mode.operandPlace c := toNat_add_one c.pc
  have hnext : (c.pc + 1 + 1).toNat = (Mode.operandPlace c + 1) % 65536 := by
    rw [toNat_add_one, hplace]
  cases mode with
  | implied | accumulator | immediate => rfl
  | zeroPage | zeroPageX | zeroPageY | relative =>
      simp [find, hread, Mode.addressesRead, hplace]
  | absolute | absoluteX | absoluteY =>
      simp [find, Bus.readWord, hread, Mode.addressesRead, hplace, hnext]
  | indirect =>
      simp [find, Bus.readWord, Bus.readPointer, hread, Mode.addressesRead, hplace, hnext,
        wordNumber_operandPlace, toNat_nextInPage]
  | indexedIndirect | indirectIndexed =>
      simp [find, Bus.readPointer, hread, Mode.addressesRead, hplace, byteNumber_operandPlace,
        toNat_nextInPage_zeroPage, -UInt8.toUInt16_add]

end Operand

/-! ## All modes -/

/-- What finding an operand gives on a bus that shows the bytes `m`, and what it reads. -/
structure FindsOperand (b : β) (m : UInt16 → UInt8) (c : Cpu) (mode : Mode) : Prop where
  address : (Operand.find c b mode).1.address.toNat = mode.effectiveAddress c m
  /-- An index leads to another page when it carries out of the low byte of the base. -/
  crossed : (Operand.find c b mode).1.crossed = true ↔
    ∃ base index, mode.indexed? c m = some (base, index) ∧ 255 < base % 256 + index
  /-- Nothing else is read, and nothing written. -/
  exchanges : (Operand.find c (⟨b, []⟩ : Transcribed β) mode).2.exchanges =
    (mode.addressesRead c m).map (Operand.shownRead m)
  unchanged : (Operand.find c b mode).2 = b
  zeroPage : mode.staysInZeroPage = true → (Operand.find c b mode).1.address < 0x0100
  /-- Behind the operand byte, only page zero is read. -/
  pointer : mode.pointsFromZeroPage = true →
    ∀ e ∈ (Operand.find c (⟨b, []⟩ : Transcribed β) mode).2.exchanges.tail, e.addr < 0x0100

theorem Mode.effectiveAddress_lt {mode : Mode} (hmode : mode.staysInZeroPage = true) (c : Cpu)
    (m : UInt16 → UInt8) : mode.effectiveAddress c m < 256 := by
  cases mode with
  | zeroPage => exact (m (UInt16.ofNat (operandPlace c))).toNat_lt
  | zeroPageX | zeroPageY => exact Nat.mod_lt _ (by decide)
  | _ => cases hmode

theorem Mode.addressesRead_lt {mode : Mode} (hmode : mode.pointsFromZeroPage = true) (c : Cpu)
    (m : UInt16 → UInt8) : ∀ place ∈ (mode.addressesRead c m).tail, place < 256 := by
  have hmod : ∀ n : Nat, n % 256 < 256 := fun n => Nat.mod_lt n (by decide)
  cases mode with
  | indexedIndirect => simp [addressesRead, hmod]
  | indirectIndexed =>
      have hbyte : byteNumber m (operandPlace c) < 256 := UInt8.toNat_lt _
      simp [addressesRead, hmod, hbyte]
  | _ => cases hmode

/-- **Where operands are**: on every bus whose reads have no side effect, for every state of the CPU
and every mode. -/
theorem findsOperand_of_shows {b : β} {m : UInt16 → UInt8} (h : Bus.Shows b m) (c : Cpu)
    (mode : Mode) : FindsOperand b m c mode where
  address := Operand.toNat_address_find h c mode
  crossed := Operand.crossed_find h c mode
  exchanges := Operand.exchanges_find_of_shows h c mode
  unchanged := Operand.snd_find_of_shows h c mode
  zeroPage hmode := by
    rw [UInt16.lt_iff_toNat_lt, Operand.toNat_address_find h c mode]
    exact Mode.effectiveAddress_lt hmode c m
  pointer hmode e he := by
    rw [Operand.exchanges_find_of_shows h c mode, ← List.map_tail] at he
    obtain ⟨place, hplace, rfl⟩ := List.mem_map.mp he
    have hlt := Mode.addressesRead_lt hmode c m place hplace
    show UInt16.ofNat place < 0x0100
    rw [UInt16.lt_iff_toNat_lt, UInt16.toNat_ofNat]
    exact Nat.lt_of_le_of_lt (Nat.mod_le _ _) hlt

/-- A program in the last cell of the address space, with a pointer in the last cell of page zero to
the last page: everything wraps. -/
theorem findsOperand_of_shows_wrapping :
    let m := ((Flat.filled 0).set 0x0000 0xFF).set 0x00FF 0xF0
    let c : Cpu := { pc := 0xFFFF, y := 0x20 }
    Bus.Shows m m.get ∧ FindsOperand m m.get c .indirectIndexed ∧
      Mode.indirectIndexed.effectiveAddress c m.get = 0x0010 ∧
      Mode.indirectIndexed.addressesRead c m.get = [0x0000, 0x00FF, 0x0000] ∧
      Mode.indirectIndexed.indexed? c m.get = some (0xFFF0, 0x20) := by
  intro m c
  have hzero : m.get 0x0000 = 0xFF := by
    rw [Flat.get_set_of_ne _ _ (by decide), Flat.get_set_self]
  have hlast : m.get 0x00FF = 0xF0 := Flat.get_set_self ..
  have hplace : Mode.operandPlace c = 0 := by decide
  have hindex : c.y.toNat = 32 := by decide
  have hpointer : byteNumber m.get 0 = 255 := congrArg UInt8.toNat hzero
  have hbyte : byteNumber m.get 255 = 240 := congrArg UInt8.toNat hlast
  refine ⟨m.shows, findsOperand_of_shows m.shows c _, ?_, ?_, ?_⟩
  · simp [Mode.effectiveAddress, pairNumber, hplace, hpointer, hbyte, hindex]
  · simp [Mode.addressesRead, hplace, hpointer]
  · simp [Mode.indexed?, pairNumber, hplace, hpointer, hbyte, hindex]

end Nes
