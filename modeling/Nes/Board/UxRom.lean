import Nes.Board.Basic
import Nes.Error
import Nes.Text.Hex

/-!
# The UxROM board

The CPU sees the save memory at 6000 to 7FFF, one bank of the program memory at 8000 to BFFF and
the last whole bank at C000 to FFFF. A write at 8000 or above selects the bank of the first
window, counted modulo the number of whole banks. The picture memory at 0000 to 1FFF can be
written. Nothing answers elsewhere: reads give 0 and writes are lost.

A cartridge for the simplest board, with one or two banks and mapper number 0, is served too:
its banks are where they should be as long as no bank is selected.
-/

set_option autoImplicit false

namespace Nes

/-- A UxROM board: its cartridge, and the bank selected for the first window. -/
structure UxRom where
  cartridge : Cartridge
  bank : Nat
  bank_lt : bank < cartridge.prg.size / prgBankSize

namespace UxRom

/-- The board of a cartridge, with the first bank selected. -/
def ofCartridge (c : Cartridge) : Except Error UxRom :=
  if h : 0 < c.prg.size / prgBankSize then .ok ⟨c, 0, h⟩ else .error .noPrgBank

/-- Number of whole banks of program memory. -/
def bankCount (u : UxRom) : Nat := u.cartridge.prg.size / prgBankSize

theorem bankCount_pos (u : UxRom) : 0 < u.bankCount :=
  Nat.lt_of_le_of_lt (Nat.zero_le _) u.bank_lt

theorem index_lt_size {c : Cartridge} {bank offset : Nat} (hb : bank < c.prg.size / prgBankSize)
    (ho : offset < prgBankSize) : bank * prgBankSize + offset < c.prg.size := by
  have h := Nat.div_mul_le_self c.prg.size prgBankSize
  have h' : (bank + 1) * prgBankSize ≤ c.prg.size / prgBankSize * prgBankSize :=
    Nat.mul_le_mul_right _ hb
  rw [Nat.add_mul] at h'
  omega

/-- A byte of a bank of program memory. -/
def prgByte (c : Cartridge) (bank offset : Nat) (hb : bank < c.prg.size / prgBankSize)
    (ho : offset < prgBankSize) : UInt8 :=
  have h := index_lt_size hb ho
  c.prg[bank * prgBankSize + offset]

/-- The byte of save memory behind an address of its window. -/
def sramIndex (addr : UInt16) : Fin sramSize := ⟨addr.toNat % sramSize, Nat.mod_lt _ (by decide)⟩

/-- The byte the CPU sees at an address. -/
def cpuByte (u : UxRom) (addr : UInt16) : UInt8 :=
  if 0xC000 ≤ addr then
    prgByte u.cartridge (u.bankCount - 1) (addr.toNat % prgBankSize)
      (Nat.sub_lt u.bankCount_pos Nat.one_pos) (Nat.mod_lt _ (by decide))
  else if 0x8000 ≤ addr then
    prgByte u.cartridge u.bank (addr.toNat % prgBankSize) u.bank_lt (Nat.mod_lt _ (by decide))
  else if 0x6000 ≤ addr then
    u.cartridge.sram[sramIndex addr]
  else 0

/-- Selects the bank of the first window. -/
def selectBank (u : UxRom) (value : UInt8) : UxRom :=
  { u with
    bank := value.toNat % u.bankCount
    bank_lt := Nat.mod_lt _ u.bankCount_pos }

/-- Stores a byte in the save memory. -/
def writeSram (u : UxRom) (addr : UInt16) (value : UInt8) : UxRom :=
  { u with
    cartridge :=
      { u.cartridge with
        sram := u.cartridge.sram.set (sramIndex addr) value } }

/-- A write by the CPU. -/
def cpuWrite (u : UxRom) (addr : UInt16) (value : UInt8) : UxRom :=
  if 0x8000 ≤ addr then u.selectBank value
  else if 0x6000 ≤ addr then u.writeSram addr value
  else u

/-- A read by the picture unit. -/
def ppuRead (u : UxRom) (addr : UInt16) : Option UInt8 :=
  if addr < 0x2000 then u.cartridge.chr[addr.toNat]? else some 0

/-- A write by the picture unit; past the end of the picture memory it is lost. -/
def ppuWrite (u : UxRom) (addr : UInt16) (value : UInt8) : UxRom :=
  if addr < 0x2000 then
    { u with
      cartridge :=
        { u.cartridge with chr := u.cartridge.chr.setIfInBounds addr.toNat value } }
  else u

/-- Selects the first bank again. -/
def reset (u : UxRom) : UxRom := { u with bank := 0, bank_lt := u.bankCount_pos }

instance : Board UxRom where
  cartridge := cartridge
  cpuRead u addr := (u.cpuByte addr, u)
  cpuWrite := cpuWrite
  ppuRead := ppuRead
  ppuWrite := ppuWrite
  reset := reset

/-! ## Reports

The buses never ask the board about addresses that it does not answer. Asked directly, it
still gives an answer, and the reports below say that nothing was there. -/

/-- The report on a read by the CPU. -/
def cpuReadReport? (addr : UInt16) : Option String :=
  if addr < 0x6000 then some ("uxrom: unmapped cpu read at $" ++ Hex.word addr) else none

/-- The report on a write by the CPU. -/
def cpuWriteReport? (addr : UInt16) (value : UInt8) : Option String :=
  if addr < 0x6000 then
    some ("uxrom: unmapped cpu write at $" ++ Hex.word addr ++ " = $" ++ Hex.byte value)
  else none

/-- The report on a read by the picture unit. -/
def ppuReadReport? (addr : UInt16) : Option String :=
  if addr < 0x2000 then none else some ("uxrom: unmapped ppu read at $" ++ Hex.word addr)

/-- The report on a write by the picture unit. -/
def ppuWriteReport? (addr : UInt16) (value : UInt8) : Option String :=
  if addr < 0x2000 then none
  else some ("uxrom: unmapped ppu write at $" ++ Hex.word addr ++ " = $" ++ Hex.byte value)

/-! ## What the windows show -/

/-- Save memory is behind the window from 6000 to 7FFF. -/
theorem cpuByte_of_saved (u : UxRom) {addr : UInt16} (hlow : 0x6000 ≤ addr)
    (hhigh : addr < 0x8000) : u.cpuByte addr = u.cartridge.sram[sramIndex addr] := by
  have hle : (0x8000 : UInt16) ≤ 0xC000 := by decide
  have hfixed : ¬ 0xC000 ≤ addr := UInt16.not_le.mpr (UInt16.lt_of_lt_of_le hhigh hle)
  rw [cpuByte, if_neg hfixed, if_neg (UInt16.not_le.mpr hhigh), if_pos hlow]

/-! ## What the operations keep -/

theorem prg_cpuWrite (u : UxRom) (addr : UInt16) (value : UInt8) :
    (u.cpuWrite addr value).cartridge.prg = u.cartridge.prg := by
  unfold cpuWrite
  split
  · rfl
  · split <;> rfl

end UxRom

/-- The board for a cartridge, by its mapper number. -/
def boardFor (c : Cartridge) : Except Error UxRom :=
  if c.mapper = 0 ∨ c.mapper = 2 then UxRom.ofCartridge c else .error (.unsupportedMapper c.mapper)

end Nes
