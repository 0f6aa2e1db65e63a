import Nes.Board.UxRom
import Nes.Ppu.Vram
import Nes.Proofs.Checked.Arithmetic
import Nes.Proofs.Ppu.Fault

/-!
# Checked accesses to the board and to picture memory

The accesses that the board and picture memory answer, with every index and every sum checked. The
board finds its bytes by offsets into windows, and picture memory folds addresses with a table of
tables. All of these have their plain result, on a board with all bytes of picture memory.
-/

set_option autoImplicit false

namespace Nes

/-! ## The board -/

namespace UxRom

/-- A byte of program memory, by bank and offset. -/
def prgByteChecked (u : UxRom) (bank offset : Nat) : Option UInt8 :=
  u.cartridge.prg[bank * prgBankSize + offset]?

/-- The byte the CPU sees at an address. -/
def cpuByteChecked (u : UxRom) (addr : UInt16) : Option UInt8 :=
  if 0xC000 ≤ addr then do
    let bank ← Checked.sub u.bankCount 1
    let offset ← Checked.sub addr.toNat 0xC000
    u.prgByteChecked bank offset
  else if 0x8000 ≤ addr then do
    let offset ← Checked.sub addr.toNat 0x8000
    u.prgByteChecked u.bank offset
  else if 0x6000 ≤ addr then do
    let offset ← Checked.sub addr.toNat 0x6000
    u.cartridge.sram[offset]?
  else some 0

theorem prgByteChecked_eq (u : UxRom) {bank offset : Nat} (hb : bank < u.bankCount)
    (ho : offset < prgBankSize) :
    u.prgByteChecked bank offset = some (prgByte u.cartridge bank offset hb ho) :=
  Array.getElem?_eq_getElem (index_lt_size hb ho)

/-- The offset into a window of whole banks is the address without the banks below. -/
theorem offset_eq {addr : UInt16} {start size : Nat} (h : start ≤ addr.toNat)
    (hend : addr.toNat < start + size) (hstart : start % size = 0) :
    addr.toNat - start = addr.toNat % size := by
  have hdiv := Nat.div_add_mod start size
  rw [hstart, Nat.add_zero] at hdiv
  have hsplit : addr.toNat = addr.toNat - start + size * (start / size) := by omega
  have hlt : addr.toNat - start < size := by omega
  conv => rhs; rw [hsplit]
  rw [Nat.add_mul_mod_self_left, Nat.mod_eq_of_lt hlt]

/-- **The board has every byte that the CPU can ask for.** -/
theorem cpuByteChecked_eq (u : UxRom) (addr : UInt16) :
    u.cpuByteChecked addr = some (u.cpuByte addr) := by
  have hlt := addr.toNat_lt
  unfold cpuByteChecked cpuByte
  by_cases hhigh : 0xC000 ≤ addr
  · have hle : 0xC000 ≤ addr.toNat := UInt16.le_iff_toNat_le.mp hhigh
    have hoffset : addr.toNat - 0xC000 = addr.toNat % prgBankSize :=
      offset_eq hle (by simp only [prgBankSize]; omega) (by decide)
    rw [if_pos hhigh, if_pos hhigh, Checked.sub_eq u.bankCount_pos, Checked.sub_eq hle, hoffset]
    exact u.prgByteChecked_eq _ _
  · rw [if_neg hhigh, if_neg hhigh]
    have hlt' : addr.toNat < 0xC000 := UInt16.lt_iff_toNat_lt.mp (UInt16.not_le.mp hhigh)
    by_cases hlow : 0x8000 ≤ addr
    · have hle : 0x8000 ≤ addr.toNat := UInt16.le_iff_toNat_le.mp hlow
      have hoffset : addr.toNat - 0x8000 = addr.toNat % prgBankSize :=
        offset_eq hle (by simp only [prgBankSize]; omega) (by decide)
      rw [if_pos hlow, if_pos hlow, Checked.sub_eq hle, hoffset]
      exact u.prgByteChecked_eq _ _
    · rw [if_neg hlow, if_neg hlow]
      have hlt'' : addr.toNat < 0x8000 := UInt16.lt_iff_toNat_lt.mp (UInt16.not_le.mp hlow)
      by_cases hsave : 0x6000 ≤ addr
      · have hle : 0x6000 ≤ addr.toNat := UInt16.le_iff_toNat_le.mp hsave
        have hoffset : addr.toNat - 0x6000 = addr.toNat % sramSize :=
          offset_eq hle (by simp only [sramSize]; omega) (by decide)
        rw [if_pos hsave, if_pos hsave, Checked.sub_eq hle, hoffset]
        exact Vector.getElem?_eq_getElem _
      · rw [if_neg hsave, if_neg hsave]

/-- A write by the CPU. -/
def cpuWriteChecked (u : UxRom) (addr : UInt16) (value : UInt8) : Option UxRom :=
  if 0x8000 ≤ addr then do
    let bank ← Checked.mod value.toNat u.bankCount
    if h : bank < u.bankCount then some { u with bank, bank_lt := h } else none
  else if 0x6000 ≤ addr then do
    let offset ← Checked.sub addr.toNat 0x6000
    let sram ← Checked.store u.cartridge.sram offset value
    some { u with cartridge := { u.cartridge with sram } }
  else some u

theorem cpuWriteChecked_eq (u : UxRom) (addr : UInt16) (value : UInt8) :
    u.cpuWriteChecked addr value = some (u.cpuWrite addr value) := by
  unfold cpuWriteChecked cpuWrite
  by_cases hhigh : 0x8000 ≤ addr
  · have hbank : value.toNat % u.bankCount < u.bankCount := Nat.mod_lt _ u.bankCount_pos
    rw [if_pos hhigh, if_pos hhigh, Checked.mod_eq u.bankCount_pos]
    exact dif_pos hbank
  · rw [if_neg hhigh, if_neg hhigh]
    have hlt : addr.toNat < 0x8000 := UInt16.lt_iff_toNat_lt.mp (UInt16.not_le.mp hhigh)
    by_cases hsave : 0x6000 ≤ addr
    · have hle : 0x6000 ≤ addr.toNat := UInt16.le_iff_toNat_le.mp hsave
      have hoffset : addr.toNat - 0x6000 = addr.toNat % sramSize :=
        offset_eq hle (by simp only [sramSize]; omega) (by decide)
      have hlt' : addr.toNat % sramSize < sramSize := (sramIndex addr).isLt
      rw [if_pos hsave, if_pos hsave, Checked.sub_eq hle, hoffset]
      simp only [Option.bind_eq_bind, Option.bind_some]
      rw [Checked.store_eq u.cartridge.sram hlt' value]
      rfl
    · rw [if_neg hsave, if_neg hsave]

/-- A write by the picture unit. -/
def ppuWriteChecked (u : UxRom) (addr : UInt16) (value : UInt8) : Option UxRom :=
  if addr < 0x2000 then
    if h : addr.toNat < u.cartridge.chr.size then
      some { u with
        cartridge := { u.cartridge with chr := u.cartridge.chr.set addr.toNat value h } }
    else none
  else some u

theorem ppuWriteChecked_eq {u : UxRom} (h : 0x2000 ≤ u.cartridge.chr.size) (addr : UInt16)
    (value : UInt8) : u.ppuWriteChecked addr value = some (u.ppuWrite addr value) := by
  unfold ppuWriteChecked ppuWrite
  split
  · next hlow =>
      have hlt : addr.toNat < u.cartridge.chr.size :=
        Nat.lt_of_lt_of_le (UInt16.lt_iff_toNat_lt.mp hlow) h
      rw [dif_pos hlt, Array.setIfInBounds, dif_pos hlt]
  · rfl

end UxRom

/-! ## Picture memory -/

namespace Mirroring

/-- The physical tables behind the logical ones, by layout. -/
def tables : Array (Array Nat) :=
  #[#[0, 0, 1, 1], #[0, 1, 0, 1], #[0, 0, 0, 0], #[1, 1, 1, 1], #[0, 1, 2, 3]]

/-- Folds a nametable address by looking its table up. -/
def foldChecked (m : Mirroring) (addr : UInt16) : Option Nat := do
  let offset := ((addr - 0x2000) % 0x1000).toNat
  let row ← tables[m.toByte.toNat]?
  let table ← row[offset / 0x0400]?
  let start ← Checked.mul 16 table 0x0400
  let base ← Checked.add 16 0x2000 start
  Checked.add 16 base (offset % 0x0400)

theorem tables_eq : ∀ (m : Mirroring) (table : Fin 4), ∃ row, tables[m.toByte.toNat]? = some row ∧
    row[table.val]? = some (m.physicalTable (UInt16.ofNat table)).toNat ∧
    (m.physicalTable (UInt16.ofNat table)).toNat ≤ 3 := by
  intro m
  cases m <;> exact fun table => ⟨_, rfl, by revert table; decide⟩

/-- The lookup finds a table, and the address does not leave its word. -/
theorem foldChecked_eq (m : Mirroring) (addr : UInt16) :
    m.foldChecked addr = some (m.fold addr).toNat := by
  unfold foldChecked fold
  generalize hoffset : (addr - 0x2000) % 0x1000 = offset
  have hlt : offset.toNat < 0x1000 := by
    rw [← hoffset, UInt16.toNat_mod]
    exact Nat.mod_lt _ (by decide)
  have htable : offset / 0x0400 = UInt16.ofNat (offset.toNat / 0x0400) := by
    have hword : offset.toNat / 0x0400 < UInt16.size :=
      Nat.lt_of_le_of_lt (Nat.div_le_self _ _) offset.toNat_lt
    apply UInt16.toNat_inj.mp
    rw [UInt16.toNat_div, UInt16.toNat_ofNat_of_lt' hword]
    rfl
  obtain ⟨row, hrow, hcell, hle⟩ := m.tables_eq ⟨offset.toNat / 0x0400, by omega⟩
  dsimp only at hrow hcell hle ⊢
  rw [htable]
  generalize m.physicalTable (UInt16.ofNat (offset.toNat / 0x0400)) = table at hcell hle ⊢
  have hstart : table.toNat * 0x0400 < 2 ^ 16 := by omega
  have hbase : 0x2000 + table.toNat * 0x0400 < 2 ^ 16 := by omega
  have hend : 0x2000 + table.toNat * 0x0400 + offset.toNat % 0x0400 < 2 ^ 16 := by omega
  simp only [hrow, hcell, Option.bind_eq_bind, Option.bind_some, Checked.mul_eq hstart,
    Checked.add_eq hbase, Checked.add_eq hend, Option.some.injEq]
  simp only [UInt16.toNat_add, UInt16.toNat_mul, UInt16.toNat_mod, UInt16.toNat_ofNat,
    Nat.reducePow, Nat.reduceMod]
  omega

end Mirroring

namespace Vram

/-- Reads a nametable. -/
def readNametableChecked (s : Vram) (m : Mirroring) (addr : UInt16) : Option UInt8 := do
  let a ← m.foldChecked addr
  s.nametable[a % nametableSize]?

/-- Writes a nametable. -/
def writeNametableChecked (s : Vram) (m : Mirroring) (addr : UInt16) (value : UInt8) :
    Option Vram := do
  let a ← m.foldChecked addr
  let nametable ← Checked.store s.nametable (a % nametableSize) value
  some { s with nametable }

/-- The palette entry behind an address. -/
def paletteIndexChecked (addr : UInt16) : Option Nat :=
  let i := addr.toNat % paletteSize
  if 16 ≤ i ∧ i % 4 = 0 then Checked.sub i 16 else some i

/-- Reads a palette entry. -/
def readPaletteChecked (s : Vram) (addr : UInt16) : Option UInt8 := do
  let i ← paletteIndexChecked addr
  s.palette[i]?

/-- Writes a palette entry. -/
def writePaletteChecked (s : Vram) (addr : UInt16) (value : UInt8) : Option Vram := do
  let i ← paletteIndexChecked addr
  let palette ← Checked.store s.palette i value
  some { s with palette }

theorem readNametableChecked_eq (s : Vram) (m : Mirroring) (addr : UInt16) :
    s.readNametableChecked m addr = some (s.readNametable m addr) := by
  rw [readNametableChecked, m.foldChecked_eq]
  exact Vector.getElem?_eq_getElem (nametableIndex m addr).isLt

theorem writeNametableChecked_eq (s : Vram) (m : Mirroring) (addr : UInt16) (value : UInt8) :
    s.writeNametableChecked m addr value = some (s.writeNametable m addr value) := by
  rw [writeNametableChecked, m.foldChecked_eq]
  simp only [Option.bind_eq_bind, Option.bind_some]
  have hlt : (m.fold addr).toNat % nametableSize < nametableSize := (nametableIndex m addr).isLt
  rw [Checked.store_eq s.nametable hlt value]
  rfl

theorem paletteIndexChecked_eq (addr : UInt16) :
    paletteIndexChecked addr = some (paletteIndex addr).val := by
  simp only [paletteIndexChecked, paletteIndex]
  split
  · next h => rw [Checked.sub_eq h.1]
  · rfl

theorem readPaletteChecked_eq (s : Vram) (addr : UInt16) :
    s.readPaletteChecked addr = some (s.readPalette addr) := by
  rw [readPaletteChecked, paletteIndexChecked_eq]
  exact Vector.getElem?_eq_getElem (paletteIndex addr).isLt

theorem writePaletteChecked_eq (s : Vram) (addr : UInt16) (value : UInt8) :
    s.writePaletteChecked addr value = some (s.writePalette addr value) := by
  rw [writePaletteChecked, paletteIndexChecked_eq]
  simp only [Option.bind_eq_bind, Option.bind_some]
  rw [Checked.store_eq s.palette (paletteIndex addr).isLt value]
  rfl

/-- Reads a byte. -/
def readChecked (s : Vram) (u : UxRom) (addr : UInt16) : Option UInt8 :=
  let a := addr % 0x4000
  if a < 0x2000 then u.ppuRead a
  else if a < 0x3F00 then s.readNametableChecked u.cartridge.mirroring a
  else s.readPaletteChecked a

/-- Writes a byte. -/
def writeChecked (s : Vram) (u : UxRom) (addr : UInt16) (value : UInt8) : Option (Vram × UxRom) :=
  let a := addr % 0x4000
  if a < 0x2000 then (u.ppuWriteChecked a value).map fun u => (s, u)
  else if a < 0x3F00 then
    (s.writeNametableChecked u.cartridge.mirroring a value).map fun s => (s, u)
  else (s.writePaletteChecked a value).map fun s => (s, u)

/-- A checked read has a result where a plain read has one. -/
theorem readChecked_eq (s : Vram) (u : UxRom) (addr : UInt16) :
    s.readChecked u addr = s.read u addr := by
  unfold readChecked read
  dsimp only
  rw [readNametableChecked_eq, readPaletteChecked_eq]
  rfl

theorem writeChecked_eq (s : Vram) {u : UxRom} (h : 0x2000 ≤ u.cartridge.chr.size) (addr : UInt16)
    (value : UInt8) : s.writeChecked u addr value = some (s.write u addr value) := by
  unfold writeChecked write
  dsimp only
  rw [UxRom.ppuWriteChecked_eq h, writeNametableChecked_eq, writePaletteChecked_eq]
  split
  · rfl
  · split <;> rfl

end Vram

end Nes
