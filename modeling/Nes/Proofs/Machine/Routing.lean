import Nes.Proofs.Board.WriteHistory
import Nes.Proofs.Machine.History
import Nes.Proofs.Machine.PageCopy
import Nes.Proofs.Ppu.Fault

/-!
# Where an access leads

A program is written with a map of memory in mind: an access to one place leaves the others alone.
Here that map is a law of the console. Every address belongs to one of six regions, and for each of
them an equation says what a write there leaves (`write_of_*`). A read changes something only at two
registers. `routing_of_accesses` collects this for every state of what the CPU reaches, reachable or
not, and every address.

A byte that the cartridge lacks is no byte at all: `Ppu.fault` records that it was asked for, and
the machine fails. That is the only thing besides the current address and the buffer which a read of
picture memory can change, and with the usual amount of picture memory it never happens.
-/

set_option autoImplicit false

namespace Nes

/-! ## Memories -/

theorem Ram.getElem_cells_write (r : Ram) (addr : UInt16) (value : UInt8) (i : Fin ramSize) :
    (r.write addr value).cells[i] = if i.val = addr.toNat % 0x800 then value else r.cells[i] := by
  show (r.cells.set (index addr).val value (index addr).isLt)[i.val] = _
  rw [Vector.getElem_set]
  exact ite_congr (propext eq_comm) (fun _ => rfl) fun _ => rfl

theorem UxRom.getElem_sram_writeSram (u : UxRom) {addr : UInt16} (value : UInt8)
    (hlow : 0x6000 ≤ addr) (hhigh : addr < 0x8000) (i : Fin sramSize) :
    (u.writeSram addr value).cartridge.sram[i] =
      if i.val = addr.toNat - 0x6000 then value else u.cartridge.sram[i] := by
  show (u.cartridge.sram.set (sramIndex addr).val value (sramIndex addr).isLt)[i.val] = _
  rw [Vector.getElem_set, val_sramIndex hlow hhigh]
  exact ite_congr (propext eq_comm) (fun _ => rfl) fun _ => rfl

/-! ## The picture unit -/

namespace Ppu

variable {μ : Type} [Board μ] (p : Ppu) (board : μ) {addr : UInt16}

/-- Reading the status ends the vertical blank for the CPU. The interrupt line is low then, so no
countdown starts. -/
theorem snd_readRegister_status (h : Register.at? addr = some .status) :
    (p.readRegister board addr).2 =
      { p with
        scroll := { p.scroll with second := false }
        nmi := { p.nmi with occurred := false, previous := false } } := by
  have hseen : p.nmi.setOccurred false = { p.nmi with occurred := false, previous := false } := by
    simp [NmiLatch.setOccurred, NmiLatch.change, NmiLatch.line]
  rw [← hseen, readRegister, h]
  rfl

theorem snd_readRegister_data (h : Register.at? addr = some .data) :
    ∃ v buffer, (p.readRegister board addr).2 =
      { p with
        scroll := { p.scroll with v := v }
        buffer := buffer
        fault := p.fault || p.lacksByte board } := by
  have hread : (p.readRegister board addr).2 = (p.readData board).2 := by
    rw [readRegister, h]
  rw [hread, readData]
  dsimp only
  split <;> exact ⟨_, _, rfl⟩

/-- The other registers can be read without a trace. -/
theorem snd_readRegister_quiet (hstatus : Register.at? addr ≠ some .status)
    (hdata : Register.at? addr ≠ some .data) : (p.readRegister board addr).2 = p := by
  unfold readRegister
  split
  · contradiction
  · rfl
  · contradiction
  · rfl

/-- Writing a register changes nothing on the board but picture memory, and that only through the
register made for it. -/
theorem board_writeRegister (u : UxRom) (addr : UInt16) (value : UInt8) :
    ∃ chr, (p.writeRegister u addr value).2 =
        { u with cartridge := { u.cartridge with chr := chr } } ∧
      (Register.at? addr ≠ some .data → chr = u.cartridge.chr) := by
  unfold writeRegister
  dsimp only
  split
  case h_7 h =>
    -- only a store below the nametables reaches the cartridge
    rw [writeData, Vram.write]
    dsimp only
    split
    · next hpattern =>
        have hstore : Board.ppuWrite u (p.scroll.v % 0x4000) value = u.ppuWrite _ value := rfl
        rw [hstore, UxRom.ppuWrite, if_pos hpattern]
        exact ⟨_, rfl, fun hne => absurd h hne⟩
    · split <;> exact ⟨_, rfl, fun _ => rfl⟩
  all_goals exact ⟨_, rfl, fun _ => rfl⟩

end Ppu

namespace CpuMemory

/-! ## Regions -/

section Registers

variable {μ : Type} [Board μ] (m : CpuMemory μ) {addr addr' : UInt16}

theorem read_of_register (h : isRegister addr = true) :
    m.read addr =
      ((m.ppu.readRegister m.board (registerAddress addr)).1,
        { m with ppu := (m.ppu.readRegister m.board (registerAddress addr)).2 }) := by
  obtain ⟨hlow, hhigh⟩ := of_decide_eq_true h
  rw [read, if_neg (UInt16.not_lt.mpr hlow), if_pos hhigh]

theorem write_of_register (h : isRegister addr = true) (value : UInt8) :
    m.write addr value =
      { m with
        ppu := (m.ppu.writeRegister m.board (registerAddress addr) value).1
        board := (m.ppu.writeRegister m.board (registerAddress addr) value).2 } := by
  obtain ⟨hlow, hhigh⟩ := of_decide_eq_true h
  rw [write, if_neg (UInt16.not_lt.mpr hlow), if_pos hhigh]

theorem at?_eq_data_iff : Register.at? (registerAddress addr) = some .data ↔ addr % 8 = 7 :=
  at?_eq_some_iff rfl

/-- The window repeats its eight registers: an access cannot tell the copies apart. -/
theorem mirrored (h : isRegister addr = true) (h' : isRegister addr' = true)
    (heq : addr % 8 = addr' % 8) :
    m.read addr = m.read addr' ∧ ∀ value, m.write addr value = m.write addr' value := by
  have hregister : registerAddress addr = registerAddress addr' := by
    rw [registerAddress, registerAddress, heq]
  refine ⟨?_, fun value => ?_⟩
  · rw [m.read_of_register h, m.read_of_register h', hregister]
  · rw [m.write_of_register h, m.write_of_register h', hregister]

end Registers

variable (m : CpuMemory UxRom) {addr : UInt16} (value : UInt8)

/-- Reads of all other places leave no trace. -/
theorem snd_read_of_quiet (h : ¬ (isRegister addr = true ∧ (addr % 8 = 2 ∨ addr % 8 = 7))) :
    (m.read addr).2 = m := by
  by_cases hregister : isRegister addr = true
  · have hother : ¬ (addr % 8 = 2 ∨ addr % 8 = 7) := fun h' => h ⟨hregister, h'⟩
    have hkept : (m.ppu.readRegister m.board (registerAddress addr)).2 = m.ppu :=
      m.ppu.snd_readRegister_quiet m.board (fun h' => hother (.inl (at?_eq_status_iff.mp h')))
        fun h' => hother (.inr (at?_eq_data_iff.mp h'))
    rw [m.read_of_register hregister, hkept]
  · apply snd_read_of_not_register
    have hout : ¬ (0x2000 ≤ addr ∧ addr < 0x4000) := fun h' => hregister (decide_eq_true h')
    simp only [UInt16.le_iff_toNat_le, UInt16.lt_iff_toNat_lt] at hout
    have hbounds : (0x2000 : UInt16).toNat = 0x2000 ∧ (0x4000 : UInt16).toNat = 0x4000 := by decide
    omega

theorem write_of_ram (h : addr < 0x2000) :
    m.write addr value = { m with ram := m.ram.write addr value } := by
  rw [write, if_pos h]

/-- Between the registers and save memory only a notice is left. -/
theorem write_of_unanswered (hlow : 0x4000 ≤ addr) (hhigh : addr < 0x6000)
    (hne : addr ≠ oamDmaAddress) :
    ∃ journal, m.write addr value = { m with journal := journal } := by
  have hram : ¬ addr < 0x2000 := UInt16.not_lt.mpr (UInt16.le_trans (by decide) hlow)
  rw [write, if_neg hram, if_neg (UInt16.not_lt.mpr hlow), if_neg hne, if_pos hhigh]
  exact m.note_shape _ _

/-- From save memory on the board answers. -/
theorem write_of_board (h : 0x6000 ≤ addr) :
    m.write addr value = { m with board := m.board.cpuWrite addr value } := by
  have hnot : ∀ bound : UInt16, bound ≤ 0x6000 → ¬ addr < bound := fun bound hbound =>
    UInt16.not_lt.mpr (UInt16.le_trans hbound h)
  have hdma : addr ≠ oamDmaAddress := by
    rintro rfl
    revert h
    decide
  rw [write, if_neg (hnot 0x2000 (by decide)), if_neg (hnot 0x4000 (by decide)), if_neg hdma,
    if_neg (hnot 0x6000 (by decide))]
  rfl

end CpuMemory

/-! ## The map of memory -/

open CpuMemory (isRegister) in
/-- What an access can change, by where it leads. -/
structure Routing (m : CpuMemory UxRom) : Prop where
  /-- Reads leave no trace, but for two registers. -/
  quiet : ∀ addr, ¬ (isRegister addr = true ∧ (addr % 8 = 2 ∨ addr % 8 = 7)) → (m.read addr).2 = m
  /-- Reading the status resets the toggle, and clears the flag of the vertical blank and the level
  at which the interrupt line was last seen. -/
  status : ∀ addr, isRegister addr = true → addr % 8 = 2 →
    (m.read addr).2 =
      { m with
        ppu :=
          { m.ppu with
            scroll := { m.ppu.scroll with second := false }
            nmi := { m.ppu.nmi with occurred := false, previous := false } } }
  /-- Reading picture memory moves the current address and fills the buffer. -/
  data : ∀ addr, isRegister addr = true → addr % 8 = 7 → ∃ v buffer,
    (m.read addr).2 =
      { m with
        ppu :=
          { m.ppu with
            scroll := { m.ppu.scroll with v := v }
            buffer := buffer
            fault := m.ppu.fault || m.ppu.lacksByte m.board } }
  /-- With the usual amount of picture memory no byte is lacking. -/
  found : 0x2000 ≤ m.board.cartridge.chr.size → m.ppu.lacksByte m.board = false
  /-- A write to work RAM changes one cell. -/
  ram : ∀ addr value, addr < 0x2000 → ∃ ram, m.write addr value = { m with ram := ram } ∧
    ∀ i : Fin ramSize,
      ram.cells[i] = if i.val = addr.toNat % 0x800 then value else m.ram.cells[i]
  /-- All addresses of the cell then read it. -/
  repeated : ∀ addr addr' value, addr < 0x2000 → addr' < 0x2000 →
    addr'.toNat % 0x800 = addr.toNat % 0x800 → ((m.write addr value).read addr').1 = value
  /-- A write to a register reaches nothing but the picture unit and its memory, and that memory
  only through one of the registers. -/
  register : ∀ addr value, isRegister addr = true → ∃ ppu chr,
    m.write addr value =
        { m with
          ppu := ppu
          board := { m.board with cartridge := { m.board.cartridge with chr := chr } } } ∧
      (addr % 8 ≠ 7 → chr = m.board.cartridge.chr)
  /-- Writes that nothing answers are lost, with a notice. -/
  unanswered : ∀ addr value, 0x4000 ≤ addr → addr < 0x6000 → addr ≠ 0x4014 → ∃ journal,
    m.write addr value = { m with journal := journal }
  /-- A write to save memory changes one byte of it. -/
  saved : ∀ addr value, 0x6000 ≤ addr → addr < 0x8000 → ∃ sram,
    m.write addr value =
        { m with board := { m.board with cartridge := { m.board.cartridge with sram := sram } } } ∧
      ∀ i : Fin sramSize,
        sram[i] = if i.val = addr.toNat - 0x6000 then value else m.board.cartridge.sram[i]
  /-- A write to program memory selects a bank. -/
  program : ∀ addr value, 0x8000 ≤ addr →
    m.write addr value =
      { m with
        board :=
          { m.board with
            bank := value.toNat % m.board.bankCount
            bank_lt := Nat.mod_lt _ m.board.bankCount_pos } }
  /-- Accesses to the same register at different addresses are the same. -/
  mirrored : ∀ addr addr', isRegister addr = true → isRegister addr' = true →
    addr % 8 = addr' % 8 →
    m.read addr = m.read addr' ∧ ∀ value, m.write addr value = m.write addr' value

/-- **The map of memory**, for every state of what the CPU reaches. -/
theorem routing_of_accesses (m : CpuMemory UxRom) : Routing m := by
  constructor
  case quiet => exact fun addr => m.snd_read_of_quiet
  case status =>
    intro addr hregister hstatus
    rw [m.read_of_register hregister,
      m.ppu.snd_readRegister_status m.board (CpuMemory.at?_eq_status_iff.mpr hstatus)]
  case data =>
    intro addr hregister hdata
    obtain ⟨v, buffer, hread⟩ :=
      m.ppu.snd_readRegister_data m.board (CpuMemory.at?_eq_data_iff.mpr hdata)
    refine ⟨v, buffer, ?_⟩
    rw [m.read_of_register hregister, hread]
  case found => exact fun h => (UxRom.completeChr h).lacksByte_eq_false m.ppu
  case ram =>
    intro addr value hram
    exact ⟨_, m.write_of_ram value hram, m.ram.getElem_cells_write addr value⟩
  case repeated =>
    intro addr addr' value hram hram' heq
    rw [m.write_of_ram value hram, CpuMemory.read, if_pos hram']
    exact m.ram.read_write_of_eq value (Fin.ext heq.symm)
  case register =>
    intro addr value hregister
    obtain ⟨chr, hboard, hother⟩ :=
      m.ppu.board_writeRegister m.board (CpuMemory.registerAddress addr) value
    have hwrite := m.write_of_register hregister value
    rw [hboard] at hwrite
    exact ⟨_, chr, hwrite, fun hne => hother fun h => hne (CpuMemory.at?_eq_data_iff.mp h)⟩
  case unanswered => exact fun addr value => m.write_of_unanswered value
  case saved =>
    intro addr value hlow hhigh
    have hstore : m.board.cpuWrite addr value = m.board.writeSram addr value := by
      rw [UxRom.cpuWrite, if_neg (UInt16.not_le.mpr hhigh), if_pos hlow]
    have hwrite := m.write_of_board value hlow
    rw [hstore] at hwrite
    exact ⟨_, hwrite, m.board.getElem_sram_writeSram value hlow hhigh⟩
  case program =>
    intro addr value hprogram
    rw [m.write_of_board value (UInt16.le_trans (by decide) hprogram), UxRom.cpuWrite,
      if_pos hprogram]
    rfl
  case mirrored => exact fun addr addr' => m.mirrored

end Nes
