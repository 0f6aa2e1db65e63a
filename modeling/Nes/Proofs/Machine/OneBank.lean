import Nes.Proofs.Machine.Lockstep
import Nes.Proofs.Machine.Timing

/-!
# Cartridges of one bank

A bank of program memory given byte by byte, and the console it comes up in. The bank fills both
windows, so a byte at 8000 or above is found by its offset in the bank. The smallest program is a
bank of instructions without effect; another one starts with an access to a given address.
-/

set_option autoImplicit false

namespace Nes

/-- A cartridge with one bank of program memory for the simplest board. -/
def Cartridge.ofBank (program : Fin prgBankSize → UInt8) (chr : Array UInt8) : Cartridge :=
  .ofParts (Array.ofFn program) chr 0 .horizontal false

theorem Cartridge.prg_ofBank (program : Fin prgBankSize → UInt8) (chr : Array UInt8) :
    (Cartridge.ofBank program chr).prg = Array.ofFn program := by
  rw [ofBank, prg_ofParts]

/-- Without a picture image of its own, a cartridge has all of picture memory. -/
theorem Cartridge.le_size_chr_ofBank (program : Fin prgBankSize → UInt8) :
    0x2000 ≤ (Cartridge.ofBank program #[]).chr.size := by
  rw [ofBank, chr_ofParts_empty, Array.size_replicate]
  decide

/-- The board of a cartridge with one bank. -/
def UxRom.ofBank (program : Fin prgBankSize → UInt8) (chr : Array UInt8) : UxRom where
  cartridge := .ofBank program chr
  bank := 0
  bank_lt := by
    rw [Cartridge.prg_ofBank, Array.size_ofFn]
    decide

namespace UxRom

variable {u : UxRom} {program : Fin prgBankSize → UInt8}

theorem bankCount_of_prg (h : u.cartridge.prg = Array.ofFn program) : u.bankCount = 1 := by
  rw [bankCount, h, Array.size_ofFn]
  exact Nat.div_self (by decide)

/-- Both windows show the one bank. -/
theorem cpuByte_of_prg (hprg : u.cartridge.prg = Array.ofFn program) {addr : UInt16}
    (h : 0x8000 ≤ addr) :
    u.cpuByte addr = program ⟨addr.toNat % prgBankSize, Nat.mod_lt _ (by decide)⟩ := by
  have hone := bankCount_of_prg hprg
  have hbyte : ∀ (bank : Nat) (hb : bank < u.cartridge.prg.size / prgBankSize)
      (ho : addr.toNat % prgBankSize < prgBankSize),
      prgByte u.cartridge bank (addr.toNat % prgBankSize) hb ho =
        program ⟨addr.toNat % prgBankSize, ho⟩ := by
    intro bank hb ho
    have hbank : bank = 0 := Nat.lt_one_iff.mp (Nat.lt_of_lt_of_eq hb hone)
    have hat : u.cartridge.prg[bank * prgBankSize + addr.toNat % prgBankSize]? =
        some (program ⟨addr.toNat % prgBankSize, ho⟩) := by
      rw [hprg, hbank, Nat.zero_mul, Nat.zero_add, Array.getElem?_ofFn, dif_pos ho]
    exact (Array.getElem?_eq_some_iff.mp hat).2
  unfold cpuByte
  split
  · exact hbyte _ _ _
  · exact hbyte _ _ _

/-- What the CPU reads there is the byte of the program. -/
theorem read_of_prg {m : CpuMemory UxRom} (hprg : m.board.cartridge.prg = Array.ofFn program)
    {addr : UInt16} (h : 0x8000 ≤ addr) :
    m.read addr = (program ⟨addr.toNat % prgBankSize, Nat.mod_lt _ (by decide)⟩, m) := by
  rw [read_eq_cpuByte m (UInt16.le_trans (by decide) h), cpuByte_of_prg hprg h]

end UxRom

/-- A reset goes to the address that the end of the program names. -/
theorem Machine.pc_reset_of_prg {program : Fin prgBankSize → UInt8} {m : Console}
    (hprg : m.board.cartridge.prg = Array.ofFn program) :
    m.reset.cpu.pc = wordOf (program ⟨0x3FFC, by decide⟩) (program ⟨0x3FFD, by decide⟩) := by
  have hlow : resetVector.toNat % prgBankSize = 0x3FFC := by decide
  have hhigh : (resetVector + 1).toNat % prgBankSize = 0x3FFD := by decide
  have hreset : m.board.reset.cartridge.prg = Array.ofFn program := hprg
  obtain ⟨_, h⟩ := m.reset_shape
  rw [h]
  show wordOf (m.board.reset.cpuByte resetVector) (m.board.reset.cpuByte (resetVector + 1)) = _
  simp only [UxRom.cpuByte_of_prg hreset (show 0x8000 ≤ resetVector by decide),
    UxRom.cpuByte_of_prg hreset (show 0x8000 ≤ resetVector + 1 by decide), hlow, hhigh]

/-- A cartridge with one bank comes up, at the address that the end of its program names. -/
theorem Console.ofCartridge_ofBank (program : Fin prgBankSize → UInt8) (chr : Array UInt8)
    (journal : Journal) :
    ∃ m, Console.ofCartridge (.ofBank program chr) journal = .ok m ∧
      m.board.cartridge = .ofBank program chr ∧
      m.cpu.pc = wordOf (program ⟨0x3FFC, by decide⟩) (program ⟨0x3FFD, by decide⟩) := by
  let m : Console := { board := UxRom.ofBank program chr, journal }
  have hprg : m.board.cartridge.prg = Array.ofFn program := Cartridge.prg_ofBank program chr
  exact ⟨m.reset, Console.ofCartridge_eq_ok (.inl rfl) m.board.bank_lt journal,
    m.cartridge_reset, Machine.pc_reset_of_prg hprg⟩

/-! ## A bank of instructions without effect -/

/-- The program that does nothing. -/
def idleProgram (_ : Fin prgBankSize) : UInt8 := 0xEA

namespace Wired

variable {s : Wired (CpuMemory UxRom)}

theorem fetch_idleProgram (hprg : s.bus.board.cartridge.prg = Array.ofFn idleProgram)
    (hpc : 0x8000 ≤ s.cpu.pc) : s.fetch = (⟨0xEA, ⟨0, false⟩, s.cpu.pc + 1⟩, s) := by
  have hbyte : s.read s.cpu.pc = (0xEA, s) := by
    show ((s.bus.read s.cpu.pc).1, { s with bus := (s.bus.read s.cpu.pc).2 }) = (0xEA, s)
    rw [UxRom.read_of_prg hprg hpc]
    rfl
  have hmode : (Opcode.ofByte 0xEA).mode = .implied := by decide
  have hsize : UInt16.ofNat (Opcode.ofByte 0xEA).size = 1 := by decide
  rw [fetch, hbyte]
  dsimp only
  rw [hmode, hsize]
  rfl

theorem ppu_runInstruction_idleProgram
    (hprg : s.bus.board.cartridge.prg = Array.ofFn idleProgram)
    (hinterrupt : s.cpu.interrupt = .none) (hpc : 0x8000 ≤ s.cpu.pc) :
    s.runInstruction.bus.ppu = s.bus.ppu := by
  have hserve : s.serveInterrupt = s := by
    unfold serveInterrupt
    rw [hinterrupt]
  have hidle : (Opcode.ofByte 0xEA).mnemonic.effect = .idle := by
    have hnop : (Opcode.ofByte 0xEA).mnemonic = .nop := by decide
    rw [hnop]
    rfl
  rw [runInstruction, hserve, fetch_idleProgram hprg hpc, Instruction.opcode, hidle,
    chargeOamDma]
  dsimp only
  split <;> rfl

end Wired

/-- The first step after a reset leaves the picture unit alone. -/
theorem Machine.ppu_stepCpu_idleProgram {m : Console}
    (hprg : m.board.cartridge.prg = Array.ofFn idleProgram) : m.reset.stepCpu.2.ppu = m.ppu := by
  have htiming := m.timing_reset
  have hstall : m.reset.cpu.stall = 0 := congrArg Cpu.Timing.stall htiming
  have hinterrupt : m.reset.cpu.interrupt = .none := congrArg Cpu.Timing.interrupt htiming
  have hpc : 0x8000 ≤ m.reset.cpu.pc := by
    rw [pc_reset_of_prg hprg]
    decide
  have hprg' : m.reset.board.cartridge.prg = Array.ofFn idleProgram := by
    rw [cartridge_reset, hprg]
  obtain ⟨_, hj⟩ := m.reset.traceInstruction_shape
  show m.reset.traceInstruction.wired.step.2.bus.ppu = m.ppu
  rw [hj, (Wired.step_of_not_stalled (by exact hstall)).2,
    Wired.ppu_runInstruction_idleProgram (by exact hprg') (by exact hinterrupt) (by exact hpc)]
  exact m.ppu_reset

/-! ## A bank with one access -/

/-- The program whose first instruction has the given opcode and address. It starts at 8000. -/
def accessProgram (byte low high : UInt8) (i : Fin prgBankSize) : UInt8 :=
  if i.val = 0 then byte else if i.val = 1 then low else if i.val = 2 then high
  else if i.val = 0x3FFD then 0x80 else 0

/-- The instruction is read off the program. -/
theorem Wired.fetch_accessProgram {byte low high : UInt8} {s : Wired (CpuMemory UxRom)}
    (hmode : (Opcode.ofByte byte).mode = .absolute) (hsize : (Opcode.ofByte byte).size = 3)
    (hprg : s.bus.board.cartridge.prg = Array.ofFn (accessProgram byte low high))
    (hpc : s.cpu.pc = 0x8000) : s.fetch = (⟨byte, ⟨wordOf low high, false⟩, 0x8003⟩, s) := by
  have hopcode : s.bus.read 0x8000 = (byte, s.bus) := UxRom.read_of_prg hprg (by decide)
  have hlow : s.bus.read 0x8001 = (low, s.bus) := UxRom.read_of_prg hprg (by decide)
  have hhigh : s.bus.read 0x8002 = (high, s.bus) := UxRom.read_of_prg hprg (by decide)
  have hbyte : s.read s.cpu.pc = (byte, s) := by
    show ((s.bus.read s.cpu.pc).1, { s with bus := (s.bus.read s.cpu.pc).2 }) = (byte, s)
    rw [hpc, hopcode]
  have hword : Bus.readWord s.bus 0x8001 = (wordOf low high, s.bus) := by
    show (wordOf (s.bus.read 0x8001).1 ((s.bus.read 0x8001).2.read 0x8002).1,
      ((s.bus.read 0x8001).2.read 0x8002).2) = (wordOf low high, s.bus)
    rw [hlow]
    dsimp only
    rw [hhigh]
  have hfind : Operand.find s.cpu s.bus .absolute = (⟨wordOf low high, false⟩, s.bus) := by
    simp only [Operand.find, hpc]
    rw [show (0x8000 + 1 : UInt16) = 0x8001 from rfl, hword]
    rfl
  have hnext : s.cpu.pc + UInt16.ofNat 3 = 0x8003 := by
    rw [hpc]
    decide
  rw [Wired.fetch, hbyte]
  dsimp only
  rw [hmode, hsize, hfind, hnext]

/-- Its instruction lies in the program memory. -/
theorem Wired.next_accessProgram {byte low high : UInt8} {s : Wired (CpuMemory UxRom)}
    (hmode : (Opcode.ofByte byte).mode = .absolute) (hsize : (Opcode.ofByte byte).size = 3)
    (hprg : s.bus.board.cartridge.prg = Array.ofFn (accessProgram byte low high))
    (hinterrupt : s.cpu.interrupt = .none) (hpc : s.cpu.pc = 0x8000) :
    s.next = ⟨byte, ⟨wordOf low high, false⟩, 0x8003⟩ := by
  have hserve : s.serveInterrupt = s := by
    rw [serveInterrupt_eq, hinterrupt]
    rfl
  rw [next, hserve, fetch_accessProgram hmode hsize hprg hpc]

/-- A console with such a program starts with its access. -/
theorem Console.ofCartridge_accessProgram (byte low high : UInt8)
    (hmode : (Opcode.ofByte byte).mode = .absolute) (hsize : (Opcode.ofByte byte).size = 3)
    (chr : Array UInt8) :
    ∃ m, Console.ofCartridge (.ofBank (accessProgram byte low high) chr) {} = .ok m ∧
      m.board.cartridge = .ofBank (accessProgram byte low high) chr ∧
      m.cpu.timing = ⟨0, 0, .none⟩ ∧ m.cpu.pc = 0x8000 ∧
      m.wired.next = ⟨byte, ⟨wordOf low high, false⟩, 0x8003⟩ := by
  obtain ⟨m, hm, hboard, hpc⟩ := Console.ofCartridge_ofBank (accessProgram byte low high) chr {}
  have htiming := Machine.timing_ofCartridge hm
  have hstart : m.cpu.pc = 0x8000 := by
    rw [hpc]
    show wordOf 0 0x80 = 0x8000
    decide
  have hprg : m.wired.bus.board.cartridge.prg = Array.ofFn (accessProgram byte low high) := by
    show m.board.cartridge.prg = _
    rw [hboard, Cartridge.prg_ofBank]
  exact ⟨m, hm, hboard, htiming, hstart, Wired.next_accessProgram hmode hsize hprg
    (congrArg Cpu.Timing.interrupt htiming) hstart⟩

end Nes
