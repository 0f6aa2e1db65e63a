import Nes.Proofs.Board.WriteHistory
import Nes.Proofs.Cartridge.ImageFormat
import Nes.Proofs.Machine.Actions
import Nes.Proofs.Machine.Rom

/-!
# Bring-up and reset

An image becomes a console in three stages: it is read, a board is found for its cartridge, and the
board asks for a whole bank of program memory. The first stage that fails gives the error.

A reset leads to the address that the end of program memory names, from whatever state: the vector
lies in the window that always shows the last bank, program memory never changes (`prg_actAll`), and
reading the vector has no effect on anything (`Machine.reset_shape`).
-/

set_option autoImplicit false

namespace Nes

/-! ## The vector -/

/-- Of a program memory of whole banks, the second window shows the end. -/
theorem UxRom.getElem?_prg_of_end {u : UxRom} (h : prgBankSize ∣ u.cartridge.prg.size)
    {addr : UInt16} (haddr : 0xC000 ≤ addr) :
    u.cartridge.prg[u.cartridge.prg.size - (0x10000 - addr.toNat)]? = some (u.cpuByte addr) := by
  have hsize : u.bankCount * prgBankSize = u.cartridge.prg.size := Nat.div_mul_cancel h
  have hpos := u.bankCount_pos
  have hle : 0xC000 ≤ addr.toNat := UInt16.le_iff_toNat_le.mp haddr
  have hlt := addr.toNat_lt
  -- the last bank ends where program memory and the address space end
  have hindex : u.cartridge.prg.size - (0x10000 - addr.toNat) =
      (u.bankCount - 1) * prgBankSize + (addr.toNat - 0xC000) := by
    obtain ⟨n, hn⟩ := Nat.exists_eq_succ_of_ne_zero (Nat.ne_of_gt hpos)
    rw [← hsize, hn]
    simp only [prgBankSize, Nat.succ_eq_add_one, Nat.add_sub_cancel]
    omega
  rw [hindex]
  exact u.getElem?_prg_of_fixed haddr

/-! ## Resets -/

/-- A console as a reset leaves it: at the address that the last bytes of its program memory name,
with the first bank selected. -/
structure Console.AtReset (prg : Array UInt8) (m : Console) : Prop where
  pc : ∃ low high, prg[prg.size - 4]? = some low ∧ prg[prg.size - 3]? = some high ∧
    m.cpu.pc.toNat = low.toNat + 256 * high.toNat
  sp : m.cpu.sp = 0xFD
  p : m.cpu.p = 0x24
  interrupt : m.cpu.interrupt = .none
  stall : m.cpu.stall = 0
  bank : m.board.bank = 0

/-- What a reset leaves alone: the registers A, X and Y, the cycle counter, work RAM, all that is on
the cartridge and the whole picture unit. -/
structure Console.KeptByReset (m m' : Console) : Prop where
  a : m'.cpu.a = m.cpu.a
  x : m'.cpu.x = m.cpu.x
  y : m'.cpu.y = m.cpu.y
  cycles : m'.cpu.cycles = m.cpu.cycles
  ram : m'.ram = m.ram
  cartridge : m'.board.cartridge = m.board.cartridge
  ppu : m'.ppu = m.ppu

namespace Machine

theorem keptByReset (m : Console) : Console.KeptByReset m m.reset := by
  obtain ⟨_, h⟩ := m.reset_shape
  rw [h]
  constructor
  all_goals rfl

theorem atReset (m : Console) (h : prgBankSize ∣ m.board.cartridge.prg.size) :
    Console.AtReset m.board.cartridge.prg m.reset := by
  obtain ⟨_, hreset⟩ := m.reset_shape
  rw [hreset]
  constructor
  case pc =>
    have hbank : prgBankSize ∣ m.board.reset.cartridge.prg.size := h
    have hlow : (0xC000 : UInt16) ≤ resetVector := by decide
    have hhigh : (0xC000 : UInt16) ≤ resetVector + 1 := by decide
    exact ⟨_, _, UxRom.getElem?_prg_of_end hbank hlow, UxRom.getElem?_prg_of_end hbank hhigh,
      toNat_wordOf _ _⟩
  all_goals rfl

/-- Program memory stays whatever happens to a console. -/
theorem prg_act (m : Console) (a : Action) :
    (m.act a).board.cartridge.prg = m.board.cartridge.prg := by
  cases a with
  | stepCpu => exact m.stored_stepCpu.prg
  | dot => exact congrArg (fun u => u.cartridge.prg) m.board_dot_console
  | read addr => exact (m.memory.stored_read addr).prg
  | write addr value => exact (m.memory.stored_write addr value).prg
  | reset => exact congrArg Cartridge.prg m.cartridge_reset

theorem prg_actAll (m : Console) (as : List Action) :
    (m.actAll as).board.cartridge.prg = m.board.cartridge.prg :=
  actAll_invariant (P := fun m' => m'.board.cartridge.prg = m.board.cartridge.prg) rfl
    (fun m' a h => (m'.prg_act a).trans h) as

end Machine

/-! ## Bring-up -/

/-- The program memory of an image is made of whole banks. -/
theorem INes.prgBankSize_dvd_size {image : Array UInt8} {c : Cartridge}
    (h : INes.parse image = .ok c) : prgBankSize ∣ c.prg.size := by
  obtain ⟨hmet, rfl⟩ := INes.parse_eq_ok_iff.mp h
  obtain ⟨-, -, hsize⟩ := (INes.firstUnmet_eq_none_iff image).mp hmet
  obtain ⟨-, -, hchr⟩ := INes.sections_ordered image
  have hprg : (INes.contents image).prg.size = prgBankSize * (image.getD 4 0).toNat := by
    show (image.extract (INes.prgStart image) (INes.prgEnd image)).size = _
    rw [Array.size_extract, Nat.min_eq_left (Nat.le_trans hchr hsize), INes.prgEnd,
      Nat.add_sub_cancel_left]
    rfl
  exact ⟨_, hprg⟩

namespace Console

theorem ofImage_eq (image : Array UInt8) (journal : Journal) :
    ofImage image journal =
      (INes.parse image).bind fun c => ofCartridge c (INes.load image journal).1 := by
  rw [ofImage, INes.snd_load]

theorem ofCartridge_of_unknown {c : Cartridge} (h : ¬ (c.mapper = 0 ∨ c.mapper = 2))
    (journal : Journal) : ofCartridge c journal = .error (.unsupportedMapper c.mapper) := by
  simp [ofCartridge, boardFor, h, bind, Except.bind]

theorem ofCartridge_of_noBank {c : Cartridge} (hm : c.mapper = 0 ∨ c.mapper = 2)
    (hp : ¬ 0 < c.prg.size / prgBankSize) (journal : Journal) :
    ofCartridge c journal = .error .noPrgBank := by
  simp [ofCartridge, boardFor, UxRom.ofCartridge, hm, hp, bind, Except.bind]

/-- The console that an image gives, and what the image has to be for it. -/
theorem ofImage_eq_ok_iff {image : Array UInt8} {journal : Journal} {m : Console} :
    ofImage image journal = .ok m ↔
      ∃ c, INes.parse image = .ok c ∧ (c.mapper = 0 ∨ c.mapper = 2) ∧
        ∃ hp : 0 < c.prg.size / prgBankSize,
          m = Machine.reset
            { board := ⟨c, 0, hp⟩, journal := (INes.load image journal).1 } := by
  rw [ofImage_eq]
  cases hparse : INes.parse image with
  | error e => simp [Except.bind]
  | ok c =>
      simp only [Except.bind, Except.ok.injEq, exists_eq_left']
      by_cases hm : c.mapper = 0 ∨ c.mapper = 2
      · by_cases hp : 0 < c.prg.size / prgBankSize
        · simp [ofCartridge_eq_ok hm hp, hm, hp, eq_comm]
        · simp [ofCartridge_of_noBank hm hp, hp]
      · simp [ofCartridge_of_unknown hm, hm]

/-- How a console comes up from an image, and what a reset does to it at any time. -/
structure BringUp (image : Array UInt8) (journal : Journal) : Prop where
  /-- An image gives a console if it can be read, its board is known and it has a bank. -/
  succeeds : (∃ m, ofImage image journal = .ok m) ↔
    ∃ c, INes.parse image = .ok c ∧ (c.mapper = 0 ∨ c.mapper = 2) ∧ prgBankSize ≤ c.prg.size
  /-- What is wrong with the image comes first. -/
  unreadable : ∀ e, INes.parse image = .error e → ofImage image journal = .error e
  /-- The board comes next, whatever program memory there is. -/
  unknown : ∀ c, INes.parse image = .ok c → c.mapper ≠ 0 → c.mapper ≠ 2 →
    ofImage image journal = .error (.unsupportedMapper c.mapper)
  /-- Then the bank is asked for. -/
  noBank : ∀ c, INes.parse image = .ok c → c.mapper = 0 ∨ c.mapper = 2 →
    c.prg.size < prgBankSize → ofImage image journal = .error .noPrgBank
  /-- The console starts as a reset leaves it. -/
  starts : ∀ c m, INes.parse image = .ok c → ofImage image journal = .ok m → AtReset c.prg m
  /-- Whatever has happened to the console, a reset leads there again. -/
  resets : ∀ c m, INes.parse image = .ok c → ofImage image journal = .ok m →
    ∀ as : List Action, AtReset c.prg (m.actAll as).reset ∧
      KeptByReset (m.actAll as) (m.actAll as).reset

/-- The cartridge on the board is the one that was read. -/
theorem cartridge_ofImage {image : Array UInt8} {journal : Journal} {c : Cartridge} {m : Console}
    (hparse : INes.parse image = .ok c) (hm : ofImage image journal = .ok m) :
    m.board.cartridge = c := by
  obtain ⟨c', hparse', -, hp, rfl⟩ := ofImage_eq_ok_iff.mp hm
  obtain rfl : c = c' := Except.ok.inj (hparse.symm.trans hparse')
  exact Machine.cartridge_reset _

/-- **Bring-up and reset.** Which images give a console and how the others are refused, and that a
reset leads to the same start from every state of the console. -/
theorem bringUp (image : Array UInt8) (journal : Journal) : BringUp image journal := by
  have hbank : ∀ c : Cartridge, 0 < c.prg.size / prgBankSize ↔ prgBankSize ≤ c.prg.size :=
    fun c => Nat.div_pos_iff.trans (and_iff_right (by decide))
  constructor
  case succeeds =>
    constructor
    · rintro ⟨m, hm⟩
      obtain ⟨c, hparse, hmapper, hp, -⟩ := ofImage_eq_ok_iff.mp hm
      exact ⟨c, hparse, hmapper, (hbank c).mp hp⟩
    · rintro ⟨c, hparse, hmapper, hsize⟩
      exact ⟨_, ofImage_eq_ok_iff.mpr ⟨c, hparse, hmapper, (hbank c).mpr hsize, rfl⟩⟩
  case unreadable =>
    intro e hparse
    rw [ofImage_eq, hparse]
    rfl
  case unknown =>
    intro c hparse h0 h2
    rw [ofImage_eq, hparse]
    exact ofCartridge_of_unknown (fun h => h.elim h0 h2) _
  case noBank =>
    intro c hparse hmapper hsize
    rw [ofImage_eq, hparse]
    exact ofCartridge_of_noBank hmapper (fun hp => Nat.not_le.mpr hsize ((hbank c).mp hp)) _
  case starts =>
    intro c m hparse hm
    obtain ⟨c', hparse', -, hp, rfl⟩ := ofImage_eq_ok_iff.mp hm
    obtain rfl : c = c' := Except.ok.inj (hparse.symm.trans hparse')
    -- bringing a console up ends with a reset, of which nothing need be known beforehand
    let m : Console := { board := ⟨c, 0, hp⟩, journal := (INes.load image journal).1 }
    exact m.atReset (INes.prgBankSize_dvd_size hparse)
  case resets =>
    intro c m hparse hm as
    have hprg : (m.actAll as).board.cartridge.prg = c.prg := by
      rw [Machine.prg_actAll, cartridge_ofImage hparse hm]
    have hreset := (m.actAll as).atReset (hprg ▸ INes.prgBankSize_dvd_size hparse)
    rw [hprg] at hreset
    exact ⟨hreset, (m.actAll as).keptByReset⟩

end Console

end Nes
