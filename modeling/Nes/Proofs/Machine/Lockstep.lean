import Nes.Console
import Nes.Proofs.Machine.Metered
import Nes.Proofs.Machine.Trace
import Nes.Proofs.Ppu.Position

/-!
# CPU and picture unit in lockstep

Every cycle of the CPU is three dots of the picture unit and of the board, over any number of steps,
and the number of dots can be read off the position of the beam, up to the dots that odd frames
skip.
-/

set_option autoImplicit false

namespace Nes

variable {μ : Type} [Board μ]

/-! ## Bring-up -/

/-- A reset of the CPU reads its vector through the board. The picture unit does not notice. -/
theorem Machine.ppu_resetCpu (m : Machine μ) : m.resetCpu.ppu = m.ppu := by
  have hlow : ∀ c : CpuMemory μ, (c.read resetVector).2.ppu = c.ppu := fun _ => rfl
  have hhigh : ∀ c : CpuMemory μ, (c.read (resetVector + 1)).2.ppu = c.ppu := fun _ => rfl
  show ((m.memory.read resetVector).2.read (resetVector + 1)).2.ppu = m.ppu
  rw [hhigh, hlow]
  rfl

theorem Machine.ppu_reset (m : Machine μ) : m.reset.ppu = m.ppu := by
  obtain ⟨_, h⟩ := note_shape ({ m with board := Board.reset m.board } : Machine μ).resetCpu .info _
  rw [Machine.reset, h, ppu_resetCpu]

/-- From 6000 on the board answers the CPU, and a read leaves it as it is. -/
theorem UxRom.read_eq_cpuByte (m : CpuMemory UxRom) {addr : UInt16} (h : 0x6000 ≤ addr) :
    m.read addr = (m.board.cpuByte addr, m) := by
  have hlow : ∀ bound : UInt16, bound ≤ 0x6000 → ¬ addr < bound := fun bound hb =>
    UInt16.not_lt.mpr (UInt16.le_trans hb h)
  rw [CpuMemory.read, if_neg (hlow _ (by decide)), if_neg (hlow _ (by decide)),
    if_neg (hlow _ (by decide))]
  rfl

theorem Machine.resetCpu_eq (m : Console) :
    m.resetCpu =
      { m with
        cpu := { m.cpu with
          pc := wordOf (m.board.cpuByte resetVector) (m.board.cpuByte (resetVector + 1))
          sp := 0xFD
          p := Status.reset
          interrupt := .none
          stall := 0 } } := by
  have hlow : m.memory.read resetVector = (m.board.cpuByte resetVector, m.memory) :=
    UxRom.read_eq_cpuByte m.memory (by decide)
  have hhigh : m.memory.read (resetVector + 1) = (m.board.cpuByte (resetVector + 1), m.memory) :=
    UxRom.read_eq_cpuByte m.memory (by decide)
  have hword : m.wired.readWord resetVector =
      (wordOf (m.board.cpuByte resetVector) (m.board.cpuByte (resetVector + 1)), m.wired) := by
    show (wordOf (m.memory.read resetVector).1
        ((m.memory.read resetVector).2.read (resetVector + 1)).1,
      (⟨m.cpu, ((m.memory.read resetVector).2.read (resetVector + 1)).2⟩ :
        Wired (CpuMemory UxRom))) = _
    rw [hlow, hhigh]
    rfl
  rw [resetCpu, Wired.reset, Wired.jumpThrough, hword]
  rfl

/-- What a reset of a console changes: a few registers of the CPU, and the selected bank. -/
theorem Machine.reset_shape (m : Console) :
    ∃ journal, m.reset =
      { m with
        cpu := { m.cpu with
          pc := wordOf (m.board.reset.cpuByte resetVector)
            (m.board.reset.cpuByte (resetVector + 1))
          sp := 0xFD
          p := Status.reset
          interrupt := .none
          stall := 0 }
        board := m.board.reset
        journal := journal } := by
  obtain ⟨journal, h⟩ :=
    note_shape ({ m with board := Board.reset m.board } : Console).resetCpu .info _
  refine ⟨journal, ?_⟩
  rw [reset, h, resetCpu_eq]
  rfl

theorem Machine.cartridge_reset (m : Console) :
    m.reset.board.cartridge = m.board.cartridge := by
  obtain ⟨_, h⟩ := m.reset_shape
  rw [h]
  rfl

/-- A console that has been brought up has its picture unit at power-on. -/
theorem Console.ppu_ofCartridge {c : Cartridge} {journal : Journal} {m : Console}
    (h : Console.ofCartridge c journal = .ok m) : m.ppu = Ppu.powerOn := by
  unfold Console.ofCartridge at h
  cases hb : boardFor c with
  | error e => simp [hb, bind, Except.bind] at h
  | ok board =>
      simp only [hb, bind, Except.bind, pure, Except.pure, Except.ok.injEq] at h
      rw [← h, Machine.ppu_reset]

/-- A cartridge for a known board, with a whole bank of program memory, is brought up. -/
theorem Console.ofCartridge_eq_ok {c : Cartridge} (hm : c.mapper = 0 ∨ c.mapper = 2)
    (hp : 0 < c.prg.size / prgBankSize) (journal : Journal) :
    Console.ofCartridge c journal =
      .ok (Machine.reset { board := ⟨c, 0, hp⟩, journal := journal }) := by
  simp [Console.ofCartridge, boardFor, UxRom.ofCartridge, hm, hp, bind, Except.bind, pure,
    Except.pure]

/-! ## Position and lockstep -/

/-- **Position of the beam, and lockstep.** In a run of the picture unit from power-on without
resets, the beam stays on the screen, the flag for odd frames agrees with their number, and the
position goes up by one for every dot, and by one more for every dot that skips one. The picture
unit of a console goes through such a run, with three dots for every cycle that the steps of the
console took, and the board is told of as many. -/
theorem beam_position_and_lockstep :
    (∀ es : List (Ppu.Event μ), Ppu.Event.reset ∉ es →
      let b := (Ppu.run es Ppu.powerOn).beam
      b.dot ≤ 340 ∧ b.scanline ≤ 261 ∧ (b.odd = true ↔ b.frame % 2 = 1) ∧
        89342 * b.frame + 341 * b.scanline + b.dot =
          82180 + Ppu.Event.dots es + Ppu.skippedDots es Ppu.powerOn) ∧
    ∀ (c : Cartridge) (journal : Journal) (m : Console), Console.ofCartridge c journal = .ok m →
      ∀ n : Nat,
        let r := Machine.steps n (0, m)
        r.2.ppu = Ppu.run (m.events n) Ppu.powerOn ∧ Ppu.Event.reset ∉ m.events n ∧
          Ppu.Event.dots (m.events n) = 3 * r.1 ∧
          Machine.steps n (0, m.withMeter 0) = (r.1, r.2.withMeter (3 * r.1)) := by
  constructor
  · intro es hes
    have hb := Ppu.wellTimed_run hes Ppu.wellTimed_powerOn
    have hpos := Ppu.position_run hes Ppu.wellTimed_powerOn
    exact ⟨hb.dot_le, hb.scanline_le, hb.odd_iff, hpos⟩
  · intro c journal m hm n
    refine ⟨?_, Machine.reset_notMem_events n m, ?_, Machine.steps_withMeter n 0 m⟩
    · rw [Machine.ppu_steps, Console.ppu_ofCartridge hm]
    · exact Machine.dots_events n 0 m

/-- A cartridge of one bank that holds the instruction without effect throughout, and ten steps of
its console. -/
theorem beam_position_and_lockstep_idle :
    ∃ m,
      Console.ofCartridge (.ofParts (.replicate 0x4000 0xEA) #[] 0 .horizontal false) {} = .ok m ∧
      Ppu.Event.reset ∉ m.events 10 ∧
      Ppu.Event.dots (m.events 10) = 3 * (Machine.steps 10 (0, m)).1 ∧
      (Ppu.run (m.events 10) Ppu.powerOn).beam.dot ≤ 340 := by
  have hprg : 0 < (Cartridge.ofParts (.replicate 0x4000 0xEA) #[] 0 .horizontal false).prg.size /
      prgBankSize := by
    rw [Cartridge.prg_ofParts, Array.size_replicate]
    decide
  have hm := Console.ofCartridge_eq_ok (Or.inl rfl) hprg {}
  obtain ⟨-, hreset, hdots, -⟩ := (beam_position_and_lockstep (μ := UxRom)).2 _ _ _ hm 10
  obtain ⟨hdot, -⟩ := (beam_position_and_lockstep (μ := UxRom)).1 _ hreset
  exact ⟨_, hm, hreset, hdots, hdot⟩

end Nes
