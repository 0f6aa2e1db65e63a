import Nes.Machine.Step
import Nes.Proofs.Cpu.Simulation

/-!
# Counting the dots that a board is told of

`Metered` wraps a board and counts how often it is told that a dot has passed. It hands everything
on to the board inside, so a machine with a metered board does what the machine without the meter
does (`Machine.steps_withMeter`), and the meter goes up by three for every cycle.
-/

set_option autoImplicit false

namespace Nes

/-- A board with the number of dots it has been told of. -/
structure Metered (μ : Type) where
  board : μ
  dots : Nat

variable {μ : Type} [Board μ]

instance : Board (Metered μ) where
  cartridge m := Board.cartridge m.board
  cpuRead m addr :=
    let r := Board.cpuRead m.board addr
    (r.1, { m with board := r.2 })
  cpuWrite m addr value := { m with board := Board.cpuWrite m.board addr value }
  ppuRead m addr := Board.ppuRead m.board addr
  ppuWrite m addr value := { m with board := Board.ppuWrite m.board addr value }
  mirroring m := Board.mirroring m.board
  step m := ⟨Board.step m.board, m.dots + 1⟩
  irqPending m := Board.irqPending m.board
  reset m := { m with board := Board.reset m.board }

namespace CpuMemory

/-- The same memory with a meter on its board. -/
def withMeter (k : Nat) (m : CpuMemory μ) : CpuMemory (Metered μ) where
  ram := m.ram
  ppu := m.ppu
  board := ⟨m.board, k⟩
  oamDma := m.oamDma
  journal := m.journal

theorem read_withMeter (k : Nat) (m : CpuMemory μ) (addr : UInt16) :
    (m.withMeter k).read addr = ((m.read addr).1, (m.read addr).2.withMeter k) := by
  unfold read
  split
  · rfl
  · split
    · rfl
    · split <;> rfl

theorem readRange_withMeter (k n : Nat) (m : CpuMemory μ) (addr : UInt16) (acc : Array UInt8) :
    readRange read n (m.withMeter k) addr acc =
      ((readRange read n m addr acc).1, (readRange read n m addr acc).2.withMeter k) := by
  induction n generalizing m addr acc with
  | zero => rfl
  | succ n ih => rw [readRange, read_withMeter, ih, readRange]

omit [Board μ] in
theorem note_withMeter (k : Nat) (m : CpuMemory μ) (level : Level) (text : Unit → String) :
    (m.withMeter k).note level text = (m.note level text).withMeter k := by
  unfold note
  split
  · next h => rw [if_pos (show m.ppu.fault from h)]
  · next h => rw [if_neg (show ¬ m.ppu.fault from h)]; rfl

theorem readPage_withMeter (k : Nat) (m : CpuMemory μ) (page : UInt8) :
    readPage read (m.withMeter k) page =
      ((readPage read m page).1, (readPage read m page).2.withMeter k) :=
  readRange_withMeter k dmaTransferSize m (pageStart page) #[]

theorem copyPage_withMeter (k : Nat) (m : CpuMemory μ) (page : UInt8) :
    (m.withMeter k).copyPage page = (m.copyPage page).withMeter k := by
  unfold copyPage
  rw [readPage_withMeter]
  generalize readPage read m page = r
  exact note_withMeter k { r.2 with ppu := r.2.ppu.writeOamPage page r.1, oamDma := true } .debug _

theorem writeRegister_metered (p : Ppu) (board : μ) (k : Nat) (addr : UInt16) (value : UInt8) :
    p.writeRegister (⟨board, k⟩ : Metered μ) addr value =
      ((p.writeRegister board addr value).1, ⟨(p.writeRegister board addr value).2, k⟩) := by
  unfold Ppu.writeRegister Ppu.writeData Vram.write
  dsimp only
  split
  -- only the data port reaches the board
  case h_7 =>
    split
    · rfl
    · split <;> rfl
  all_goals rfl

theorem write_withMeter (k : Nat) (m : CpuMemory μ) (addr : UInt16) (value : UInt8) :
    (m.withMeter k).write addr value = (m.write addr value).withMeter k := by
  unfold write
  split
  · rfl
  · split
    · have h := writeRegister_metered m.ppu m.board k (registerAddress addr) value
      simp only [withMeter, h]
    · split
      · exact m.copyPage_withMeter k value
      · split
        · exact note_withMeter k m _ _
        · rfl

/-- The CPU cannot tell a metered board from the board inside. -/
theorem withMeter_simulation (k : Nat) :
    Bus.Simulation fun (m : CpuMemory μ) (m' : CpuMemory (Metered μ)) => m' = m.withMeter k where
  read {m m'} h addr := by
    subst h
    have hr := m.read_withMeter k addr
    exact ⟨congrArg Prod.fst hr.symm, congrArg Prod.snd hr⟩
  write {m m'} h addr value := by
    subst h
    exact m.write_withMeter k addr value
  takeOamDma {m m'} h := by
    subst h
    exact ⟨rfl, rfl⟩

end CpuMemory

namespace Machine

/-- The same machine with a meter on its board. -/
def withMeter (k : Nat) (m : Machine μ) : Machine (Metered μ) where
  cpu := m.cpu
  ram := m.ram
  ppu := m.ppu
  board := ⟨m.board, k⟩
  journal := m.journal

omit [Board μ] in
theorem note_withMeter (k : Nat) (m : Machine μ) (level : Level) (text : Unit → String) :
    (m.withMeter k).note level text = (m.note level text).withMeter k := by
  unfold note
  split
  · next h => rw [if_pos (show m.ppu.fault from h)]
  · next h => rw [if_neg (show ¬ m.ppu.fault from h)]; rfl

/-! ## The CPU -/

omit [Board μ] in
/-- The CPU wired to a metered machine and to the machine itself. -/
theorem wired_alike (k : Nat) (m : Machine μ) :
    Wired.Alike (fun (m : CpuMemory μ) (m' : CpuMemory (Metered μ)) => m' = m.withMeter k) m.wired
      (m.withMeter k).wired :=
  ⟨rfl, rfl⟩

theorem traceInstruction_withMeter (k : Nat) (m : Machine μ) :
    (m.withMeter k).traceInstruction = m.traceInstruction.withMeter k := by
  have hR := CpuMemory.withMeter_simulation (μ := μ) k
  have hkeeps : (m.withMeter k).journal = m.journal := rfl
  unfold traceInstruction
  rw [hkeeps]
  split
  · rcases Wired.upcoming_alike hR (m.wired_alike k) with ⟨h1, h2⟩ | ⟨i, s, t, h1, h2, hst⟩
    · rw [h1, h2]
    · have hfault : t.bus.ppu.fault = s.bus.ppu.fault := by
        rw [hst.bus]
        rfl
      rw [h1, h2]
      simp only [hfault, ← hst.cpu]
      split
      · rfl
      · exact note_withMeter k m .trace _
  · rfl

theorem stepCpu_withMeter (k : Nat) (m : Machine μ) :
    (m.withMeter k).stepCpu = (m.stepCpu.1, m.stepCpu.2.withMeter k) := by
  have hR := CpuMemory.withMeter_simulation (μ := μ) k
  -- the cycles, the registers and the memory agree, and there is nothing more
  obtain ⟨h1, hc, hb⟩ := Wired.step_alike hR (m.traceInstruction.wired_alike k)
  unfold stepCpu
  rw [traceInstruction_withMeter]
  refine Prod.ext h1.symm ?_
  simp only [ofWired, hb, ← hc]
  rfl

/-! ## Dots and steps -/

theorem dot_withMeter (k : Nat) (m : Machine μ) :
    (m.withMeter k).dot = m.dot.withMeter (k + 1) := by
  have hnmi : ∀ m : Machine μ, (m.withMeter (k + 1)).passNmi = m.passNmi.withMeter (k + 1) := by
    intro m
    unfold passNmi
    split
    · next h =>
        rw [if_pos (show m.ppu.nmiPending from h), note_withMeter]
        rfl
    · next h => rw [if_neg (show ¬ m.ppu.nmiPending from h)]
  have hirq : ∀ m : Machine μ, (m.withMeter (k + 1)).passIrq = m.passIrq.withMeter (k + 1) := by
    intro m
    unfold passIrq
    split
    · next h =>
        rw [if_pos (show Board.irqPending m.board from h)]
        rfl
    · next h => rw [if_neg (show ¬ Board.irqPending m.board from h)]
  unfold dot
  rw [← hirq, ← hnmi]
  rfl

theorem dots_withMeter (n k : Nat) (m : Machine μ) :
    dots n (m.withMeter k) = (dots n m).withMeter (k + n) := by
  induction n generalizing k m with
  | zero => rfl
  | succ n ih => rw [dots, dots, dot_withMeter, ih, Nat.add_right_comm, Nat.add_assoc]

/-- A step tells the board of three dots for every cycle it takes. -/
theorem step_withMeter (k : Nat) (m : Machine μ) :
    (m.withMeter k).step = (m.step.1, m.step.2.withMeter (k + dotsPerCycle * m.step.1)) := by
  unfold step runDots
  rw [stepCpu_withMeter]
  dsimp only
  rw [dots_withMeter, Nat.mul_comm]

/-- **A meter changes nothing**, and it shows three dots for every cycle that the steps took. -/
theorem steps_withMeter (n k : Nat) (m : Machine μ) :
    steps n (k, m.withMeter (dotsPerCycle * k)) =
      ((steps n (k, m)).1, (steps n (k, m)).2.withMeter (dotsPerCycle * (steps n (k, m)).1)) := by
  induction n generalizing k m with
  | zero => rfl
  | succ n ih =>
      rw [steps, steps, step_withMeter]
      dsimp only
      rw [← Nat.mul_add]
      exact ih (k + m.step.1) m.step.2

end Machine

end Nes
