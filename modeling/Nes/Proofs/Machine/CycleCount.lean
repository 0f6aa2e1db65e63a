import Nes.Proofs.Machine.OneBank
import Nes.Proofs.Machine.Timing

/-!
# What the cycle counter counts

A step that waits takes a cycle, and three dots pass in it, but the counter stays. So the counter
falls behind the cycles that have passed by exactly the steps that waited (`steps_eq_cycles_add`),
and the wait for a transfer, which looks at the counter, is even or odd by the cycles without those.
-/

set_option autoImplicit false

namespace Nes.Machine

variable {μ : Type} [Board μ]

/-- Steps, out of a number of them, in which the CPU waits. -/
def stalledSteps : Nat → Machine μ → Nat
  | 0, _ => 0
  | n + 1, m => (if m.cpu.stall = 0 then 0 else 1) + stalledSteps n m.step.2

/-- A step counts the cycles it takes, unless it waits. -/
theorem cycles_step_add (m : Machine μ) :
    m.step.2.cpu.cycles + (if m.cpu.stall = 0 then 0 else 1) = m.cpu.cycles + m.step.1 := by
  rw [cycles_step, fst_step]
  by_cases hstall : m.cpu.stall = 0
  · obtain ⟨hcost, htiming⟩ := stepCpu_of_not_stalled hstall
    have hcycles : m.stepCpu.2.cpu.cycles = m.cpu.cycles + m.cost :=
      congrArg Cpu.Timing.cycles htiming
    rw [if_pos hstall, hcycles, hcost, Nat.add_zero]
  · obtain ⟨hone, hcpu, -⟩ := stepCpu_of_stalled hstall
    rw [if_neg hstall, hone, hcpu]

/-- The cycles of a number of steps are those that the counter has counted and the steps that
waited. -/
theorem steps_eq_cycles_add (n k : Nat) (m : Machine μ) :
    (steps n (k, m)).1 + m.cpu.cycles = k + (m.afterSteps n).cpu.cycles + stalledSteps n m := by
  induction n generalizing k m with
  | zero => rfl
  | succ n ih =>
      have hrest := ih (k + m.step.1) m.step.2
      have hstep := m.cycles_step_add
      rw [steps, afterSteps_succ, stalledSteps]
      dsimp only
      omega

/-- An instruction that starts a transfer makes the CPU wait by the counter. -/
theorem stall_step_of_not_stalled {m : Machine μ} (h : m.cpu.stall = 0) :
    m.step.2.cpu.stall = if m.transfers then stallCycles m.step.2.cpu.cycles else 0 := by
  have htiming := (stepCpu_of_not_stalled h).2
  have hcycles : m.stepCpu.2.cpu.cycles = m.cpu.cycles + m.cost :=
    congrArg Cpu.Timing.cycles htiming
  rw [stall_step, cycles_step, hcycles]
  exact congrArg Cpu.Timing.stall htiming

/-- **What the counter counts.** In a run of a console from its bring-up, the cycles that the steps
took are those on the counter and one for every step that waited; a third of the dots are as many. A
transfer is charged 513 cycles or one more, by the cycles at the end of its instruction without
those of the waits before: the parity of all cycles decides only if the steps that waited are even
in number. -/
theorem cycles_add_stalledSteps {c : Cartridge} {journal : Journal} {m : Console}
    (h : Console.ofCartridge c journal = .ok m) (n : Nat) :
    let total := (steps n (0, m)).1
    let s := m.afterSteps n
    total = s.cpu.cycles + stalledSteps n m ∧
      Ppu.Event.dots (m.events n) = 3 * total ∧
      (s.cpu.stall = 0 →
        s.step.2.cpu.stall =
            (if s.transfers then 513 + (total + s.step.1 - stalledSteps n m) % 2 else 0) ∧
          (s.transfers = true →
            (s.step.2.cpu.stall = 513 + (total + s.step.1) % 2 ↔ stalledSteps n m % 2 = 0))) := by
  intro total s
  have htotal : total = s.cpu.cycles + stalledSteps n m := by
    have hsteps := steps_eq_cycles_add n 0 m
    have hzero : m.cpu.cycles = 0 := congrArg Cpu.Timing.cycles (timing_ofCartridge h)
    rw [hzero, Nat.add_zero, Nat.zero_add] at hsteps
    exact hsteps
  refine ⟨htotal, dots_events n 0 m, fun hstall => ?_⟩
  have hcycles := s.cycles_step_add
  rw [if_pos hstall, Nat.add_zero] at hcycles
  have hcounted : s.step.2.cpu.cycles = total + s.step.1 - stalledSteps n m := by omega
  have hcharge : s.step.2.cpu.stall =
      if s.transfers then 513 + (total + s.step.1 - stalledSteps n m) % 2 else 0 := by
    rw [stall_step_of_not_stalled hstall, hcounted]
    rfl
  refine ⟨hcharge, fun ht => ?_⟩
  rw [if_pos ht] at hcharge
  omega

/-! ## A program that starts with a transfer -/

/-- The first instruction stores A at the address that starts a transfer. The console starts at
8000. -/
def transferProgram (i : Fin prgBankSize) : UInt8 :=
  if i.val = 0 then 0x8D else if i.val = 1 then 0x14 else if i.val = 2 then 0x40
  else if i.val = 0x3FFD then 0x80 else 0

theorem fst_takeOamDma (m : CpuMemory μ) : (Bus.takeOamDma m).1 = m.oamDma := rfl

/-- The instruction is read off the program. -/
theorem fetch_transferProgram {s : Wired (CpuMemory UxRom)}
    (hprg : s.bus.board.cartridge.prg = Array.ofFn transferProgram) (hpc : s.cpu.pc = 0x8000) :
    s.fetch = (⟨0x8D, ⟨oamDmaAddress, false⟩, 0x8003⟩, s) := by
  have hstore : s.bus.board.cartridge.prg = Array.ofFn (accessProgram 0x8D 0x14 0x40) := hprg
  exact Wired.fetch_accessProgram (by decide) (by decide) hstore hpc

theorem transfers_transferProgram {s : Wired (CpuMemory UxRom)}
    (hprg : s.bus.board.cartridge.prg = Array.ofFn transferProgram)
    (hinterrupt : s.cpu.interrupt = .none) (hpc : s.cpu.pc = 0x8000) : s.transfers = true := by
  have hserve : s.serveInterrupt = s := by
    rw [Wired.serveInterrupt_eq, hinterrupt]
    rfl
  have hfetch := fetch_transferProgram hprg hpc
  have hstore : (Opcode.ofByte 0x8D).mnemonic.effect = .store fun c => c.a := by
    have hsta : (Opcode.ofByte 0x8D).mnemonic = .sta := by decide
    rw [hsta]
    rfl
  have hcopied : ∀ value, (s.bus.write oamDmaAddress value).oamDma = true := by
    intro value
    obtain ⟨_, hcopy⟩ := s.bus.copyPage_shape value
    rw [CpuMemory.write_oamDmaAddress, hcopy]
  have hnext : s.next = ⟨0x8D, ⟨oamDmaAddress, false⟩, 0x8003⟩ := by
    rw [Wired.next, hserve, hfetch]
  have hready : s.readied.bus = s.bus := by
    rw [Wired.readied, hserve, hfetch]
    rfl
  have hrun : s.executed = s.readied.write oamDmaAddress s.readied.cpu.a := by
    rw [Wired.executed, hnext, Instruction.opcode, hstore]
    rfl
  rw [Wired.transfers, hrun, fst_takeOamDma]
  show (s.readied.bus.write oamDmaAddress s.readied.cpu.a).oamDma = true
  rw [hready]
  exact hcopied _

/-- The console with the program starts with a transfer. -/
theorem ofCartridge_transferProgram :
    ∃ m, Console.ofCartridge (.ofBank transferProgram #[]) {} = .ok m ∧ m.cpu.stall = 0 ∧
      m.transfers = true := by
  obtain ⟨m, hm, hboard, hpc⟩ := Console.ofCartridge_ofBank transferProgram #[] {}
  have htiming := timing_ofCartridge hm
  refine ⟨m, hm, congrArg Cpu.Timing.stall htiming, ?_⟩
  obtain ⟨_, hj⟩ := m.traceInstruction_shape
  rw [transfers, hj]
  refine transfers_transferProgram ?_ (congrArg Cpu.Timing.interrupt htiming) hpc
  show m.board.cartridge.prg = Array.ofFn transferProgram
  rw [hboard, Cartridge.prg_ofBank]

/-- Its first transfer, charged by the cycles of one instruction. -/
theorem cycles_add_stalledSteps_transferProgram :
    ∃ m, Console.ofCartridge (.ofBank transferProgram #[]) {} = .ok m ∧ m.cpu.stall = 0 ∧
      m.transfers = true ∧ m.step.2.cpu.stall = 513 + m.step.1 % 2 ∧
      (steps 2 (0, m)).1 = (m.afterSteps 2).cpu.cycles + stalledSteps 2 m := by
  obtain ⟨m, hm, hstart, htransfers⟩ := ofCartridge_transferProgram
  obtain ⟨htotal, -, -⟩ := cycles_add_stalledSteps hm 2
  obtain ⟨-, -, hcharge⟩ := cycles_add_stalledSteps hm 0
  refine ⟨m, hm, hstart, htransfers, ?_, htotal⟩
  have hstall := (hcharge hstart).2 htransfers
  rw [steps, Nat.zero_add] at hstall
  exact hstall.mpr rfl

/-- **The counter falls behind.** After the first instruction and one step of the wait for its
transfer, more cycles have passed than the counter shows. -/
theorem cycles_ne_steps_transferProgram :
    ∃ m, Console.ofCartridge (.ofBank transferProgram #[]) {} = .ok m ∧
      (m.afterSteps 2).cpu.cycles ≠ (steps 2 (0, m)).1 := by
  obtain ⟨m, hm, hstart, htransfers⟩ := ofCartridge_transferProgram
  refine ⟨m, hm, ?_⟩
  have hwaits : m.step.2.cpu.stall ≠ 0 := by
    rw [stall_step_of_not_stalled hstart, if_pos htransfers, stallCycles, dmaStallCycles]
    omega
  have hstalled : stalledSteps 2 m = 1 := by
    simp only [stalledSteps, if_pos hstart, if_neg hwaits]
  have hzero : m.cpu.cycles = 0 := congrArg Cpu.Timing.cycles (timing_ofCartridge hm)
  have hcount := steps_eq_cycles_add 2 0 m
  omega

end Nes.Machine
