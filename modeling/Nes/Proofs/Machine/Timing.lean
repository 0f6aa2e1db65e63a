import Nes.Console
import Nes.Proofs.Cpu.Timing
import Nes.Proofs.Cpu.TransferStart
import Nes.Proofs.Machine.Trace

/-!
# When a machine runs instructions

The timing of the CPU through the steps of a machine. The dots between two steps of the CPU leave
the counter and the wait as they are and only pass interrupts on (`cpu_dot`), so the counter and the
wait go through the steps as they go through those of the CPU, and the pending interrupt is the last
one passed on that the CPU has accepted. The accesses of a step show with what it begins
(`begins_exchanges`).
-/

set_option autoImplicit false

namespace Nes.Machine

variable {μ : Type} [Board μ]

/-- The state after a number of steps. -/
def afterSteps (n : Nat) (m : Machine μ) : Machine μ := (steps n (0, m)).2

theorem snd_steps (n k : Nat) (m : Machine μ) : (steps n (k, m)).2 = m.afterSteps n := by
  unfold afterSteps
  generalize (0 : Nat) = k'
  induction n generalizing k k' m with
  | zero => rfl
  | succ n ih => exact ih (k + m.step.1) m.step.2 (k' + m.step.1)

theorem afterSteps_succ (n : Nat) (m : Machine μ) :
    m.afterSteps (n + 1) = m.step.2.afterSteps n :=
  snd_steps n (0 + m.step.1) m.step.2

theorem afterSteps_add (n k : Nat) (m : Machine μ) :
    m.afterSteps (n + k) = (m.afterSteps n).afterSteps k := by
  rw [afterSteps, steps_add]
  exact snd_steps k (steps n (0, m)).1 _

/-- What every step preserves holds after some steps. -/
theorem afterSteps_invariant {P : Machine μ → Prop} {m : Machine μ} (h : P m)
    (hstep : ∀ m, P m → P m.step.2) (n : Nat) : P (m.afterSteps n) := by
  induction n generalizing m with
  | zero => exact h
  | succ n ih => exact afterSteps_succ n m ▸ ih (hstep m h)

theorem afterSteps_succ_add (n k : Nat) (m : Machine μ) :
    m.afterSteps (n + 1 + k) = (m.afterSteps n).step.2.afterSteps k := by
  rw [Nat.add_assoc, Nat.add_comm 1 k, afterSteps_add, afterSteps_succ]

/-- After a reset nothing waits, and the counter is as it was. -/
theorem timing_reset (m : Machine μ) : m.reset.cpu.timing = ⟨m.cpu.cycles, 0, .none⟩ := by
  obtain ⟨_, h⟩ := note_shape ({ m with board := Board.reset m.board } : Machine μ).resetCpu .info _
  rw [reset, h]
  rfl

/-- The timing of a console that has just been brought up. -/
theorem timing_ofCartridge {c : Cartridge} {journal : Journal} {m : Console}
    (h : Console.ofCartridge c journal = .ok m) : m.cpu.timing = ⟨0, 0, .none⟩ := by
  unfold Console.ofCartridge at h
  cases hb : boardFor c with
  | error e => simp [hb, bind, Except.bind] at h
  | ok board =>
      simp only [hb, bind, Except.bind, pure, Except.pure, Except.ok.injEq] at h
      rw [← h]
      exact timing_reset ({ board, journal } : Console)

/-! ## Steps of the CPU -/

/-- Cycles of the instruction that the machine runs next, interrupt entry included. -/
def cost (m : Machine μ) : Nat := m.traceInstruction.wired.cost

/-- The instruction that the machine runs next starts a transfer into sprite memory. -/
def transfers (m : Machine μ) : Bool := m.traceInstruction.wired.transfers

theorem two_le_cost (m : Machine μ) : 2 ≤ m.cost := m.traceInstruction.wired.two_le_cost

theorem cost_le (m : Machine μ) : m.cost ≤ 18 := m.traceInstruction.wired.cost_le

/-- The vector through which the next step enters a handler, if it does. -/
def entered? (m : Machine μ) : Option UInt16 := m.wired.entered?

/-- The accesses of the next step. -/
def exchanges (m : Machine μ) : List Exchange := m.traceInstruction.wired.exchanges

theorem cpu_traceInstruction (m : Machine μ) : m.traceInstruction.cpu = m.cpu := by
  obtain ⟨_, h⟩ := m.traceInstruction_shape
  rw [h]

theorem exchanges_of_stalled {m : Machine μ} (h : m.cpu.stall ≠ 0) : m.exchanges = [] :=
  Wired.exchanges_of_stalled (s := m.traceInstruction.wired)
    fun hstall => h ((congrArg Cpu.stall m.cpu_traceInstruction).symm.trans hstall)

/-- A step that does not wait begins with the interrupt that waits, or with an instruction. -/
theorem begins_exchanges {m : Machine μ} (h : m.cpu.stall = 0) :
    Begins m.cpu m.traceInstruction.wired.next.byte m.exchanges := by
  have hcpu := m.cpu_traceInstruction
  have hbegins := Wired.begins (s := m.traceInstruction.wired) ((congrArg Cpu.stall hcpu).trans h)
  rw [show m.traceInstruction.wired.cpu = m.cpu from hcpu] at hbegins
  exact hbegins

/-- A step that does not wait takes the cost of its instruction, leaves no interrupt waiting, and
makes the CPU wait if a transfer has been started. -/
theorem stepCpu_of_not_stalled {m : Machine μ} (h : m.cpu.stall = 0) :
    m.stepCpu.1 = m.cost ∧
      m.stepCpu.2.cpu.timing =
        ⟨m.cpu.cycles + m.cost,
          if m.transfers then stallCycles (m.cpu.cycles + m.cost) else 0, .none⟩ := by
  have hcpu : m.traceInstruction.wired.cpu = m.cpu := m.cpu_traceInstruction
  have hstall : m.traceInstruction.wired.cpu.stall = 0 := hcpu ▸ h
  obtain ⟨hcost, hnext⟩ := Wired.step_of_not_stalled hstall
  have htiming := Wired.timing_runInstruction m.traceInstruction.wired
  rw [hstall, hcpu, Nat.zero_add] at htiming
  refine ⟨hcost, ?_⟩
  show m.traceInstruction.wired.step.2.cpu.timing = _
  rw [hnext, htiming, cost, transfers]

/-- A step that waits takes one cycle and does nothing else. -/
theorem stepCpu_of_stalled {m : Machine μ} (h : m.cpu.stall ≠ 0) :
    m.stepCpu.1 = 1 ∧ m.stepCpu.2.cpu = { m.cpu with stall := m.cpu.stall - 1 } ∧
      m.stepCpu.2.ppu = m.ppu := by
  obtain ⟨_, hj⟩ := m.traceInstruction_shape
  have hstall : m.traceInstruction.wired.cpu.stall ≠ 0 := by
    rw [hj]
    exact h
  unfold stepCpu
  rw [Wired.step_of_stalled hstall, hj]
  exact ⟨rfl, rfl, rfl⟩

/-! ## Dots -/

/-- The next dot passes an interrupt of the picture unit on to the CPU. -/
def takesNmi (m : Machine μ) : Bool := (m.ppu.step m.board).nmiPending

/-- What a dot does to the CPU: it passes on an interrupt of the picture unit, then the interrupt
line of the board. -/
theorem cpu_dot (m : Machine μ) :
    m.dot.cpu =
      let c := if m.takesNmi then m.cpu.triggerNmi else m.cpu
      if Board.irqPending (Board.step m.board) then c.triggerIrq else c := by
  have hirq : ∀ m : Machine μ,
      m.passIrq.cpu = if Board.irqPending m.board then m.cpu.triggerIrq else m.cpu := by
    intro m
    unfold passIrq
    split <;> rfl
  have hnmi : ∀ m : Machine μ, m.passNmi.board = m.board ∧
      m.passNmi.cpu = if m.ppu.nmiPending then m.cpu.triggerNmi else m.cpu := by
    intro m
    unfold passNmi
    split
    · rw [(note_shape _ _ _).choose_spec]
      exact ⟨rfl, rfl⟩
    · exact ⟨rfl, rfl⟩
  obtain ⟨hboard, hcpu⟩ :=
    hnmi { m with ppu := m.ppu.step m.board, board := Board.step m.board }
  unfold dot
  dsimp only
  rw [hirq, hboard, hcpu]
  rfl

theorem ram_dot (m : Machine μ) : m.dot.ram = m.ram := by
  have hirq : ∀ m : Machine μ, m.passIrq.ram = m.ram := by
    intro m
    unfold passIrq
    split <;> rfl
  have hnmi : ∀ m : Machine μ, m.passNmi.ram = m.ram := by
    intro m
    unfold passNmi
    split
    · rw [(note_shape _ _ _).choose_spec]
    · rfl
  rw [dot, hirq, hnmi]

/-- The board is told of every dot. -/
theorem board_dot (m : Machine μ) : m.dot.board = Board.step m.board := by
  have hirq : ∀ m : Machine μ, m.passIrq.board = m.board := by
    intro m
    unfold passIrq
    split <;> rfl
  have hnmi : ∀ m : Machine μ, m.passNmi.board = m.board := by
    intro m
    unfold passNmi
    split
    · rw [(note_shape _ _ _).choose_spec]
    · rfl
  rw [dot, hirq, hnmi]

theorem timing_dot (m : Machine μ) :
    ∃ interrupt, m.dot.cpu.timing = { m.cpu.timing with interrupt := interrupt } := by
  have hirq : ∀ c : Cpu, ∃ interrupt,
      c.triggerIrq.timing = { c.timing with interrupt := interrupt } := by
    intro c
    unfold Cpu.triggerIrq
    split
    · exact ⟨.irq, rfl⟩
    · exact ⟨c.interrupt, rfl⟩
  have hnmi : ∃ interrupt, (if m.takesNmi then m.cpu.triggerNmi else m.cpu).timing =
      { m.cpu.timing with interrupt := interrupt } := by
    split
    · exact ⟨.nmi, rfl⟩
    · exact ⟨m.cpu.interrupt, rfl⟩
  rw [cpu_dot]
  dsimp only
  split
  · obtain ⟨_, h1⟩ := hnmi
    obtain ⟨interrupt, h2⟩ := hirq (if m.takesNmi then m.cpu.triggerNmi else m.cpu)
    exact ⟨interrupt, by rw [h2, h1]⟩
  · exact hnmi

/-- The non-maskable interrupt waits if it has been passed on, or waited already. -/
theorem interrupt_dot_eq_nmi_iff (m : Machine μ) :
    m.dot.cpu.interrupt = .nmi ↔ m.takesNmi = true ∨ m.cpu.interrupt = .nmi := by
  have hirq : ∀ c : Cpu, c.triggerIrq.interrupt = .nmi ↔ c.interrupt = .nmi := by
    intro c
    unfold Cpu.triggerIrq
    split
    · next h => simp [h.2]
    · rfl
  have hnmi : (if m.takesNmi then m.cpu.triggerNmi else m.cpu).interrupt = .nmi ↔
      m.takesNmi = true ∨ m.cpu.interrupt = .nmi := by
    split
    · next h => simp [h, Cpu.triggerNmi]
    · next h => simp [h]
  rw [cpu_dot, ← hnmi]
  dsimp only
  split
  · exact hirq _
  · rfl

theorem timing_dots (n : Nat) (m : Machine μ) :
    ∃ interrupt, (dots n m).cpu.timing = { m.cpu.timing with interrupt := interrupt } := by
  induction n generalizing m with
  | zero => exact ⟨m.cpu.interrupt, rfl⟩
  | succ n ih =>
      obtain ⟨_, h1⟩ := m.timing_dot
      obtain ⟨interrupt, h2⟩ := ih m.dot
      exact ⟨interrupt, by rw [dots, h2, h1]⟩

theorem stall_dots (n : Nat) (m : Machine μ) : (dots n m).cpu.stall = m.cpu.stall := by
  obtain ⟨_, h⟩ := timing_dots n m
  exact congrArg Cpu.Timing.stall h

theorem cycles_dots (n : Nat) (m : Machine μ) : (dots n m).cpu.cycles = m.cpu.cycles := by
  obtain ⟨_, h⟩ := timing_dots n m
  exact congrArg Cpu.Timing.cycles h

/-- An interrupt that waits goes on to wait. -/
theorem interrupt_dots_of_eq_nmi (n : Nat) {m : Machine μ} (h : m.cpu.interrupt = .nmi) :
    (dots n m).cpu.interrupt = .nmi := by
  induction n generalizing m with
  | zero => exact h
  | succ n ih => exact ih (m.interrupt_dot_eq_nmi_iff.mpr (.inr h))

/-! ## Steps -/

theorem stall_step (m : Machine μ) : m.step.2.cpu.stall = m.stepCpu.2.cpu.stall :=
  stall_dots _ _

theorem cycles_step (m : Machine μ) : m.step.2.cpu.cycles = m.stepCpu.2.cpu.cycles :=
  cycles_dots _ _

theorem fst_step (m : Machine μ) : m.step.1 = m.stepCpu.1 := rfl

/-- A step takes at least one cycle. -/
theorem one_le_fst_step (m : Machine μ) : 1 ≤ m.step.1 := by
  rw [fst_step]
  by_cases h : m.cpu.stall = 0
  · rw [(stepCpu_of_not_stalled h).1]
    exact Nat.le_of_succ_le m.two_le_cost
  · exact Nat.le_of_eq (stepCpu_of_stalled h).1.symm

/-- A step takes no more cycles than the entry into an interrupt and the longest instruction. -/
theorem fst_step_le (m : Machine μ) : m.step.1 ≤ 18 := by
  rw [fst_step]
  by_cases h : m.cpu.stall = 0
  · rw [(stepCpu_of_not_stalled h).1]
    exact m.cost_le
  · rw [(stepCpu_of_stalled h).1]
    decide

theorem cycles_step_le (m : Machine μ) : m.step.2.cpu.cycles ≤ m.cpu.cycles + 18 := by
  rw [cycles_step]
  by_cases h : m.cpu.stall = 0
  · have hcycles : m.stepCpu.2.cpu.cycles = m.cpu.cycles + m.cost :=
      congrArg Cpu.Timing.cycles (stepCpu_of_not_stalled h).2
    rw [hcycles]
    exact Nat.add_le_add_left m.cost_le _
  · rw [(stepCpu_of_stalled h).2.1]
    exact Nat.le_add_right _ _

end Nes.Machine
