import Nes.Proofs.Checked.Cpu
import Nes.Proofs.Checked.Memory

/-!
# Checked consoles

The operations of a host on a console with every operation inside them checked: the CPU runs on the
guarded bus, the dots are checked ones, and so are the counts of cycles and of dots. A frame that
does not end within its number of dots has no result either.

A console that has come up is sound and stays so, and while its counters have room, no operation
fails (`performAllChecked_eq`).
-/

set_option autoImplicit false

namespace Nes

namespace Machine

/-! ## Operations -/

/-- A step of the CPU alone, and the cycles it took. -/
def stepCpuChecked (m : Console) : Option (Nat × Console) := do
  let traced := m.traceInstruction
  let r ← (⟨traced.cpu, ⟨some traced.memory⟩⟩ : Wired Guarded).stepChecked
  let memory ← r.2.bus.memory
  some (r.1, ofWired ⟨r.2.cpu, memory⟩)

/-- One dot of the picture unit and the board. -/
def dotChecked (m : Console) : Option Console := do
  let ppu ← m.ppu.stepChecked m.board
  let stepped := { m with ppu }
  some ({ stepped with board := Board.step stepped.board } : Console).passNmi.passIrq

/-- As many dots as the number says. -/
def dotsChecked : Nat → Console → Option Console
  | 0, m => some m
  | n + 1, m => do
      let next ← m.dotChecked
      dotsChecked n next

/-- A step of the CPU and the dots that belong to it. -/
def stepChecked (m : Console) : Option (Nat × Console) := do
  let r ← m.stepCpuChecked
  let dots ← Checked.mul 32 r.1 dotsPerCycle
  let next ← dotsChecked dots r.2
  some (r.1, next)

/-- Steps while the frame number is the given one, for as many steps as the second argument allows,
adding the cycles they take to a total. -/
def stepWhileFrameChecked (frame : Nat) : Nat → Nat × Console → Option (Nat × Console)
  | 0, r => if r.2.ppu.beam.frame = frame then none else some r
  | n + 1, r =>
      if r.2.ppu.beam.frame = frame then do
        let t ← r.2.stepChecked
        let total ← Checked.add 64 r.1 t.1
        stepWhileFrameChecked frame n (total, t.2)
      else some r

/-- Runs until the next frame starts, and counts the cycles. -/
def stepFrameChecked (m : Console) : Option (Nat × Console) :=
  stepWhileFrameChecked m.ppu.beam.frame (dotsPerScanline * scanlinesPerFrame) (0, m)

/-- Resets the board and the CPU. -/
def resetChecked (m : Console) : Option Console := do
  let board := Board.reset m.board
  let s := (⟨m.cpu, ⟨some ({ m with board } : Console).memory⟩⟩ : Wired Guarded).reset
  let memory ← s.bus.memory
  let m : Console := ofWired ⟨s.cpu, memory⟩
  some (m.note .info fun _ =>
    s!"console reset: mapper {(Board.cartridge m.board).mapper} pc $" ++ Hex.word m.cpu.pc)

/-- Carries out an operation. -/
def performChecked (m : Console) : HostOp → Option Console
  | .step => m.stepChecked.map fun r => r.2
  | .stepFrame => m.stepFrameChecked.map fun r => r.2
  | .read addr => (m.memory.readChecked addr).map fun r => ofWired ⟨m.cpu, r.2⟩
  | .write addr value =>
      (m.memory.writeChecked addr value).map fun memory => ofWired ⟨m.cpu, memory⟩
  | .reset => m.resetChecked

/-- Carries out operations, one after the other. -/
def performAllChecked (m : Console) (ops : List HostOp) : Option Console :=
  ops.foldlM performChecked m

/-! ## Sound consoles -/

variable {m m' : Console}

theorem reset_notMem_opEvents (m : Console) (op : HostOp) :
    Ppu.Event.reset ∉ m.opEvents op := by
  cases op with
  | step =>
      intro hmem
      rcases List.mem_append.mp hmem with hmem | hmem
      · exact CpuMemory.reset_notMem_of_isAccess m.isAccess_cpuEvents hmem
      · exact reset_notMem_dotEvents _ _ hmem
  | stepFrame => exact reset_notMem_events _ _
  | read addr => exact CpuMemory.reset_notMem_of_isAccess (m.memory.isAccess_readEvents addr)
  | write addr value =>
      exact CpuMemory.reset_notMem_of_isAccess (m.memory.isAccess_writeEvents addr value)
  | reset => exact List.not_mem_nil

theorem sound_stepCpu (h : m.memory.Sound) : m.stepCpu.2.memory.Sound :=
  h.follows (CpuMemory.reset_notMem_of_isAccess m.isAccess_cpuEvents) m.ppu_stepCpu
    m.stored_stepCpu

theorem sound_dot (h : m.memory.Sound) : m.dot.memory.Sound :=
  h.follows (reset_notMem_dotEvents 1 m) (ppu_dots 1 m) (stored_dots 1 m)

/-- Every operation leads from a sound console to a sound one. -/
theorem sound_perform (h : m.memory.Sound) (op : HostOp) : (m.perform op).memory.Sound :=
  h.follows (m.reset_notMem_opEvents op) (m.ppu_perform op) (m.stored_perform op)

/-! ## Steps -/

theorem stepCpuChecked_eq (h : m.memory.Sound) (hcycles : m.cpu.cycles + 18 < 2 ^ 64) :
    m.stepCpuChecked = some m.stepCpu := by
  obtain ⟨journal, hj⟩ := m.traceInstruction_shape
  have hstart : Wired.Alike Guarded.Holds m.traceInstruction.wired
      ⟨m.traceInstruction.cpu, ⟨some m.traceInstruction.memory⟩⟩ := by
    rw [hj]
    exact ⟨rfl, rfl, h.ppu, h.chr⟩
  obtain ⟨hfst, hcpu, hbus⟩ := Wired.step_alike Guarded.holds_simulation hstart
  have hchecked : (⟨m.traceInstruction.cpu, ⟨some m.traceInstruction.memory⟩⟩ :
      Wired Guarded).stepChecked = some (Wired.step _) := Wired.stepChecked_eq (by
    show m.traceInstruction.cpu.cycles + 18 < 2 ^ 64
    rw [cpu_traceInstruction]
    exact hcycles)
  simp only [stepCpuChecked, hchecked, Option.bind_eq_bind, Option.bind_some, hbus.memory, ← hfst,
    ← hcpu]
  rfl

theorem dotChecked_eq (h : m.memory.Sound) (hframe : m.ppu.beam.frame + 1 < 2 ^ 64) :
    m.dotChecked = some m.dot := by
  have hppu : m.ppu.stepChecked m.board = some (m.ppu.step m.board) :=
    Ppu.stepChecked_eq h.ppu hframe h.chr
  rw [dotChecked, hppu]
  rfl

/-! ## Counters -/

/-- Cycles and frames can be counted for so many steps below a limit. -/
structure Room (limit n : Nat) (m : Console) : Prop where
  cycles : m.cpu.cycles + 18 * n < limit
  frame : m.ppu.beam.frame + 54 * n < limit

variable {limit n : Nat}

theorem Room.mono (h : m.Room limit n) {k : Nat} (hk : k ≤ n) : m.Room limit k := by
  obtain ⟨hcycles, hframe⟩ := h
  constructor <;> omega

theorem Room.step (h : m.Room limit (n + 1)) : m.step.2.Room limit n := by
  obtain ⟨hcycles, hframe⟩ := h
  have hcount := m.cycles_step_le
  have hcost := m.fst_step_le
  have hdots := Ppu.frame_run_le m.stepEvents m.ppu
  rw [← ppu_step, dots_stepEvents, dotsPerCycle] at hdots
  constructor <;> omega

theorem Room.afterSteps {k : Nat} (h : m.Room limit (n + k)) : (m.afterSteps k).Room limit n := by
  induction k generalizing m with
  | zero => exact h
  | succ k ih => exact afterSteps_succ k m ▸ ih (Room.step h)

/-- An access leaves the counters alone. -/
theorem Room.access (h : m.Room limit n) {es : List (Ppu.Event UxRom)} (hes : ∀ e ∈ es, e.isAccess)
    (hcycles : m'.cpu.cycles = m.cpu.cycles) (hppu : m'.ppu = Ppu.run es m.ppu) :
    m'.Room limit n := by
  have hdots := Ppu.frame_run_le es m.ppu
  rw [← hppu, dots_eq_zero_of_isAccess hes] at hdots
  exact ⟨hcycles ▸ h.cycles, Nat.lt_of_le_of_lt (Nat.add_le_add_right hdots _) h.frame⟩

theorem frameSteps_le (frame n : Nat) (m : Console) : frameSteps frame n m ≤ n := by
  induction n generalizing m with
  | zero => exact Nat.le_refl _
  | succ n ih =>
      rw [frameSteps]
      split
      · exact Nat.succ_le_succ (ih m.step.2)
      · exact Nat.zero_le _

/-- No operation takes more steps than a frame has dots. -/
theorem Room.perform (h : m.Room limit (n + Beam.dotsPerFrame)) (op : HostOp) :
    (m.perform op).Room limit n := by
  have hrest : m.Room limit n := h.mono (Nat.le_add_right _ _)
  cases op with
  | step => exact Room.step (h.mono (Nat.add_le_add_left (by decide) n))
  | stepFrame =>
      rw [Machine.perform, stepFrame_eq_steps]
      exact Room.afterSteps (h.mono (Nat.add_le_add_left (frameSteps_le _ _ m) n))
  | read addr => exact hrest.access (m.memory.isAccess_readEvents addr) rfl (m.memory.ppu_read addr)
  | write addr value =>
      exact hrest.access (m.memory.isAccess_writeEvents addr value) rfl
        (m.memory.ppu_write addr value)
  | reset =>
      have hcycles : m.reset.cpu.cycles = m.cpu.cycles :=
        congrArg Cpu.Timing.cycles m.timing_reset
      rw [Machine.perform]
      exact ⟨hcycles ▸ hrest.cycles, m.ppu_reset ▸ hrest.frame⟩

/-- The counters of cycles and of frames are below `2 ^ 53`. -/
structure CountersFit (m : Console) : Prop where
  cycles : m.cpu.cycles < 2 ^ 53
  frame : m.ppu.beam.frame < 2 ^ 53

theorem CountersFit.room (h : m.CountersFit) (hn : n ≤ Beam.dotsPerFrame) :
    m.Room (2 ^ 64) n := by
  obtain ⟨hcycles, hframe⟩ := h
  have hdots : Beam.dotsPerFrame = 89342 := rfl
  constructor <;> omega

/-- The counters fit throughout a sequence of operations for which there is room at its start. -/
theorem countersFit_performAll {ops : List HostOp}
    (h : m.Room (2 ^ 53) (ops.length * Beam.dotsPerFrame)) {done : List HostOp}
    (hdone : done <+: ops) : (m.performAll done).CountersFit := by
  induction done generalizing m ops with
  | nil =>
      have hnow : m.Room (2 ^ 53) 0 := h.mono (Nat.zero_le _)
      exact ⟨hnow.cycles, hnow.frame⟩
  | cons op done ih =>
      obtain ⟨rest, rfl⟩ := hdone
      rw [List.cons_append, List.length_cons, Nat.succ_mul] at h
      exact ih (h.perform op) (List.prefix_append done rest)

theorem frame_stepCpu_le (m : Console) :
    m.stepCpu.2.ppu.beam.frame ≤ m.ppu.beam.frame := by
  have hdots := Ppu.frame_run_le m.cpuEvents m.ppu
  rw [← ppu_stepCpu, dots_eq_zero_of_isAccess m.isAccess_cpuEvents] at hdots
  exact hdots

theorem dotsChecked_eq {n : Nat} (h : m.memory.Sound) (hframe : m.ppu.beam.frame + n < 2 ^ 64) :
    dotsChecked n m = some (dots n m) := by
  induction n generalizing m with
  | zero => rfl
  | succ n ih =>
      have hdots := Ppu.frame_run_le (dotEvents 1 m) m.ppu
      rw [← ppu_dots, dots_dotEvents] at hdots
      have hnext : m.dot.ppu.beam.frame ≤ m.ppu.beam.frame + 1 := hdots
      rw [dotsChecked, dotChecked_eq h (by omega)]
      exact ih (sound_dot h) (by omega)

/-- **A step does not fail.** -/
theorem stepChecked_eq (h : m.memory.Sound) (hroom : m.Room (2 ^ 64) 1) :
    m.stepChecked = some m.step := by
  obtain ⟨hcycles, hframe⟩ := hroom
  have hcost : m.stepCpu.1 ≤ 18 := m.fst_step_le
  have hkept := m.frame_stepCpu_le
  have hmul : m.stepCpu.1 * dotsPerCycle < 2 ^ 32 := by
    simp only [dotsPerCycle]
    omega
  have hdots : dotsChecked (m.stepCpu.1 * dotsPerCycle) m.stepCpu.2 =
      some (dots (m.stepCpu.1 * dotsPerCycle) m.stepCpu.2) := by
    apply dotsChecked_eq (sound_stepCpu h)
    simp only [dotsPerCycle]
    omega
  simp only [stepChecked, stepCpuChecked_eq h hcycles, Option.bind_eq_bind, Option.bind_some,
    Checked.mul_eq hmul, hdots]
  rfl

/-! ## Frames -/

theorem position_step_ge (h : m.memory.Sound) :
    m.ppu.beam.position + 3 * m.step.1 ≤ m.step.2.ppu.beam.position := by
  have hbeam : m.ppu.beam.WellTimed := h.ppu.beam
  have hposition := Ppu.position_run (m.reset_notMem_opEvents .step) hbeam
  have hdots := m.dots_stepEvents
  rw [← ppu_perform] at hposition
  simp only [opEvents, dotsPerCycle] at hposition hdots
  have hstep : (m.perform .step).ppu.beam.position = m.step.2.ppu.beam.position := rfl
  omega

/-- As many steps as a frame has dots lead out of it. -/
theorem stepWhileFrameChecked_eq {frame n : Nat} {r : Nat × Console} (h : r.2.memory.Sound)
    (hroom : r.2.Room (2 ^ 64) n) (htotal : r.1 + 18 * n < 2 ^ 64)
    (hend : Beam.dotsPerFrame * (frame + 1) ≤ r.2.ppu.beam.position + 3 * n) :
    stepWhileFrameChecked frame n r = some (stepWhileFrame frame n r) := by
  induction n generalizing r with
  | zero =>
      have hbeam : r.2.ppu.beam.WellTimed := h.ppu.beam
      have hlt := hbeam.position_lt
      have hne : r.2.ppu.beam.frame ≠ frame := fun heq => by
        rw [heq] at hlt
        omega
      rw [stepWhileFrameChecked, if_neg hne, stepWhileFrame]
  | succ n ih =>
      rw [stepWhileFrameChecked, stepWhileFrame]
      split
      · have hone := r.2.one_le_fst_step
        have hcost := r.2.fst_step_le
        have hposition := position_step_ge h
        have hroom' : r.2.Room (2 ^ 64) 1 := hroom.mono (Nat.le_add_left 1 n)
        rw [stepChecked_eq h hroom']
        simp only [Option.bind_eq_bind, Option.bind_some,
          Checked.add_eq (by omega : r.1 + r.2.step.1 < 2 ^ 64)]
        exact ih (sound_perform h .step) hroom.step (by dsimp only; omega) (by dsimp only; omega)
      · rfl

/-- **A frame ends and does not fail.** -/
theorem stepFrameChecked_eq (h : m.memory.Sound) (hroom : m.Room (2 ^ 64) Beam.dotsPerFrame) :
    m.stepFrameChecked = some m.stepFrame := by
  have hposition : Beam.dotsPerFrame * m.ppu.beam.frame ≤ m.ppu.beam.position := by
    unfold Beam.position
    omega
  have hframe : dotsPerScanline * scanlinesPerFrame = Beam.dotsPerFrame := rfl
  apply stepWhileFrameChecked_eq h hroom
  · show 0 + 18 * (dotsPerScanline * scanlinesPerFrame) < 2 ^ 64
    decide
  · show Beam.dotsPerFrame * (m.ppu.beam.frame + 1) ≤
      m.ppu.beam.position + 3 * (dotsPerScanline * scanlinesPerFrame)
    rw [Nat.mul_add]
    omega

/-! ## Operations -/

theorem resetChecked_eq (h : m.memory.Sound) : m.resetChecked = some m.reset := by
  have hstart : Wired.Alike Guarded.Holds ({ m with board := Board.reset m.board } : Console).wired
      ⟨m.cpu, ⟨some ({ m with board := Board.reset m.board } : Console).memory⟩⟩ :=
    ⟨rfl, rfl, h.ppu, h.chr⟩
  obtain ⟨hcpu, hbus⟩ := Wired.reset_alike Guarded.holds_simulation hstart
  simp only [resetChecked, hbus.memory, ← hcpu, Option.bind_eq_bind, Option.bind_some]
  rfl

/-- **No operation fails.** -/
theorem performChecked_eq (h : m.memory.Sound) (hfit : m.CountersFit) (op : HostOp) :
    m.performChecked op = some (m.perform op) := by
  cases op with
  | step =>
      rw [performChecked, stepChecked_eq h (hfit.room (by decide))]
      rfl
  | stepFrame =>
      rw [performChecked, stepFrameChecked_eq h (hfit.room (Nat.le_refl _))]
      rfl
  | read addr =>
      rw [performChecked, CpuMemory.readChecked_eq h]
      rfl
  | write addr value =>
      rw [performChecked, CpuMemory.writeChecked_eq h]
      rfl
  | reset => exact resetChecked_eq h

/-- **No sequence of operations fails** whose counters stay below `2 ^ 53`. -/
theorem performAllChecked_eq {ops : List HostOp} (h : m.memory.Sound)
    (hfit : ∀ done, done <+: ops → (m.performAll done).CountersFit) :
    m.performAllChecked ops = some (m.performAll ops) := by
  induction ops generalizing m with
  | nil => rfl
  | cons op ops ih =>
      have hfirst : m.CountersFit := hfit [] List.nil_prefix
      have hrest : ∀ done, done <+: ops → ((m.perform op).performAll done).CountersFit :=
        fun done hdone => hfit (op :: done) ((List.prefix_cons_inj op).mpr hdone)
      rw [performAllChecked, List.foldlM_cons, performChecked_eq h hfirst op]
      exact ih (sound_perform h op) hrest

theorem reset_notMem_opsEvents (ops : List HostOp) (m : Console) :
    Ppu.Event.reset ∉ m.opsEvents ops := by
  induction ops generalizing m with
  | nil => exact List.not_mem_nil
  | cons op ops ih =>
      intro hmem
      rcases List.mem_append.mp hmem with hmem | hmem
      · exact m.reset_notMem_opEvents op hmem
      · exact ih _ hmem

end Machine

end Nes
