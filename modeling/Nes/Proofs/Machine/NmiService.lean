import Nes.Proofs.Machine.OneBank
import Nes.Proofs.Ppu.NmiQuiet

/-!
# Interrupts of the picture unit are served

The CPU has room for one waiting interrupt, which it enters at the first step that does not wait. An
interrupt of the picture unit that came while another one waits would be lost. None comes: between
the two, the CPU makes no access, so the picture unit is left alone, and what is left of a step and
of the longest wait is far shorter than the time to the next vertical blank (`Settled`). The
interrupt line of the board cannot take the place either, because it only fills an empty one. So
every interrupt that is passed on is entered exactly once (`nmi_served_once`).

An entry can be seen on the bus: three bytes are pushed, the vector is read, and an opcode is read
from where it leads. No step that enters no handler of this interrupt begins so (`entersNmi_iff`).
-/

set_option autoImplicit false

namespace Nes.Machine

open Wired (stackCell)

variable {μ : Type} [Board μ]

/-! ## Deliveries and entries -/

/-- Interrupts of the picture unit passed on in a number of dots. -/
def dotDeliveries : Nat → Machine μ → Nat
  | 0, _ => 0
  | n + 1, m => (if m.takesNmi then 1 else 0) + dotDeliveries n m.dot

/-- Dots of the next step. -/
def stepDots (m : Machine μ) : Nat := m.stepCpu.1 * dotsPerCycle

/-- Interrupts of the picture unit passed on in a number of steps. -/
def deliveries : Nat → Machine μ → Nat
  | 0, _ => 0
  | n + 1, m => dotDeliveries m.stepDots m.stepCpu.2 + deliveries n m.step.2

/-- Steps, out of a number of them, that enter a handler through the vector of the non-maskable
interrupt. -/
def nmiEntries : Nat → Machine μ → Nat
  | 0, _ => 0
  | n + 1, m => (if m.entered? = some nmiVector then 1 else 0) + nmiEntries n m.step.2

/-- The non-maskable interrupt waits to be entered, as a number. -/
def waitingNmi (m : Machine μ) : Nat := if m.cpu.interrupt = .nmi then 1 else 0

omit [Board μ] in
theorem entered?_eq_nmiVector_iff (m : Machine μ) :
    m.entered? = some nmiVector ↔ m.cpu.stall = 0 ∧ m.cpu.interrupt = .nmi := by
  show (if m.cpu.stall = 0 then m.cpu.interrupt.vector? else none) = some nmiVector ↔ _
  by_cases hstall : m.cpu.stall = 0
  · rw [if_pos hstall]
    cases m.cpu.interrupt with
    | none => simp [Interrupt.vector?]
    | nmi => simp [Interrupt.vector?, hstall]
    | irq => simp [Interrupt.vector?]; decide
  · rw [if_neg hstall]
    simp [hstall]

/-! ## What an entry is on the bus -/

/-- The accesses of the next step begin with the entry into the handler of the non-maskable
interrupt: the program counter and the status are pushed, the vector at FFFA is read, and the first
opcode is read from where it leads. -/
def EntersNmi (m : Machine μ) : Prop :=
  ∃ low high byte rest, m.exchanges =
    .write (stackCell m.cpu.sp) (m.cpu.pc >>> 8).toUInt8 ::
      .write (stackCell (m.cpu.sp - 1)) m.cpu.pc.toUInt8 ::
      .write (stackCell (m.cpu.sp - 2)) (m.cpu.p ||| Status.brk) ::
      .read 0xFFFA low :: .read 0xFFFB high :: .read (wordOf low high) byte :: rest

/-- The accesses of a step show whether it enters the handler: an instruction begins with a read,
and the other handler is behind another vector. -/
theorem entersNmi_iff (m : Machine μ) : m.EntersNmi ↔ m.entered? = some nmiVector := by
  rw [entered?_eq_nmiVector_iff, EntersNmi]
  by_cases hstall : m.cpu.stall = 0
  · have hbegins := begins_exchanges hstall
    generalize m.exchanges = exchanges at hbegins ⊢
    cases hbegins with
    | instruction hnone => simp [hnone]
    | @handler vector low high rest hvector =>
        cases hi : m.cpu.interrupt with
        | none => simp [hi, Interrupt.vector?] at hvector
        | nmi =>
            rw [hi] at hvector
            cases hvector
            exact iff_of_true ⟨low, high, _, rest, rfl⟩ ⟨hstall, rfl⟩
        | irq =>
            rw [hi] at hvector
            cases hvector
            refine iff_of_false ?_ (by simp)
            rintro ⟨_, _, _, _, h⟩
            simp [irqVector] at h
  · rw [exchanges_of_stalled hstall]
    simp [hstall]

/-! ## The invariant -/

/-- The longest wait of the CPU. -/
def maxStall : Nat := 514

/-- The most dots that are left when a step of the CPU has been made. -/
def maxStepDots : Nat := 18 * dotsPerCycle

/-- With a number of dots left of the step: the wait is bounded, every interrupt has been taken from
the picture unit, and while the non-maskable interrupt waits the picture unit delivers nothing, in
the dots left and in those of the wait. -/
structure Settled (left : Nat) (m : Machine μ) : Prop where
  stall_le : m.cpu.stall ≤ maxStall
  previous : m.ppu.nmi.previous = m.ppu.nmi.line
  taken : m.ppu.nmiPending = false
  quiet : m.cpu.interrupt = .nmi → m.ppu.Quiet (left + dotsPerCycle * m.cpu.stall)

/-- While the interrupt waits, the next dot passes no other one on. -/
theorem Settled.interrupt_ne {left : Nat} {m : Machine μ} (h : m.Settled (left + 1))
    (ht : m.takesNmi = true) : m.cpu.interrupt ≠ .nmi := by
  intro hnmi
  have hstays : m.takesNmi = m.ppu.nmiPending := (h.quiet hnmi).pending_step m.board
  rw [hstays, h.taken] at ht
  cases ht

/-- The invariant through a dot. An interrupt that is passed on with it is followed by quiet for
longer than the step and the wait can take. -/
theorem Settled.dot {left : Nat} {m : Machine μ} (h : m.Settled (left + 1))
    (hleft : left ≤ maxStepDots) : m.dot.Settled left := by
  have hppu := m.ppu_dot
  have hstall : m.dot.cpu.stall = m.cpu.stall := stall_dots 1 m
  have hbound : left + dotsPerCycle * m.cpu.stall ≤ Beam.dotsUntilVblank := by
    have hs := h.stall_le
    simp only [maxStall, maxStepDots, dotsPerCycle, Beam.dotsUntilVblank, dotsPerScanline,
      vblankLine] at *
    omega
  refine ⟨hstall ▸ h.stall_le, ?_, by rw [hppu]; rfl, fun hnmi => ?_⟩
  · rw [hppu]
    exact (Ppu.nmi_after h.previous (.dot m.board)).previous
  · rw [hppu, hstall]
    rcases m.interrupt_dot_eq_nmi_iff.mp hnmi with htaken | hwaits
    · exact (Ppu.quiet_of_pending_step h.taken h.previous htaken).mono hbound
    · have hq := h.quiet hwaits
      rw [Nat.add_right_comm] at hq
      exact hq.step m.board hbound

theorem Settled.dots {n left : Nat} {m : Machine μ} (h : m.Settled (n + left))
    (hn : n + left ≤ maxStepDots) : (Machine.dots n m).Settled left := by
  induction n generalizing m with
  | zero => exact (Nat.zero_add left) ▸ h
  | succ n ih =>
      rw [Nat.add_right_comm] at h hn
      exact ih (h.dot (Nat.le_of_succ_le hn)) (Nat.le_of_succ_le hn)

theorem stepDots_le (m : Machine μ) : m.stepDots ≤ maxStepDots := by
  by_cases h : m.cpu.stall = 0
  · have hcost := (stepCpu_of_not_stalled h).1
    have hle := m.cost_le
    exact Nat.mul_le_mul_right dotsPerCycle (hcost ▸ hle)
  · have hone := (stepCpu_of_stalled h).1
    rw [stepDots, hone]
    decide

/-- Accesses of the CPU deliver nothing. -/
theorem latch_run_of_isAccess {es : List (Ppu.Event μ)} (hes : ∀ e ∈ es, e.isAccess) {p : Ppu}
    (hprevious : p.nmi.previous = p.nmi.line) (hpending : p.nmiPending = false) :
    (Ppu.run es p).nmi.previous = (Ppu.run es p).nmi.line ∧
      (Ppu.run es p).nmiPending = false := by
  refine Ppu.run_invariant (P := fun q => q.nmi.previous = q.nmi.line ∧ q.nmiPending = false)
    ⟨hprevious, hpending⟩ fun e he q hq => ⟨(Ppu.nmi_after hq.1 e).previous, ?_⟩
  have hdot : e.isDot = false := by
    have ha := hes e he
    cases e <;> simp_all [Ppu.Event.isAccess, Ppu.Event.isDot]
  refine Bool.eq_false_iff.mpr fun hp => ?_
  have hp' := Ppu.pending_of_pending_after hdot hp
  rw [hq.2] at hp'
  cases hp'

/-- The invariant through a step of the CPU: an instruction enters the interrupt that waits, and a
cycle of waiting makes no access and shortens the wait. -/
theorem Settled.stepCpu {m : Machine μ} (h : m.Settled 0) :
    m.stepCpu.2.Settled m.stepDots := by
  by_cases hstall : m.cpu.stall = 0
  · obtain ⟨-, htiming⟩ := stepCpu_of_not_stalled hstall
    obtain ⟨hprevious, htaken⟩ :=
      latch_run_of_isAccess m.isAccess_cpuEvents h.previous h.taken
    rw [← ppu_stepCpu] at hprevious htaken
    have hnone : m.stepCpu.2.cpu.interrupt = .none := congrArg Cpu.Timing.interrupt htiming
    have hwait : m.stepCpu.2.cpu.stall =
        if m.transfers then stallCycles (m.cpu.cycles + m.cost) else 0 :=
      congrArg Cpu.Timing.stall htiming
    refine ⟨?_, hprevious, htaken, fun hnmi => ?_⟩
    · rw [hwait]
      split
      · exact Wired.stallCycles_le _
      · exact Nat.zero_le _
    · rw [hnone] at hnmi
      cases hnmi
  · obtain ⟨hone, hcpu, hppu⟩ := stepCpu_of_stalled hstall
    have hle := h.stall_le
    refine ⟨?_, hppu ▸ h.previous, hppu ▸ h.taken, fun hnmi => ?_⟩
    · rw [hcpu]
      exact Nat.le_trans (Nat.sub_le _ _) hle
    · rw [hcpu] at hnmi ⊢
      have hdots : m.stepDots + dotsPerCycle * (m.cpu.stall - 1) =
          0 + dotsPerCycle * m.cpu.stall := by
        rw [stepDots, hone]
        simp only [dotsPerCycle]
        omega
      rw [hppu, hdots]
      exact h.quiet hnmi

/-- The invariant at each dot of a step. -/
theorem Settled.stepCpu_dots {m : Machine μ} (h : m.Settled 0) {j : Nat} (hj : j ≤ m.stepDots) :
    (Machine.dots j m.stepCpu.2).Settled (m.stepDots - j) := by
  have hsplit : j + (m.stepDots - j) = m.stepDots := Nat.add_sub_cancel' hj
  refine Settled.dots ?_ ?_
  · rw [hsplit]
    exact h.stepCpu
  · rw [hsplit]
    exact m.stepDots_le

theorem Settled.step {m : Machine μ} (h : m.Settled 0) : m.step.2.Settled 0 := by
  have hend := h.stepCpu_dots (Nat.le_refl m.stepDots)
  rw [Nat.sub_self] at hend
  exact hend

theorem Settled.afterSteps {m : Machine μ} (h : m.Settled 0) (n : Nat) :
    (m.afterSteps n).Settled 0 :=
  afterSteps_invariant h (fun _ hm => hm.step) n

/-! ## Counting -/

/-- An interrupt that is passed on waits afterwards and did not wait before. -/
theorem waitingNmi_dots {n : Nat} {m : Machine μ} (h : m.Settled n) (hn : n ≤ maxStepDots) :
    (dots n m).waitingNmi = m.waitingNmi + dotDeliveries n m := by
  induction n generalizing m with
  | zero => rfl
  | succ n ih =>
      have hdot : m.dot.waitingNmi = m.waitingNmi + if m.takesNmi then 1 else 0 := by
        simp only [waitingNmi, m.interrupt_dot_eq_nmi_iff]
        by_cases ht : m.takesNmi = true
        · simp [ht, h.interrupt_ne ht]
        · simp [ht]
      rw [dots, ih (h.dot (Nat.le_of_succ_le hn)) (Nat.le_of_succ_le hn), hdot, dotDeliveries,
        Nat.add_assoc]

/-- A step of the CPU enters the interrupt, or leaves it waiting. -/
theorem waitingNmi_stepCpu (m : Machine μ) :
    (if m.entered? = some nmiVector then 1 else 0) + m.stepCpu.2.waitingNmi = m.waitingNmi := by
  simp only [waitingNmi, entered?_eq_nmiVector_iff]
  by_cases hstall : m.cpu.stall = 0
  · have hnone : m.stepCpu.2.cpu.interrupt = .none :=
      congrArg Cpu.Timing.interrupt (stepCpu_of_not_stalled hstall).2
    simp [hstall, hnone]
  · rw [(stepCpu_of_stalled hstall).2.1]
    simp [hstall]

/-- Over a number of steps, every interrupt that is passed on is entered or waits. -/
theorem nmiEntries_add_waitingNmi (n : Nat) {m : Machine μ} (h : m.Settled 0) :
    nmiEntries n m + (m.afterSteps n).waitingNmi = m.waitingNmi + deliveries n m := by
  induction n generalizing m with
  | zero => exact Nat.add_comm _ _
  | succ n ih =>
      have hrest := ih h.step
      have hcpu := m.waitingNmi_stepCpu
      have hdots : m.step.2.waitingNmi =
          m.stepCpu.2.waitingNmi + dotDeliveries m.stepDots m.stepCpu.2 :=
        waitingNmi_dots h.stepCpu m.stepDots_le
      rw [nmiEntries, deliveries, afterSteps_succ]
      omega

/-! ## Service -/

/-- While the CPU waits, so does the interrupt. -/
theorem interrupt_step_of_stalled {m : Machine μ} (hnmi : m.cpu.interrupt = .nmi)
    (hstall : m.cpu.stall ≠ 0) :
    m.step.2.cpu.interrupt = .nmi ∧ m.step.2.cpu.stall = m.cpu.stall - 1 := by
  obtain ⟨-, hcpu, -⟩ := stepCpu_of_stalled hstall
  constructor
  · refine interrupt_dots_of_eq_nmi _ ?_
    rw [hcpu]
    exact hnmi
  · rw [stall_step, hcpu]

/-- An interrupt that waits is entered by the first step that does not wait. -/
theorem entered?_afterSteps {stall : Nat} {m : Machine μ} (hnmi : m.cpu.interrupt = .nmi)
    (hstall : m.cpu.stall = stall) :
    (∀ i < stall, (m.afterSteps i).cpu.stall ≠ 0) ∧
      (m.afterSteps stall).entered? = some nmiVector := by
  induction stall generalizing m with
  | zero =>
      exact ⟨fun i hi => absurd hi (Nat.not_lt_zero i),
        m.entered?_eq_nmiVector_iff.mpr ⟨hstall, hnmi⟩⟩
  | succ stall ih =>
      have hpos : m.cpu.stall ≠ 0 := by omega
      obtain ⟨hnmi', hstall'⟩ := interrupt_step_of_stalled hnmi hpos
      obtain ⟨hwait, hentry⟩ := ih hnmi' (by omega)
      refine ⟨fun i hi => ?_, ?_⟩
      · cases i with
        | zero => exact hpos
        | succ i =>
            rw [afterSteps_succ]
            exact hwait i (Nat.lt_of_succ_lt_succ hi)
      · rw [afterSteps_succ]
        exact hentry

/-- A reset settles a machine from whose picture unit every interrupt has been taken. -/
theorem settled_reset {m : Machine μ} (hprevious : m.ppu.nmi.previous = m.ppu.nmi.line)
    (htaken : m.ppu.nmiPending = false) : m.reset.Settled 0 := by
  have hnone : m.reset.cpu.interrupt = .none := congrArg Cpu.Timing.interrupt m.timing_reset
  have hstall : m.reset.cpu.stall = 0 := congrArg Cpu.Timing.stall m.timing_reset
  refine ⟨?_, ?_, ?_, fun hnmi => ?_⟩
  · rw [hstall]
    exact Nat.zero_le _
  · rw [ppu_reset]
    exact hprevious
  · rw [ppu_reset]
    exact htaken
  · rw [hnone] at hnmi
    cases hnmi

/-- An interrupt that is passed on at a dot of a step waits at the end of the step. -/
theorem interrupt_step_of_takesNmi {m : Machine μ} {j : Nat} (hj : j < m.stepDots)
    (ht : (dots j m.stepCpu.2).takesNmi = true) : m.step.2.cpu.interrupt = .nmi := by
  have hsplit : m.stepDots = j + 1 + (m.stepDots - (j + 1)) := (Nat.add_sub_cancel' hj).symm
  have hafter : (dots (j + 1) m.stepCpu.2).cpu.interrupt = .nmi := by
    rw [dots_add]
    exact (dots j m.stepCpu.2).interrupt_dot_eq_nmi_iff.mpr (.inl ht)
  show (dots m.stepDots m.stepCpu.2).cpu.interrupt = .nmi
  rw [hsplit, dots_add]
  exact interrupt_dots_of_eq_nmi _ hafter

/-- **Every interrupt of the picture unit is served exactly once.** From a reset on, with any
program and any board, whatever its interrupt line does: the steps that enter through the vector of
the non-maskable interrupt are as many as the interrupts passed on, less the one that still waits.
A step is one of these if and only if its accesses begin with the entry. An interrupt is never
passed on while another one waits, and it is entered by the first step after the one that passes it
on at which the CPU has nothing to wait for. The picture unit may have gone through anything before
the reset; what it had raised has been taken from it, as after every dot. -/
theorem nmi_served_once (es : List (Ppu.Event μ)) (cpu : Cpu) (ram : Ram) (board : μ)
    (journal : Journal) :
    let m := reset { cpu, ram, ppu := Ppu.run (es ++ [.takeNmi]) .powerOn, board, journal }
    ∀ n : Nat,
      nmiEntries n m + (if (m.afterSteps n).cpu.interrupt = .nmi then 1 else 0) = deliveries n m ∧
      ((m.afterSteps n).entered? = some nmiVector ↔ (m.afterSteps n).EntersNmi) ∧
      ∀ j < (m.afterSteps n).stepDots,
        (dots j (m.afterSteps n).stepCpu.2).takesNmi = true →
          (dots j (m.afterSteps n).stepCpu.2).cpu.interrupt ≠ .nmi ∧
          ∃ wait ≤ 514, (∀ i < wait, (m.afterSteps (n + 1 + i)).cpu.stall ≠ 0) ∧
            (m.afterSteps (n + 1 + wait)).cpu.stall = 0 ∧
            (m.afterSteps (n + 1 + wait)).entered? = some nmiVector := by
  intro m n
  have hlatched : (Ppu.run (es ++ [.takeNmi]) .powerOn).Latched :=
    Ppu.run_invariant Ppu.latched_powerOn fun e _ _ hq => Ppu.latched_after hq e
  have htaken : (Ppu.run (es ++ [Ppu.Event.takeNmi]) .powerOn).nmiPending = false := by
    rw [Ppu.run_concat]
    rfl
  have hsettled : m.Settled 0 := settled_reset hlatched.previous htaken
  have hnone : m.waitingNmi = 0 := by
    have hempty : m.cpu.interrupt = .none := congrArg Cpu.Timing.interrupt (timing_reset _)
    rw [waitingNmi, hempty]
    rfl
  refine ⟨?_, (entersNmi_iff _).symm, fun j hj ht =>
    ⟨?_, (m.afterSteps n).step.2.cpu.stall, ?_, ?_⟩⟩
  · have hcount := nmiEntries_add_waitingNmi n hsettled
    rw [hnone, Nat.zero_add] at hcount
    exact hcount
  · have hdot := (hsettled.afterSteps n).stepCpu_dots (Nat.le_of_lt hj)
    rw [Nat.sub_eq_of_eq_add' (show (m.afterSteps n).stepDots =
      j + (((m.afterSteps n).stepDots - (j + 1)) + 1) by omega)] at hdot
    exact hdot.interrupt_ne ht
  · exact ((hsettled.afterSteps n).step).stall_le
  · obtain ⟨hwait, hentry⟩ := entered?_afterSteps (interrupt_step_of_takesNmi hj ht) rfl
    simp only [afterSteps_succ_add]
    exact ⟨hwait, ((entered?_eq_nmiVector_iff _).mp hentry).1, hentry⟩

/-- The first interrupt after power-on, which comes at the seventeenth dot. Sixteen dots are run
before the reset, and the next one belongs to the first instruction after it. -/
theorem nmi_served_once_idleProgram :
    let board := UxRom.ofBank idleProgram #[]
    let es : List (Ppu.Event UxRom) := .write board 0x2000 0x80 :: .replicate 16 (.dot board)
    let m : Console := reset { ppu := Ppu.run (es ++ [.takeNmi]) .powerOn, board }
    0 < m.stepDots ∧ m.stepCpu.2.takesNmi = true ∧
      ∃ wait ≤ 514, (m.afterSteps (1 + wait)).entered? = some nmiVector ∧
        (m.afterSteps (1 + wait)).EntersNmi := by
  intro board es m
  have hnmi := Ppu.nmi_sixteen_dots board
  have hprg : board.cartridge.prg = Array.ofFn idleProgram :=
    Cartridge.prg_ofBank idleProgram #[]
  let before : Console := { ppu := Ppu.run (es ++ [.takeNmi]) .powerOn, board }
  have hppu : m.stepCpu.2.ppu = (Ppu.run es .powerOn).takeNmi :=
    (ppu_stepCpu_idleProgram (m := before) hprg).trans (Ppu.run_concat es .takeNmi .powerOn)
  have htakes : m.stepCpu.2.takesNmi = true := by
    rw [takesNmi, Ppu.pending_step, hppu]
    show (false || ((Ppu.run es .powerOn).nmi.delay == 1 && (Ppu.run es .powerOn).nmi.line)) = _
    rw [hnmi]
    rfl
  have hdots : 0 < m.stepDots := Nat.mul_pos m.one_le_fst_step (by decide)
  have hserved := nmi_served_once es .powerOn .blank board {}
  obtain ⟨-, -, hdelivered⟩ := hserved 0
  obtain ⟨-, wait, hwait, -, -, hentry⟩ := hdelivered 0 hdots htakes
  obtain ⟨-, hshown, -⟩ := hserved (1 + wait)
  exact ⟨hdots, htakes, wait, hwait, hentry, hshown.mp hentry⟩

end Nes.Machine
