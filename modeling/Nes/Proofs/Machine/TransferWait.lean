import Mathlib.Data.List.Induction
import Mathlib.Logic.Function.Iterate
import Nes.Proofs.Machine.CycleCount
import Nes.Proofs.Machine.IrqService
import Nes.Proofs.Machine.NmiService

/-!
# Waiting for a transfer

An instruction that writes to the port of sprite memory makes the CPU wait. While it waits, every
step is one cycle and three dots, and nothing happens but what dots do: the picture unit draws, the
board is told, and interrupts are passed on. `Waited` says what is left of a machine by such a time,
and times are put together by `Waited.trans`.

An interrupt that is passed on in the meantime stays until the wait is over, unless one of the
picture unit takes the place of one of the line (`Cpu.latched`). The step after the last cycle of
waiting begins with it, or else with the instruction behind the one that has started the transfer
(`AwaitsTransfer`).
-/

set_option autoImplicit false

namespace Nes

variable {μ : Type} [Board μ]

/-! ## Interrupts that are passed on -/

namespace Cpu

/-- The interrupt that waits after a time without instructions, by whether the picture unit has
delivered one in it and whether the line has been held down. -/
def latched (c : Cpu) (delivered held : Bool) : Interrupt :=
  if c.interrupt = .nmi ∨ delivered = true then .nmi
  else if c.interrupt = .irq ∨ (c.flag Status.irqDisable = false ∧ held = true) then .irq
  else .none

theorem latched_false (c : Cpu) : c.latched false false = c.interrupt := by
  unfold latched
  cases c.interrupt <;> simp

/-- Two times after another are one. -/
theorem latched_latched {c c' : Cpu} {d h : Bool} (hp : c'.p = c.p)
    (hinterrupt : c'.interrupt = c.latched d h) (d' h' : Bool) :
    c'.latched d' h' = c.latched (d || d') (h || h') := by
  have hflag : c'.flag Status.irqDisable = c.flag Status.irqDisable := by
    rw [flag, flag, hp]
  unfold latched at hinterrupt ⊢
  rw [hinterrupt, hflag]
  cases c.interrupt <;> cases d <;> cases d' <;> cases h <;> cases h' <;>
    cases c.flag Status.irqDisable <;> simp

/-- The picture unit comes before the line. -/
theorem latched_trigger (c : Cpu) (delivered held : Bool) :
    (let c' := if delivered then c.triggerNmi else c
     if held then c'.triggerIrq else c') = { c with interrupt := c.latched delivered held } := by
  cases delivered with
  | true =>
      have hnmi : c.latched true held = .nmi := if_pos (.inr rfl)
      rw [hnmi]
      cases held <;> simp [triggerNmi, triggerIrq]
  | false =>
      cases held with
      | false => rw [latched_false]; rfl
      | true =>
          show c.triggerIrq = _
          by_cases hfree : c.flag Status.irqDisable = false ∧ c.interrupt = .none
          · have hirq : c.latched false true = .irq := by simp [latched, hfree]
            rw [hirq, triggerIrq, if_pos hfree]
          · have hkept : c.latched false true = c.interrupt := by
              unfold latched
              cases hi : c.interrupt <;> simp_all
            rw [hkept, triggerIrq, if_neg hfree]

end Cpu

/-- The interrupt line is held down at one of the next dots. -/
def lineHeld : Nat → μ → Bool
  | 0, _ => false
  | n + 1, board => Board.irqPending (Board.step board) || lineHeld n (Board.step board)

theorem lineHeld_add (n k : Nat) (board : μ) :
    lineHeld (n + k) board = (lineHeld n board || lineHeld k (Board.step^[n] board)) := by
  induction n generalizing board with
  | zero =>
      rw [Nat.zero_add]
      rfl
  | succ n ih =>
      rw [Nat.succ_add, lineHeld, ih, lineHeld, Bool.or_assoc, Function.iterate_succ_apply]

/-! ## Time without instructions -/

/-- What is left of a machine by some cycles of waiting and some dots: the wait is shorter, the
board has been told of the dots, and interrupts have been passed on. -/
structure Waited (cycles dots : Nat) (delivered : Bool) (m m' : Machine μ) : Prop where
  cpu : m'.cpu =
    { m.cpu with
      stall := m.cpu.stall - cycles
      interrupt := m.cpu.latched delivered (lineHeld dots m.board) }
  ram : m'.ram = m.ram
  oam : m'.ppu.oam = m.ppu.oam
  board : m'.board = Board.step^[dots] m.board

theorem Waited.refl (m : Machine μ) : Waited 0 0 false m m := by
  refine ⟨?_, rfl, rfl, rfl⟩
  rw [lineHeld, Cpu.latched_false]
  rfl

theorem Waited.trans {k k' n n' : Nat} {d d' : Bool} {m m' m'' : Machine μ}
    (h : Waited k n d m m') (h' : Waited k' n' d' m' m'') :
    Waited (k + k') (n + n') (d || d') m m'' := by
  have hlatched : m'.cpu.latched d' (lineHeld n' m'.board) =
      m.cpu.latched (d || d') (lineHeld (n + n') m.board) := by
    rw [lineHeld_add, ← h.board]
    refine Cpu.latched_latched ?_ ?_ d' _
    · rw [h.cpu]
    · rw [h.cpu]
  refine ⟨?_, h'.ram.trans h.ram, h'.oam.trans h.oam, ?_⟩
  · rw [h'.cpu, hlatched, h.cpu, ← Nat.sub_sub]
  · rw [h'.board, h.board, ← Function.iterate_add_apply, Nat.add_comm]

namespace Machine

theorem waited_dot (m : Machine μ) : Waited 0 1 m.takesNmi m m.dot := by
  refine ⟨?_, m.ram_dot, ?_, m.board_dot⟩
  · rw [cpu_dot, Cpu.latched_trigger]
    show _ = ({ m.cpu with interrupt := m.cpu.latched m.takesNmi (_ || false) } : Cpu)
    rw [Bool.or_false]
  · obtain ⟨_, _, _, _, _, _, _, _, _, hstep⟩ := m.ppu.step_shape m.board
    rw [ppu_dot, hstep]
    rfl

/-- A number of dots. -/
theorem waited_dots (n : Nat) (m : Machine μ) :
    Waited 0 n (decide (dotDeliveries n m ≠ 0)) m (dots n m) := by
  induction n generalizing m with
  | zero => exact .refl m
  | succ n ih =>
      have hboth := m.waited_dot.trans (ih m.dot)
      have hsum : (m.takesNmi || decide (dotDeliveries n m.dot ≠ 0)) =
          decide (dotDeliveries (n + 1) m ≠ 0) := by
        rw [dotDeliveries]
        cases m.takesNmi <;> simp
      rw [hsum, Nat.add_comm 1 n] at hboth
      exact hboth

/-! ## Steps of waiting -/

/-- A CPU that waits leaves nothing to trace. -/
theorem traceInstruction_of_stalled {m : Machine μ} (h : m.cpu.stall ≠ 0) :
    m.traceInstruction = m := by
  have hnone : m.wired.upcoming? = none := if_neg h
  unfold traceInstruction
  rw [hnone]
  exact ite_self m

/-- The state behind a cycle of waiting. -/
def cycleWaited (m : Machine μ) : Machine μ :=
  { m with cpu := { m.cpu with stall := m.cpu.stall - 1 } }

theorem stepCpu_eq_of_stalled {m : Machine μ} (h : m.cpu.stall ≠ 0) :
    m.stepCpu = (1, m.cycleWaited) := by
  rw [stepCpu, traceInstruction_of_stalled h, Wired.step_of_stalled (s := m.wired) h]
  rfl

/-- A step that waits is one cycle and three dots. -/
theorem step_of_stalled {m : Machine μ} (h : m.cpu.stall ≠ 0) :
    m.step = (1, dots 3 m.cycleWaited) := by
  rw [step, stepCpu_eq_of_stalled h]
  rfl

theorem waited_step {m : Machine μ} (h : m.cpu.stall ≠ 0) :
    Waited 1 3 (decide (dotDeliveries m.stepDots m.stepCpu.2 ≠ 0)) m m.step.2 := by
  have hfirst : Waited 1 0 false m m.cycleWaited := by
    refine ⟨?_, rfl, rfl, rfl⟩
    rw [lineHeld, Cpu.latched_false]
    rfl
  have hboth := hfirst.trans (waited_dots 3 m.cycleWaited)
  rw [Bool.false_or] at hboth
  rw [step_of_stalled h, stepDots, stepCpu_eq_of_stalled h]
  exact hboth

/-- **The wait.** Up to its end, some steps are as many cycles of waiting. -/
theorem waited_afterSteps {n : Nat} {m : Machine μ} (h : n ≤ m.cpu.stall) :
    Waited n (3 * n) (decide (deliveries n m ≠ 0)) m (m.afterSteps n) := by
  induction n generalizing m with
  | zero => exact .refl m
  | succ n ih =>
      have hstall : m.cpu.stall ≠ 0 := Nat.ne_of_gt (Nat.lt_of_lt_of_le n.succ_pos h)
      have hfirst := waited_step hstall
      have hrest : n ≤ m.step.2.cpu.stall := by
        rw [hfirst.cpu]
        exact Nat.le_sub_of_add_le h
      have hboth := hfirst.trans (ih hrest)
      have hsum : (decide (dotDeliveries m.stepDots m.stepCpu.2 ≠ 0) ||
          decide (deliveries n m.step.2 ≠ 0)) = decide (deliveries (n + 1) m ≠ 0) := by
        rw [deliveries, ← Bool.decide_or]
        exact decide_eq_decide.mpr (by omega)
      rw [hsum, Nat.add_comm 1 n, show 3 + 3 * n = 3 * (n + 1) by omega] at hboth
      rw [afterSteps_succ]
      exact hboth

/-! ## The instruction before the wait -/

/-- The last instruction that was run, in the state `s`, has written to the port, and the CPU of `m`
is to wait on behind it. Some cycles of the wait are over. -/
structure AwaitsTransfer (s m : Machine μ) (waited : Nat) : Prop where
  runs : s.cpu.stall = 0
  stores : ∃ page, .write oamDmaAddress page ∈ s.exchanges
  pc : m.cpu.pc = s.nextInstruction.next
  charged : m.cpu.stall + waited = stallCycles m.cpu.cycles

/-- A CPU that has to wait after its instruction has started a transfer with it. -/
theorem awaitsTransfer_stepCpu {m : Machine μ} (hstall : m.cpu.stall = 0)
    (hwaits : m.stepCpu.2.cpu.stall ≠ 0) : AwaitsTransfer m m.stepCpu.2 0 := by
  obtain ⟨-, htiming⟩ := stepCpu_of_not_stalled hstall
  simp only [Cpu.timing, Cpu.Timing.mk.injEq] at htiming
  obtain ⟨hcycles, hcharge, -⟩ := htiming
  have htransfers : m.transfers = true := by
    refine Decidable.byContradiction fun hnot => hwaits ?_
    rw [hcharge, if_neg hnot]
  have hstall' : m.traceInstruction.wired.cpu.stall = 0 := by
    show m.traceInstruction.cpu.stall = 0
    rw [cpu_traceInstruction, hstall]
  obtain ⟨hstore, hpc⟩ := Wired.store_of_transfers hstall' rfl htransfers
  refine ⟨hstall, hstore, ?_, ?_⟩
  · show m.traceInstruction.wired.step.2.cpu.pc = _
    rw [(Wired.step_of_not_stalled hstall').2, hpc]
    rfl
  · rw [hcharge, if_pos htransfers, hcycles, Nat.add_zero]

/-- Whatever leaves the CPU waiting leaves it waiting for the same transfer. -/
theorem AwaitsTransfer.of_cpu {s m m' : Machine μ} {waited k : Nat} {interrupt : Interrupt}
    (h : AwaitsTransfer s m waited) (hk : k ≤ m.cpu.stall)
    (hcpu : m'.cpu = { m.cpu with stall := m.cpu.stall - k, interrupt := interrupt }) :
    AwaitsTransfer s m' (waited + k) := by
  refine ⟨h.runs, h.stores, ?_, ?_⟩
  · rw [hcpu]
    exact h.pc
  · rw [hcpu]
    have hcharged := h.charged
    show m.cpu.stall - k + (waited + k) = stallCycles m.cpu.cycles
    omega

/-- An action other than a reset goes on with the wait. -/
theorem AwaitsTransfer.act {s m : Machine μ} {waited : Nat} (h : AwaitsTransfer s m waited)
    (hwaits : m.cpu.stall ≠ 0) {a : Action} (ha : a ≠ .reset) :
    AwaitsTransfer s (m.act a) (waited + [a].count .stepCpu) := by
  cases a with
  | stepCpu =>
      have hcpu : (m.act .stepCpu).cpu =
          { m.cpu with stall := m.cpu.stall - 1, interrupt := m.cpu.interrupt } := by
        rw [Machine.act, stepCpu_eq_of_stalled hwaits]
        rfl
      exact h.of_cpu (Nat.pos_of_ne_zero hwaits) hcpu
  | dot => exact h.of_cpu (Nat.zero_le _) m.waited_dot.cpu
  | read | write => exact ⟨h.runs, h.stores, h.pc, h.charged⟩
  | reset => exact absurd rfl ha

/-- Only a step of the CPU makes it wait. -/
theorem stall_act {m : Machine μ} (h : m.cpu.stall = 0) {a : Action} (ha : a ≠ .stepCpu) :
    (m.act a).cpu.stall = 0 := by
  cases a with
  | stepCpu => exact absurd rfl ha
  | dot =>
      rw [act, m.waited_dot.cpu]
      exact h
  | read | write => exact h
  | reset => exact congrArg Cpu.Timing.stall m.timing_reset

/-- **Why the CPU waits.** After any actions, a CPU that waits does so for the transfer that its
last instruction has started, and all steps since were cycles of the wait. -/
theorem exists_awaitsTransfer {first : Machine μ} (hfirst : first.cpu.stall = 0) (as : List Action)
    (hstall : (first.actAll as).cpu.stall ≠ 0) :
    ∃ before after, as = before ++ .stepCpu :: after ∧ .reset ∉ after ∧
      AwaitsTransfer (first.actAll before) (first.actAll as) (after.count .stepCpu) := by
  induction as using List.reverseRecOn with
  | nil => exact absurd hfirst hstall
  | append_singleton as a ih =>
      have hact : first.actAll (as ++ [a]) = (first.actAll as).act a := actAll_append first as [a]
      rw [hact] at hstall ⊢
      -- the last action has started the wait, or goes on with one
      by_cases hwaits : (first.actAll as).cpu.stall = 0
      · have ha : a = .stepCpu := by_contra fun hne => hstall (stall_act hwaits hne)
        subst ha
        exact ⟨as, [], rfl, List.not_mem_nil, awaitsTransfer_stepCpu hwaits hstall⟩
      · have ha : a ≠ .reset := by
          rintro rfl
          exact hstall (congrArg Cpu.Timing.stall (timing_reset _))
        obtain ⟨before, after, hsplit, hnone, hawaits⟩ := ih hwaits
        refine ⟨before, after ++ [a], ?_, ?_, ?_⟩
        · rw [hsplit, List.append_assoc, List.cons_append]
        · simpa [hnone] using ha.symm
        · rw [List.count_append]
          exact hawaits.act hwaits ha

/-! ## The law of the wait -/

/-- What a machine does from a state in which the CPU may have to wait. -/
structure TransferWait (first m : Machine μ) : Prop where
  stall_le : m.cpu.stall ≤ 514
  /-- If it has to, its last instruction has written to the port. -/
  since : m.cpu.stall ≠ 0 → ∃ before after, m = first.actAll (before ++ .stepCpu :: after) ∧
    .reset ∉ after ∧ AwaitsTransfer (first.actAll before) m (after.count .stepCpu)
  /-- Until the wait is over, a step makes no access. It is one cycle and three dots. -/
  idle : ∀ n < m.cpu.stall,
    (m.afterSteps n).exchanges = [] ∧
      (m.afterSteps n).step = (1, dots 3 (m.afterSteps n).cycleWaited)
  /-- All registers, the cycle counter, work RAM and sprite memory stay. Of the board only what
  counts dots can change. Interrupts are passed on. -/
  waited : ∀ n ≤ m.cpu.stall,
    Waited n (3 * n) (decide (deliveries n m ≠ 0)) m (m.afterSteps n)
  /-- The step after the wait begins with the interrupt that waits then, or with the instruction at
  the program counter, which is still the one behind the store. -/
  resumes :
    let interrupt := m.cpu.latched (decide (deliveries m.cpu.stall m ≠ 0))
      (lineHeld (3 * m.cpu.stall) m.board)
    (m.afterSteps m.cpu.stall).cpu = { m.cpu with stall := 0, interrupt := interrupt } ∧
      Begins { m.cpu with stall := 0, interrupt := interrupt }
        (m.afterSteps m.cpu.stall).nextInstruction.byte (m.afterSteps m.cpu.stall).exchanges

/-- The law of the wait holds after any actions of a machine that did not have to wait at first. -/
theorem transferWait_actAll {first : Machine μ} (hfirst : first.cpu.stall = 0) (as : List Action) :
    TransferWait first (first.actAll as) := by
  have hsince := exists_awaitsTransfer hfirst as
  generalize hm : first.actAll as = m at hsince ⊢
  have hwaited : ∀ n ≤ m.cpu.stall, Waited n (3 * n) (decide (deliveries n m ≠ 0)) m
      (m.afterSteps n) := fun n hn => waited_afterSteps hn
  have hstall : ∀ n ≤ m.cpu.stall, (m.afterSteps n).cpu.stall = m.cpu.stall - n := by
    intro n hn
    rw [(hwaited n hn).cpu]
  constructor
  case stall_le =>
    by_cases h : m.cpu.stall = 0
    · rw [h]
      exact Nat.zero_le _
    · obtain ⟨_, _, -, -, hawaits⟩ := hsince h
      exact Nat.le_trans (Nat.le.intro hawaits.charged) (Wired.stallCycles_le _)
  case since =>
    intro h
    obtain ⟨before, after, rfl, hnone, hawaits⟩ := hsince h
    exact ⟨before, after, hm.symm, hnone, hawaits⟩
  case idle =>
    intro n hn
    have hwaits : (m.afterSteps n).cpu.stall ≠ 0 := by
      rw [hstall n (Nat.le_of_lt hn)]
      exact Nat.sub_ne_zero_of_lt hn
    exact ⟨exchanges_of_stalled hwaits, step_of_stalled hwaits⟩
  case waited => exact hwaited
  case resumes =>
    intro interrupt
    have hover : (m.afterSteps m.cpu.stall).cpu =
        { m.cpu with stall := 0, interrupt := interrupt } := by
      rw [(hwaited _ (Nat.le_refl _)).cpu, Nat.sub_self]
    have hbegins := begins_exchanges (congrArg Cpu.stall hover)
    rw [hover] at hbegins
    exact ⟨hover, hbegins⟩

theorem transferWait_performAll {first : Machine μ} (hfirst : first.cpu.stall = 0)
    (ops : List HostOp) : TransferWait first (first.performAll ops) := by
  obtain ⟨as, has⟩ := first.exists_actions_performAll ops
  rw [has]
  exact transferWait_actAll hfirst as

/-- **Waiting for a transfer.** Whatever a host does with a machine, with any program and any board,
whatever its interrupt line does: the CPU waits for the transfer that its last instruction has
started, for at most 514 cycles, in which nothing is accessed and all registers and memories stay;
then it enters the interrupt that waits, or goes on behind that instruction. On a console the board
stays as well, with save memory, picture memory and the selected bank. -/
theorem transfer_wait :
    (∀ (board : μ) (journal : Journal) (ops : List HostOp),
      let first : Machine μ := reset { board, journal }
      TransferWait first (first.performAll ops)) ∧
    ∀ {c : Cartridge} {journal : Journal} {first : Console},
      Console.ofCartridge c journal = .ok first → ∀ ops : List HostOp,
        let m := first.performAll ops
        TransferWait first m ∧ ∀ n ≤ m.cpu.stall, (m.afterSteps n).board = m.board := by
  refine ⟨fun board journal ops => ?_, fun h ops => ?_⟩
  · exact transferWait_performAll (congrArg Cpu.Timing.stall (timing_reset _)) ops
  · have hwait := transferWait_performAll (congrArg Cpu.Timing.stall (timing_ofCartridge h)) ops
    refine ⟨hwait, fun n hn => ?_⟩
    rw [(hwait.waited n hn).board]
    exact Function.iterate_fixed rfl (3 * n)

/-- The first transfer of a console, from the state after its first instruction. -/
theorem transfer_wait_transferProgram :
    ∃ first, Console.ofCartridge (.ofBank transferProgram #[]) {} = .ok first ∧
      let m := first.performAll [.step]
      m.cpu.stall ≠ 0 ∧ TransferWait first m ∧ (m.afterSteps 513).board = m.board := by
  obtain ⟨first, hfirst, hstart, htransfers⟩ := ofCartridge_transferProgram
  obtain ⟨hwait, hboard⟩ := (transfer_wait (μ := UxRom)).2 hfirst [.step]
  have hcharge : (first.performAll [.step]).cpu.stall =
      513 + (first.performAll [.step]).cpu.cycles % 2 := by
    have hstep := stall_step_of_not_stalled hstart
    rw [if_pos htransfers] at hstep
    exact hstep
  refine ⟨first, hfirst, ?_, hwait, hboard 513 ?_⟩
  · omega
  · omega

end Machine

end Nes
