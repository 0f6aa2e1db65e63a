import Mathlib.Algebra.Ring.Int.Defs
import Mathlib.Order.Bounds.Basic
import Nes.Proofs.Cpu.Cost
import Nes.Proofs.Machine.Fault

/-!
# Budgets of cycles

A run for a budget is a loop: a step at a time while some of the budget is left. It takes the least
number of steps whose cycles add up to the budget (`Machine.isLeast_budgetSteps`), for every
program. No step takes more than fifteen cycles, so the run exceeds the budget by fourteen at most,
and a list of runs exceeds the sum of the budgets by fourteen for each of them
(`Console.stepBudget_law`).

Between the calls of its host, a console that has come up is in one of the states `Console.Reached`.
-/

set_option autoImplicit false

namespace Nes

/-- No step of the CPU takes more than fifteen cycles: the entry into a handler, and an instruction.
-/
theorem Wired.fst_step_le {β : Type} [Bus β] (s : Wired β) : s.step.1 ≤ 15 := by
  by_cases hstall : s.cpu.stall = 0
  · have hentry := s.cpu.interrupt.entryCycles_le
    have hinstruction := s.instruction_cost_bounds.2
    rw [(step_of_not_stalled hstall).1, cost_eq]
    omega
  · rw [step_of_stalled hstall]
    show 1 ≤ 15
    decide

namespace Machine

variable {μ : Type} [Board μ]

theorem fst_step_le_fifteen (m : Machine μ) : m.step.1 ≤ 15 :=
  m.traceInstruction.wired.fst_step_le

/-! ## Cycles of steps -/

/-- The cycles that a number of steps take together. -/
def cyclesOf (m : Machine μ) (n : Nat) : Nat := (steps n (0, m)).1

theorem fst_steps (n k : Nat) (m : Machine μ) : (steps n (k, m)).1 = k + m.cyclesOf n := by
  induction n generalizing k m with
  | zero => rfl
  | succ n ih =>
      have hrest := ih (0 + m.step.1) m.step.2
      rw [cyclesOf, steps, steps, ih, hrest]
      dsimp only
      omega

theorem cyclesOf_succ (n : Nat) (m : Machine μ) :
    m.cyclesOf (n + 1) = m.step.1 + m.step.2.cyclesOf n := by
  rw [cyclesOf, steps, fst_steps, Nat.zero_add]

theorem cyclesOf_add (n k : Nat) (m : Machine μ) :
    m.cyclesOf (n + k) = m.cyclesOf n + (m.afterSteps n).cyclesOf k := by
  rw [cyclesOf, steps_add]
  exact fst_steps k _ _

/-- The last step adds its cycles. -/
theorem cyclesOf_succ_last (n : Nat) (m : Machine μ) :
    m.cyclesOf (n + 1) = m.cyclesOf n + (m.afterSteps n).step.1 := by
  rw [cyclesOf_add, cyclesOf_succ]
  rfl

/-! ## The loop over a budget -/

/-- Steps that are run while some of a budget is left, out of as many as the first argument allows.
-/
def budgetSteps : Nat → Nat → Machine μ → Nat
  | 0, _, _ => 0
  | n + 1, budget, m =>
      if budget = 0 then 0 else budgetSteps n (budget - m.step.1) m.step.2 + 1

theorem stepWhileBudget_eq_afterSteps (n budget : Nat) (m : Machine μ) :
    stepWhileBudget n budget m = m.afterSteps (budgetSteps n budget m) := by
  induction n generalizing budget m with
  | zero => rfl
  | succ n ih =>
      rw [stepWhileBudget, budgetSteps]
      split
      · rfl
      · rw [ih, afterSteps_succ]

/-- **The least number of steps.** A step takes a cycle at least, so as many steps as the budget has
cycles are enough. -/
theorem isLeast_budgetSteps {n budget : Nat} (h : budget ≤ n) (m : Machine μ) :
    IsLeast {k | budget ≤ m.cyclesOf k} (budgetSteps n budget m) := by
  induction n generalizing budget m with
  | zero => exact ⟨h, fun k _ => Nat.zero_le k⟩
  | succ n ih =>
      rw [budgetSteps]
      split
      · next hzero =>
          subst hzero
          exact ⟨Nat.zero_le _, fun k _ => Nat.zero_le k⟩
      · next hleft =>
          have hone := m.one_le_fst_step
          -- a step has been paid, and what is left of the budget is for the steps after it
          have hfuel : budget - m.step.1 ≤ n := by omega
          obtain ⟨henough, hleast⟩ := ih hfuel m.step.2
          constructor
          · have hrest : budget - m.step.1 ≤ m.step.2.cyclesOf _ := henough
            show budget ≤ m.cyclesOf _
            rw [cyclesOf_succ]
            omega
          · intro k hk
            have hcycles : budget ≤ m.cyclesOf k := hk
            cases k with
            | zero => exact absurd (Nat.le_zero.mp hcycles) hleft
            | succ k =>
                rw [cyclesOf_succ] at hcycles
                have hrest : budget - m.step.1 ≤ m.step.2.cyclesOf k := by omega
                exact Nat.succ_le_succ (hleast hrest)

/-- As many steps more than needed change nothing. -/
theorem budgetSteps_eq {n k budget : Nat} (hn : budget ≤ n) (hk : budget ≤ k) (m : Machine μ) :
    budgetSteps n budget m = budgetSteps k budget m :=
  (isLeast_budgetSteps hn m).unique (isLeast_budgetSteps hk m)

/-- The steps of a run for a budget. -/
def stepsOfBudget (m : Machine μ) (budget : Int) : Nat :=
  budgetSteps budget.toNat budget.toNat m

/-- The cycles of a run for a budget. -/
def cyclesOfBudget (m : Machine μ) (budget : Int) : Nat := m.cyclesOf (m.stepsOfBudget budget)

/-- What a run for a budget does. -/
structure BudgetLaw (m : Machine μ) (budget : Int) : Prop where
  /-- It is a loop that pays each step from the budget. -/
  loop : 0 < budget → m.stepBudget budget = m.step.2.stepBudget (budget - m.step.1)
  /-- Without a budget nothing is run. -/
  idle : budget ≤ 0 → m.stepsOfBudget budget = 0 ∧ m.stepBudget budget = m
  steps : m.stepBudget budget = m.afterSteps (m.stepsOfBudget budget)
  /-- The steps are as few as their cycles allow. -/
  least : IsLeast {n | budget ≤ (m.cyclesOf n : Int)} (m.stepsOfBudget budget)
  cycles : 0 < budget →
    budget ≤ m.cyclesOfBudget budget ∧ (m.cyclesOfBudget budget : Int) ≤ budget + 14

theorem stepBudget_eq_afterSteps (m : Machine μ) (budget : Int) :
    m.stepBudget budget = m.afterSteps (m.stepsOfBudget budget) :=
  stepWhileBudget_eq_afterSteps _ _ m

theorem isLeast_stepsOfBudget (m : Machine μ) (budget : Int) :
    IsLeast {n | budget ≤ (m.cyclesOf n : Int)} (m.stepsOfBudget budget) := by
  have h := isLeast_budgetSteps (Nat.le_refl budget.toNat) m
  have hset : {n | budget ≤ (m.cyclesOf n : Int)} = {n | budget.toNat ≤ m.cyclesOf n} := by
    ext n
    exact Int.toNat_le.symm
  rw [hset]
  exact h

/-- The step before the last one leaves some of the budget, so the last one exceeds it by less than
its own cycles. -/
theorem cyclesOfBudget_le (m : Machine μ) {budget : Int} (h : 0 < budget) :
    (m.cyclesOfBudget budget : Int) ≤ budget + 14 := by
  obtain ⟨henough, hleast⟩ := m.isLeast_stepsOfBudget budget
  rw [cyclesOfBudget]
  cases hsteps : m.stepsOfBudget budget with
  | zero =>
      have hnone : (m.cyclesOf 0 : Int) = 0 := rfl
      omega
  | succ n =>
      -- one step fewer is not enough
      have hbefore : (m.cyclesOf n : Int) < budget := by
        refine Int.not_le.mp fun hn => ?_
        have hle := hleast hn
        omega
      have hlast := (m.afterSteps n).fst_step_le_fifteen
      rw [cyclesOf_succ_last]
      omega

theorem stepsOfBudget_pos (m : Machine μ) {budget : Int} (h : 0 < budget) :
    0 < m.stepsOfBudget budget := by
  refine Nat.pos_of_ne_zero fun hzero => ?_
  have henough : budget ≤ (m.cyclesOf (m.stepsOfBudget budget) : Int) :=
    (m.isLeast_stepsOfBudget budget).1
  rw [hzero] at henough
  exact absurd henough (Int.not_le.mpr h)

theorem budgetLaw (m : Machine μ) (budget : Int) : m.BudgetLaw budget := by
  have hleast := m.isLeast_stepsOfBudget budget
  constructor
  case loop =>
    intro h
    obtain ⟨n, hn⟩ : ∃ n, budget.toNat = n + 1 := ⟨budget.toNat - 1, by omega⟩
    have hone := m.one_le_fst_step
    have hrest : (budget - m.step.1).toNat = n + 1 - m.step.1 := by omega
    rw [stepBudget, stepBudget, hn, hrest, stepWhileBudget, if_neg (Nat.succ_ne_zero n)]
    dsimp only
    -- the same steps, of which the left side allows more
    rw [stepWhileBudget_eq_afterSteps, stepWhileBudget_eq_afterSteps,
      budgetSteps_eq (by omega) (Nat.le_refl _)]
  case idle =>
    intro h
    have hnone : m.stepsOfBudget budget = 0 := by
      rw [stepsOfBudget, Int.toNat_of_nonpos h]
      rfl
    refine ⟨hnone, ?_⟩
    rw [stepBudget_eq_afterSteps, hnone]
    rfl
  case steps => exact m.stepBudget_eq_afterSteps budget
  case least => exact hleast
  case cycles => exact fun h => ⟨hleast.1, m.cyclesOfBudget_le h⟩

/-! ## Several budgets -/

/-- The cycles of runs for budgets, one after the other. -/
def cyclesOfBudgets : List Int → Machine μ → Nat
  | [], _ => 0
  | budget :: budgets, m => m.cyclesOfBudget budget + cyclesOfBudgets budgets (m.stepBudget budget)

theorem cyclesOfBudgets_bounds {budgets : List Int} (h : ∀ budget ∈ budgets, 0 < budget)
    (m : Machine μ) :
    budgets.sum ≤ cyclesOfBudgets budgets m ∧
      (cyclesOfBudgets budgets m : Int) ≤ budgets.sum + 14 * budgets.length := by
  induction budgets generalizing m with
  | nil => exact ⟨Int.le_refl 0, Int.le_refl 0⟩
  | cons budget budgets ih =>
      have hfirst := (m.budgetLaw budget).cycles (h budget List.mem_cons_self)
      have hrest := ih (fun b hb => h b (List.mem_cons_of_mem budget hb)) (m.stepBudget budget)
      rw [cyclesOfBudgets, List.sum_cons, List.length_cons]
      omega

end Machine

/-! ## Consoles -/

namespace Console

/-- The states in which its host finds a console with a cartridge: when it has come up, and after
any call from there on. -/
inductive Reached (c : Cartridge) : Console → Prop
  | start {journal : Journal} {m : Console} (h : ofCartridge c journal = .ok m) : Reached c m
  | perform {m : Console} (h : Reached c m) (op : HostOp) : Reached c (m.perform op)
  | stepBudget {m : Console} (h : Reached c m) (budget : Int) : Reached c (m.stepBudget budget)

variable {c : Cartridge} {m : Console}

theorem Reached.exists_actions (h : Reached c m) :
    ∃ journal first as, ofCartridge c journal = .ok first ∧ m = first.actAll as := by
  induction h with
  | @start journal m h => exact ⟨journal, m, [], h, rfl⟩
  | @perform m _ op ih =>
      obtain ⟨journal, first, as, hfirst, rfl⟩ := ih
      obtain ⟨bs, hbs⟩ := (first.actAll as).exists_actions_perform op
      exact ⟨journal, first, as ++ bs, hfirst, by rw [hbs, Machine.actAll_append]⟩
  | @stepBudget m _ budget ih =>
      obtain ⟨journal, first, as, hfirst, rfl⟩ := ih
      obtain ⟨bs, hbs⟩ := (first.actAll as).exists_actions_afterSteps
        ((first.actAll as).stepsOfBudget budget)
      refine ⟨journal, first, as ++ bs, hfirst, ?_⟩
      rw [Machine.stepBudget_eq_afterSteps, hbs, Machine.actAll_append]

/-- With enough picture memory no byte is missed on the way. -/
theorem Reached.complete (h : Reached c m) (hchr : 0x2000 ≤ c.chr.size) : m.memory.Complete := by
  obtain ⟨_, first, as, hfirst, rfl⟩ := h.exists_actions
  exact Machine.complete_actAll (complete_ofCartridge hfirst hchr) as

/-- **Runs for a budget.** In every state that a host finds, and for every budget: the run is a loop
that ends after the least number of steps whose cycles reach the budget, with no step at all if
there is no budget, and otherwise with fourteen cycles too many at most. Over several budgets the
excess adds up to fourteen for each. A run for some seconds is one for the budget that they make.
With enough picture memory no run fails. -/
theorem stepBudget_law (h : Reached c m) :
    (∀ budget, m.BudgetLaw budget) ∧
    (∀ seconds, m.stepSeconds seconds = m.stepBudget (Machine.budgetOfSeconds seconds)) ∧
    (∀ budgets : List Int, (∀ budget ∈ budgets, 0 < budget) →
      budgets.sum ≤ Machine.cyclesOfBudgets budgets m ∧
        (Machine.cyclesOfBudgets budgets m : Int) ≤ budgets.sum + 14 * budgets.length) ∧
    (0x2000 ≤ c.chr.size → ∀ budget, (m.stepBudget budget).ppu.fault = false) := by
  refine ⟨m.budgetLaw, fun _ => rfl, fun budgets hpos => ?_, fun hchr budget => ?_⟩
  · exact Machine.cyclesOfBudgets_bounds hpos m
  · exact ((h.stepBudget budget).complete hchr).fault

/-- A program that starts with a transfer, under a budget that its wait uses up. -/
theorem stepBudget_law_accessProgram :
    ∃ m, ofCartridge (.ofBank (accessProgram 0x8D 0x14 0x40) #[]) {} = .ok m ∧
      m.BudgetLaw 500 ∧ 600 ≤ (Machine.cyclesOfBudgets [500, 100] m : Int) ∧
      (Machine.cyclesOfBudgets [500, 100] m : Int) ≤ 628 ∧
      (m.stepBudget 500).ppu.fault = false := by
  obtain ⟨m, hm, -⟩ := ofCartridge_accessProgram 0x8D 0x14 0x40 (by decide) (by decide) #[]
  obtain ⟨hlaw, -, hsum, hfault⟩ := stepBudget_law (.start hm)
  have hchr := Cartridge.le_size_chr_ofBank (accessProgram 0x8D 0x14 0x40)
  obtain ⟨hle, hge⟩ := hsum [500, 100] (by decide)
  exact ⟨m, hm, hlaw 500, hle, hge, hfault hchr 500⟩

/-- **A run that fails.** With one byte of picture memory a console comes up, and a run for 17
cycles asks for a byte that is not there. -/
theorem fault_stepBudget_accessProgram :
    ∃ m, ofCartridge (.ofBank (accessProgram 0xAD 0x07 0x20) #[0]) {} = .ok m ∧
      (m.perform (.read 0x2007)).ppu.fault = false ∧
      ((m.perform (.read 0x2007)).stepBudget 17).ppu.fault = true := by
  obtain ⟨m, hm, hfine, hmissing⟩ := exists_missing_byte
  refine ⟨m, hm, hfine, ?_⟩
  rw [Machine.stepBudget_eq_afterSteps]
  exact Machine.fault_afterSteps hmissing (Machine.stepsOfBudget_pos _ (by decide))

end Console

end Nes
