import Nes.Proofs.Machine.Host

/-!
# Single actions

The finest view of a run from outside: steps of the CPU alone, single dots, accesses of a host and
resets, in any order. The lockstep of a step and its dots is one such order
(`exists_actions_performAll`), so what holds after any list of actions holds whenever a host looks at
the machine, and between the dots of a step too.
-/

set_option autoImplicit false

namespace Nes

/-- What can happen to a machine, one thing at a time. -/
inductive Action
  | stepCpu
  | dot
  | read (addr : UInt16)
  | write (addr : UInt16) (value : UInt8)
  | reset
  deriving DecidableEq, Repr

namespace Machine

variable {μ : Type} [Board μ]

/-- Carries out an action. What it answers is not looked at. -/
def act (m : Machine μ) : Action → Machine μ
  | .stepCpu => m.stepCpu.2
  | .dot => m.dot
  | .read addr => (m.read addr).2
  | .write addr value => m.write addr value
  | .reset => m.reset

/-- Carries out actions, one after the other. -/
def actAll (m : Machine μ) (as : List Action) : Machine μ := as.foldl act m

theorem actAll_append (m : Machine μ) (as bs : List Action) :
    m.actAll (as ++ bs) = (m.actAll as).actAll bs :=
  List.foldl_append

/-- What every action preserves holds after all of them. -/
theorem actAll_invariant {P : Machine μ → Prop} {m : Machine μ} (h : P m)
    (hact : ∀ m a, P m → P (m.act a)) (as : List Action) : P (m.actAll as) := by
  induction as generalizing m with
  | nil => exact h
  | cons a as ih => exact ih (hact m a h)

/-- The state before an action of a list, and the one after it. -/
theorem actAll_take_succ (m : Machine μ) {as : List Action} {n : Nat} {a : Action}
    (h : as[n]? = some a) : m.actAll (as.take (n + 1)) = (m.actAll (as.take n)).act a := by
  rw [List.take_add_one, h, actAll_append]
  rfl

/-! ## Steps as actions -/

theorem actAll_replicate_dot (n : Nat) (m : Machine μ) :
    m.actAll (List.replicate n .dot) = dots n m := by
  induction n generalizing m with
  | zero => rfl
  | succ n ih => exact ih m.dot

/-- A step is one of the CPU, and then the dots that belong to it. -/
theorem step_eq_actAll (m : Machine μ) :
    m.step.2 = m.actAll (.stepCpu :: List.replicate (m.stepCpu.1 * dotsPerCycle) .dot) :=
  (actAll_replicate_dot _ m.stepCpu.2).symm

theorem exists_actions_afterSteps (n : Nat) (m : Machine μ) : ∃ as, m.afterSteps n = m.actAll as := by
  induction n generalizing m with
  | zero => exact ⟨[], rfl⟩
  | succ n ih =>
      obtain ⟨as, has⟩ := ih m.step.2
      refine ⟨.stepCpu :: List.replicate (m.stepCpu.1 * dotsPerCycle) .dot ++ as, ?_⟩
      rw [afterSteps_succ, has, actAll_append, ← step_eq_actAll]

theorem exists_actions_perform (m : Machine μ) (op : HostOp) :
    ∃ as, m.perform op = m.actAll as := by
  cases op with
  | step => exact ⟨_, m.step_eq_actAll⟩
  | stepFrame =>
      rw [perform, stepFrame_eq_steps]
      exact m.exists_actions_afterSteps m.stepsOfFrame
  | read addr => exact ⟨[.read addr], rfl⟩
  | write addr value => exact ⟨[.write addr value], rfl⟩
  | reset => exact ⟨[.reset], rfl⟩

/-- Whatever a host does with a machine is a list of actions. -/
theorem exists_actions_performAll (m : Machine μ) (ops : List HostOp) :
    ∃ as, m.performAll ops = m.actAll as := by
  induction ops generalizing m with
  | nil => exact ⟨[], rfl⟩
  | cons op ops ih =>
      obtain ⟨as, has⟩ := m.exists_actions_perform op
      obtain ⟨bs, hbs⟩ := ih (m.perform op)
      refine ⟨as ++ bs, ?_⟩
      rw [performAll_cons, hbs, has, actAll_append]

end Machine

end Nes
