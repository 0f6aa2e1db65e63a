import Nes.Proofs.Machine.Lockstep
import Nes.Proofs.Machine.Timing

/-!
# Operations from outside

What a host can do with a machine: run a step or a frame, read and write as the CPU does, and reset
it. A frame is a number of steps (`stepWhileFrame_eq_steps`), so through any sequence of operations
the picture unit goes through the run of the events that they make (`ppu_performAll`).
-/

set_option autoImplicit false

namespace Nes

/-- What a host can do with a machine. -/
inductive HostOp
  | step
  | stepFrame
  | read (addr : UInt16)
  | write (addr : UInt16) (value : UInt8)
  | reset
  deriving DecidableEq, Repr

namespace Machine

variable {μ : Type} [Board μ]

/-- Carries out an operation. What it answers is not looked at. -/
def perform (m : Machine μ) : HostOp → Machine μ
  | .step => m.step.2
  | .stepFrame => m.stepFrame.2
  | .read addr => (m.read addr).2
  | .write addr value => m.write addr value
  | .reset => m.reset

/-- Carries out operations, one after the other. -/
def performAll (m : Machine μ) (ops : List HostOp) : Machine μ := ops.foldl perform m

theorem performAll_cons (m : Machine μ) (op : HostOp) (ops : List HostOp) :
    m.performAll (op :: ops) = (m.perform op).performAll ops := rfl

/-! ## Frames -/

/-- Steps that are run while the frame number is the given one, out of as many as the second
argument allows. -/
def frameSteps (frame : Nat) : Nat → Machine μ → Nat
  | 0, _ => 0
  | n + 1, m => if m.ppu.beam.frame = frame then frameSteps frame n m.step.2 + 1 else 0

theorem stepWhileFrame_eq_steps (frame n : Nat) (r : Nat × Machine μ) :
    stepWhileFrame frame n r = steps (frameSteps frame n r.2) r := by
  induction n generalizing r with
  | zero => rfl
  | succ n ih =>
      rw [stepWhileFrame, frameSteps]
      split
      · rw [steps, ih]
      · rfl

/-- Steps until the next frame starts. -/
def stepsOfFrame (m : Machine μ) : Nat :=
  frameSteps m.ppu.beam.frame (dotsPerScanline * scanlinesPerFrame) m

theorem stepFrame_eq_steps (m : Machine μ) : m.stepFrame = steps m.stepsOfFrame (0, m) :=
  stepWhileFrame_eq_steps _ _ _

/-! ## Events -/

/-- What an operation does to the picture unit. -/
def opEvents (m : Machine μ) : HostOp → List (Ppu.Event μ)
  | .step => m.stepEvents
  | .stepFrame => events m.stepsOfFrame m
  | .read addr => m.memory.readEvents addr
  | .write addr value => m.memory.writeEvents addr value
  | .reset => []

/-- What a sequence of operations does to the picture unit. -/
def opsEvents : List HostOp → Machine μ → List (Ppu.Event μ)
  | [], _ => []
  | op :: ops, m => m.opEvents op ++ opsEvents ops (m.perform op)

theorem ppu_perform (m : Machine μ) (op : HostOp) :
    (m.perform op).ppu = Ppu.run (m.opEvents op) m.ppu := by
  cases op with
  | step => exact m.ppu_step
  | stepFrame =>
      rw [perform, stepFrame_eq_steps]
      exact ppu_steps m.stepsOfFrame 0 m
  | read addr => exact m.memory.ppu_read addr
  | write addr value => exact m.memory.ppu_write addr value
  | reset => exact m.ppu_reset

/-- **The picture unit goes through the run of the events of the operations.** -/
theorem ppu_performAll (ops : List HostOp) (m : Machine μ) :
    (m.performAll ops).ppu = Ppu.run (opsEvents ops m) m.ppu := by
  induction ops generalizing m with
  | nil => rfl
  | cons op ops ih => rw [performAll_cons, ih, opsEvents, Ppu.run_append, ← ppu_perform]

end Machine

end Nes
