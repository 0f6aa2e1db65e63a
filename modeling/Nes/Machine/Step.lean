import Nes.Machine.Basic
import Nes.Ppu.Step

/-!
# Running a machine

CPU and picture unit run in lockstep: a step of the CPU is followed by three dots for every cycle it
took. After each dot the board is told, and a delivered interrupt of the picture unit and the
interrupt line of the board are passed on to the CPU, which serves them at the start of its next
step.

A machine runs by single steps, until the next frame starts, or for a budget of cycles. A step takes
at least one cycle, so a frame takes no more steps than it has dots, and a budget no more steps than
it has cycles.
-/

set_option autoImplicit false

namespace Nes

/-- Dots for each cycle of the CPU. -/
def dotsPerCycle : Nat := 3

/-- Cycles of the CPU in a second. -/
def cpuFrequency : Nat := 1789773

namespace Machine

variable {μ : Type} [Board μ]

/-! ## Dots -/

/-- Passes a delivered interrupt of the picture unit on to the CPU. -/
def passNmi (m : Machine μ) : Machine μ :=
  if m.ppu.nmiPending then
    let m := m.note .debug fun _ =>
      s!"nmi at scanline {m.ppu.beam.scanline} dot {m.ppu.beam.dot}"
    { m with ppu := m.ppu.takeNmi, cpu := m.cpu.triggerNmi }
  else m

/-- Passes the interrupt line of the board on to the CPU. -/
def passIrq (m : Machine μ) : Machine μ :=
  if Board.irqPending m.board then { m with cpu := m.cpu.triggerIrq } else m

/-- One dot of the picture unit and the board. -/
def dot (m : Machine μ) : Machine μ :=
  let m := { m with ppu := m.ppu.step m.board }
  let m := { m with board := Board.step m.board }
  m.passNmi.passIrq

/-- As many dots as the number says. -/
def dots : Nat → Machine μ → Machine μ
  | 0, m => m
  | n + 1, m => dots n m.dot

theorem dots_add (a b : Nat) (m : Machine μ) : dots (a + b) m = dots b (dots a m) := by
  induction a generalizing m with
  | zero => rw [Nat.zero_add, dots]
  | succ a ih => rw [Nat.succ_add, dots, dots, ih m.dot]

/-- The dots that belong to a number of cycles. -/
def runDots (m : Machine μ) (cycles : Nat) : Machine μ := dots (cycles * dotsPerCycle) m

/-! ## Steps -/

/-- Records the instruction that the CPU is about to run, if instructions are traced. -/
def traceInstruction (m : Machine μ) : Machine μ :=
  if m.journal.keeps .trace then
    match m.wired.upcoming? with
    | none => m
    | some (i, s) =>
        if s.bus.ppu.fault then m else m.note .trace fun _ => i.traceLine s.cpu
  else m

/-- A step of the CPU alone, and the cycles it took. -/
def stepCpu (m : Machine μ) : Nat × Machine μ :=
  let r := m.traceInstruction.wired.step
  (r.1, ofWired r.2)

/-- A step of the CPU and the dots that belong to it. -/
def step (m : Machine μ) : Nat × Machine μ :=
  let r := m.stepCpu
  (r.1, r.2.runDots r.1)

/-- Runs as many steps as the number says, and adds the cycles they take to a total. -/
def steps : Nat → Nat × Machine μ → Nat × Machine μ
  | 0, r => r
  | n + 1, r =>
      let t := r.2.step
      steps n (r.1 + t.1, t.2)

theorem steps_add (a b : Nat) (r : Nat × Machine μ) : steps (a + b) r = steps b (steps a r) := by
  induction a generalizing r with
  | zero => rw [Nat.zero_add, steps]
  | succ a ih => rw [Nat.succ_add, steps, steps, ih (r.1 + r.2.step.1, r.2.step.2)]

/-! ## Frames -/

/-- Steps while the frame number is the given one, for as many steps as the first argument allows,
adding the cycles they take to a total. -/
def stepWhileFrame (frame : Nat) : Nat → Nat × Machine μ → Nat × Machine μ
  | 0, r => r
  | n + 1, r =>
      if r.2.ppu.beam.frame = frame then
        let t := r.2.step
        stepWhileFrame frame n (r.1 + t.1, t.2)
      else r

/-- Runs until the next frame starts, and counts the cycles. -/
def stepFrame (m : Machine μ) : Nat × Machine μ :=
  stepWhileFrame m.ppu.beam.frame (dotsPerScanline * scanlinesPerFrame) (0, m)

/-- Runs as many frames as the number says. -/
def stepFrames : Nat → Machine μ → Machine μ
  | 0, m => m
  | n + 1, m => stepFrames n m.stepFrame.2

/-! ## Budgets -/

/-- Steps while some of a budget of cycles is left, for as many steps as the first argument allows.
-/
def stepWhileBudget : Nat → Nat → Machine μ → Machine μ
  | 0, _, m => m
  | n + 1, budget, m =>
      if budget = 0 then m
      else
        let t := m.step
        stepWhileBudget n (budget - t.1) t.2

/-- Runs until a budget of cycles is used up. -/
def stepBudget (m : Machine μ) (budget : Int) : Machine μ :=
  stepWhileBudget budget.toNat budget.toNat m

/-- The budget of a time in seconds: whole cycles, rounded toward zero and kept within 64 bits. No
number of seconds at all is no time. -/
def budgetOfSeconds (seconds : Float) : Int := (seconds * 1789773.0).toInt64.toInt

/-- Runs for a time in seconds. -/
def stepSeconds (m : Machine μ) (seconds : Float) : Machine μ :=
  m.stepBudget (budgetOfSeconds seconds)

end Machine

end Nes
