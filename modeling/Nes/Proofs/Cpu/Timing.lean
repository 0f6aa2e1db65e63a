import Nes.Cpu.Step

/-!
# When instructions run

The cycle counter, the cycles left to wait and the waiting interrupt decide when the next
instruction runs and what is entered before it. They are the timing of the CPU. No instruction looks
at them, and of all that an instruction does only a taken branch changes them, by the cycles it
costs (`timing_run`). So what a step does to them is said by three lines: an instruction leaves no
interrupt waiting, adds its cost to the counter and starts to wait if it has started a transfer
(`timing_runInstruction`); a cycle of waiting takes one from the cycles left.
-/

set_option autoImplicit false

namespace Nes

/-- What decides when the next instruction runs. -/
structure Cpu.Timing where
  cycles : Nat
  stall : Nat
  interrupt : Interrupt
  deriving DecidableEq, Repr

namespace Cpu

variable (c : Cpu) (value : UInt8)

/-- The part of the CPU that decides when the next instruction runs. -/
def timing : Timing := ⟨c.cycles, c.stall, c.interrupt⟩

@[simp] theorem timing_registers (a x y sp p : UInt8) (pc : UInt16) :
    ({ c with a, x, y, sp, p, pc } : Cpu).timing = c.timing := rfl

@[simp] theorem timing_setFlag (mask : UInt8) (on : Bool) :
    (c.setFlag mask on).timing = c.timing := rfl

@[simp] theorem timing_updateZN : (c.updateZN value).timing = c.timing := by simp [updateZN]

@[simp] theorem timing_setA : (c.setA value).timing = c.timing := by simp [setA]

@[simp] theorem timing_setX : (c.setX value).timing = c.timing := by simp [setX]

@[simp] theorem timing_setY : (c.setY value).timing = c.timing := by simp [setY]

@[simp] theorem timing_addWithCarry : (c.addWithCarry value).timing = c.timing := by
  simp [addWithCarry]

@[simp] theorem timing_subtractWithCarry : (c.subtractWithCarry value).timing = c.timing := by
  simp [subtractWithCarry]

@[simp] theorem timing_compare (left right : UInt8) :
    (c.compare left right).timing = c.timing := by simp [Cpu.compare]

@[simp] theorem timing_shiftRight : (c.shiftRight value).2.timing = c.timing := by
  simp [shiftRight]

end Cpu

/-! ## Effects -/

namespace Effect

/-- What an effect does to the registers leaves the timing alone. -/
def Untimed : Effect → Prop
  | .load f => ∀ c value, (f c value).timing = c.timing
  | .modify f => ∀ c value, (f c value).2.timing = c.timing
  | .registers f => ∀ c, (f c).timing = c.timing
  | _ => True

/-- Cycles that a taken branch costs. -/
def branchCycles (e : Effect) (i : Instruction) (c : Cpu) : Nat :=
  match e with
  | .branch taken =>
      if taken c then (if pageOf i.next = pageOf i.operand.address then 1 else 2) else 0
  | _ => 0

theorem branchCycles_le (e : Effect) (i : Instruction) (c : Cpu) : e.branchCycles i c ≤ 2 := by
  unfold branchCycles
  split
  · split
    · split <;> decide
    · exact Nat.zero_le 2
  · exact Nat.zero_le 2

end Effect

open Cpu in
/-- What any family does to the registers is put together from changes that leave the timing alone.
-/
theorem Mnemonic.untimed_effect (m : Mnemonic) : m.effect.Untimed := by
  cases m <;> simp [effect, Effect.Untimed, shiftLeft, rotateLeft, rotateRight, increment,
    decrement, countUp, countDown, testBits, modifyThen, andA, orA, xorA, compareA, loadAX,
    loadMasked, andCopySign, andShift, andRotate, subtractIntoX]

namespace Wired

variable {β : Type} [Bus β]

/-- An effect adds the cycles of a taken branch to the counter, and leaves the timing alone
otherwise. -/
theorem timing_run {e : Effect} (he : e.Untimed) (i : Instruction) (s : Wired β) :
    (e.run i s).cpu.timing =
      { s.cpu.timing with cycles := s.cpu.cycles + e.branchCycles i s.cpu } := by
  cases e with
  | load f => exact he (s.read i.operand.address).2.cpu _
  | modify f =>
      simp only [Effect.run]
      split
      · exact he s.cpu s.cpu.a
      · exact he (s.read i.operand.address).2.cpu _
  | registers f => exact he s.cpu
  | branch taken =>
      simp only [Effect.run, Effect.branchCycles]
      split <;> rfl
  | store | jump | call | returnFromCall | softwareInterrupt | returnFromInterrupt | pushA
  | pushStatus | pullA | pullStatus | idle => rfl

end Wired

/-! ## Costs -/

namespace Opcode

theorem cycles_le (o : Opcode) : o.cycles ≤ 8 := by
  obtain ⟨m, mode⟩ := o
  cases m <;> cases mode <;> decide

theorem pageCycles_le (o : Opcode) : o.pageCycles ≤ 1 := by
  unfold pageCycles
  split <;> decide

end Opcode

namespace Instruction

theorem two_le_cycles (i : Instruction) : 2 ≤ i.cycles :=
  Nat.le_add_right_of_le i.opcode.two_le_cycles

theorem cycles_le (i : Instruction) : i.cycles ≤ 9 := by
  have hbase := i.opcode.cycles_le
  have hpage := i.opcode.pageCycles_le
  unfold cycles
  split <;> omega

end Instruction

/-- The vector through which an interrupt is entered. -/
def Interrupt.vector? : Interrupt → Option UInt16
  | none => .none
  | nmi => some nmiVector
  | irq => some irqVector

/-- Cycles before an instruction, by the interrupt that waits. -/
def Interrupt.entryCycles : Interrupt → Nat
  | none => 0
  | nmi | irq => interruptCycles

theorem Interrupt.entryCycles_le (i : Interrupt) : i.entryCycles ≤ 7 := by
  cases i <;> decide

namespace Wired

variable {β : Type} [Bus β]

/-- Enters the handler behind a vector, in place of the interrupt that waits. -/
def enter (s : Wired β) (vector : UInt16) : Wired β :=
  ((s.mapCpu fun c => { c with interrupt := .none }).enterInterrupt vector).mapCpu fun c =>
    { c with cycles := c.cycles + interruptCycles }

/-- The waiting interrupt is entered through its vector. -/
theorem serveInterrupt_eq (s : Wired β) :
    s.serveInterrupt = (s.cpu.interrupt.vector?.map s.enter).getD s := by
  unfold serveInterrupt
  cases s.cpu.interrupt <;> rfl

theorem serveInterrupt_of_none {s : Wired β} (h : s.cpu.interrupt = .none) :
    s.serveInterrupt = s := by
  rw [serveInterrupt_eq, h]
  rfl

/-- The vector through which a step enters a handler before its instruction, if it does. -/
def entered? (s : Wired β) : Option UInt16 :=
  if s.cpu.stall = 0 then s.cpu.interrupt.vector? else none

theorem timing_serveInterrupt (s : Wired β) :
    s.serveInterrupt.cpu.timing =
      ⟨s.cpu.cycles + s.cpu.interrupt.entryCycles, s.cpu.stall, .none⟩ := by
  have henter : ∀ vector,
      (s.enter vector).cpu.timing = ⟨s.cpu.cycles + interruptCycles, s.cpu.stall, .none⟩ :=
    fun _ => rfl
  rw [serveInterrupt_eq]
  cases h : s.cpu.interrupt with
  | none => exact congrArg (Cpu.Timing.mk s.cpu.cycles s.cpu.stall) h
  | nmi => exact henter nmiVector
  | irq => exact henter irqVector

/-- The instruction that comes next, once the handler of a waiting interrupt has been entered. -/
def next (s : Wired β) : Instruction := s.serveInterrupt.fetch.1

/-- The state in which the effect of the next instruction is carried out. -/
def readied (s : Wired β) : Wired β := s.serveInterrupt.fetch.2.advance s.next

/-- What the next instruction leaves, before a transfer is charged. -/
def executed (s : Wired β) : Wired β := s.next.opcode.mnemonic.effect.run s.next s.readied

/-- Cycles of the next instruction, with those of the interrupt that is entered before it. -/
def cost (s : Wired β) : Nat :=
  s.cpu.interrupt.entryCycles + s.next.cycles +
    s.next.opcode.mnemonic.effect.branchCycles s.next s.readied.cpu

/-- The next instruction starts a transfer into sprite memory. -/
def transfers (s : Wired β) : Bool := (Bus.takeOamDma s.executed.bus).1

theorem two_le_cost (s : Wired β) : 2 ≤ s.cost := by
  have h := s.next.two_le_cycles
  unfold cost
  omega

theorem cost_le (s : Wired β) : s.cost ≤ 18 := by
  have hentry := s.cpu.interrupt.entryCycles_le
  have hcycles := s.next.cycles_le
  have hbranch := s.next.opcode.mnemonic.effect.branchCycles_le s.next s.readied.cpu
  unfold cost
  omega

/-! ## Steps -/

theorem timing_executed (s : Wired β) :
    s.executed.cpu.timing = ⟨s.cpu.cycles + s.cost, s.cpu.stall, .none⟩ := by
  have hready : s.readied.cpu.timing =
      ⟨s.cpu.cycles + s.cpu.interrupt.entryCycles + s.next.cycles, s.cpu.stall, .none⟩ := by
    have h := s.timing_serveInterrupt
    simp only [Cpu.timing, Cpu.Timing.mk.injEq] at h
    obtain ⟨hcycles, hstall, hinterrupt⟩ := h
    show (⟨s.serveInterrupt.cpu.cycles + s.next.cycles, s.serveInterrupt.cpu.stall,
      s.serveInterrupt.cpu.interrupt⟩ : Cpu.Timing) = _
    rw [hcycles, hstall, hinterrupt]
  have hcycles := congrArg Cpu.Timing.cycles hready
  have hrun := timing_run s.next.opcode.mnemonic.untimed_effect s.next s.readied
  rw [hready] at hrun
  rw [executed, hrun, show s.readied.cpu.cycles = _ from hcycles, cost, Nat.add_assoc,
    Nat.add_assoc, Nat.add_assoc]

/-- **What an instruction does to the timing.** No interrupt waits afterwards, the counter has gone
up by the cost, and if a transfer has been started, its wait follows the counter. -/
theorem timing_runInstruction (s : Wired β) :
    s.runInstruction.cpu.timing =
      ⟨s.cpu.cycles + s.cost,
        s.cpu.stall + if s.transfers then stallCycles (s.cpu.cycles + s.cost) else 0, .none⟩ := by
  have h := s.timing_executed
  simp only [Cpu.timing, Cpu.Timing.mk.injEq] at h
  obtain ⟨hcycles, hstall, hinterrupt⟩ := h
  show s.executed.chargeOamDma.cpu.timing = _
  unfold chargeOamDma
  dsimp only
  split
  · next ht =>
      rw [if_pos (show s.transfers = true from ht)]
      show (⟨s.executed.cpu.cycles, s.executed.cpu.stall + stallCycles s.executed.cpu.cycles,
        s.executed.cpu.interrupt⟩ : Cpu.Timing) = _
      rw [hcycles, hstall, hinterrupt]
  · next ht =>
      rw [if_neg (show ¬ s.transfers = true from ht)]
      show (⟨s.executed.cpu.cycles, s.executed.cpu.stall, s.executed.cpu.interrupt⟩ :
        Cpu.Timing) = _
      rw [hcycles, hstall, hinterrupt, Nat.add_zero]

/-- A step that does not wait takes the cost of its instruction. -/
theorem step_of_not_stalled {s : Wired β} (h : s.cpu.stall = 0) :
    s.step.1 = s.cost ∧ s.step.2 = s.runInstruction := by
  have hcycles : s.runInstruction.cpu.cycles = s.cpu.cycles + s.cost :=
    congrArg Cpu.Timing.cycles s.timing_runInstruction
  rw [step, if_pos h]
  refine ⟨?_, rfl⟩
  show s.runInstruction.cpu.cycles - s.cpu.cycles = s.cost
  rw [hcycles, Nat.add_sub_cancel_left]

/-- A step takes the cycles by which it moves the counter. -/
theorem fst_step_of_not_stalled {s : Wired β} (h : s.cpu.stall = 0) :
    s.step.1 = s.step.2.cpu.cycles - s.cpu.cycles := by
  rw [step, if_pos h]

/-- A step that waits takes one cycle and does nothing else. -/
theorem step_of_stalled {s : Wired β} (h : s.cpu.stall ≠ 0) :
    s.step = (1, s.mapCpu fun c => { c with stall := c.stall - 1 }) := by
  rw [step, if_neg h]

theorem stallCycles_le (cycles : Nat) : stallCycles cycles ≤ 514 := by
  unfold stallCycles dmaStallCycles
  omega

end Wired

end Nes
