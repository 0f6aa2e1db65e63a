import Nes.Proofs.Cpu.Flags
import Nes.Proofs.Cpu.Timing

/-!
# The flag that disables interrupts

Three families of instructions can clear it: the one whose purpose that is, and the two that pull
the status byte (`Mnemonic.keepsMasked_effect`). Entering a handler sets it. So an instruction that
finds the flag set leaves it set, unless it is one of these three (`Wired.masked_runInstruction`).
-/

set_option autoImplicit false

namespace Nes

namespace Cpu

variable (c : Cpu)

/-- Interrupts of boards are disabled. -/
def masked : Bool := c.flag Status.irqDisable

theorem masked_of_bits {c c' : Cpu} (h : c'.bits Status.irqDisable = c.bits Status.irqDisable) :
    c'.masked = c.masked := by
  rw [masked, masked, flag_eq, flag_eq, h]

theorem masked_setFlag_irqDisable : (c.setFlag Status.irqDisable true).masked = true :=
  c.flag_setFlag_self (by decide) true

end Cpu

/-! ## Effects -/

/-- What an effect does to the registers never clears the flag. -/
def Effect.KeepsMasked : Effect → Prop
  | .load f => ∀ c value, c.masked = true → (f c value).masked = true
  | .modify f => ∀ c value, c.masked = true → (f c value).2.masked = true
  | .registers f => ∀ c, c.masked = true → (f c).masked = true
  | .returnFromInterrupt | .pullStatus => False
  | _ => True

/-- The families that can clear the flag. -/
def Mnemonic.unmasks : Mnemonic → Bool
  | cli | plp | rti => true
  | _ => false

/-- Whoever leaves the flag as it is does not clear it. -/
theorem Effect.Keeps.keepsMasked {e : Effect} (h : e.Keeps Status.irqDisable) :
    e.KeepsMasked := by
  cases e with
  | load f => exact fun c value hc => (Cpu.masked_of_bits (h c value)).trans hc
  | modify f => exact fun c value hc => (Cpu.masked_of_bits (h c value)).trans hc
  | registers f => exact fun c hc => (Cpu.masked_of_bits (h c)).trans hc
  | returnFromInterrupt | pullStatus => exact absurd (show Status.irqDisable = 0 from h) (by decide)
  | store | branch | jump | call | returnFromCall | softwareInterrupt | pushA | pushStatus | pullA
  | idle => trivial

/-- All other families keep the flag if it is set. -/
theorem Mnemonic.keepsMasked_effect {m : Mnemonic} (h : m.unmasks = false) :
    m.effect.KeepsMasked := by
  cases m
  case cli | plp | rti => cases h
  case sei => exact fun c _ => c.masked_setFlag_irqDisable
  case brk => trivial
  all_goals exact (keeps_effect (by decide)).keepsMasked

namespace Wired

variable {β : Type} [Bus β]

theorem masked_enterInterrupt (s : Wired β) (vector : UInt16) :
    (s.enterInterrupt vector).cpu.masked = true :=
  Cpu.masked_setFlag_irqDisable _

theorem masked_enter (s : Wired β) (vector : UInt16) : (s.enter vector).cpu.masked = true :=
  (s.mapCpu fun c => { c with interrupt := .none }).masked_enterInterrupt vector

theorem masked_run {e : Effect} (he : e.KeepsMasked) (i : Instruction) {s : Wired β}
    (h : s.cpu.masked = true) : (e.run i s).cpu.masked = true := by
  cases e with
  | load f => exact he (s.read i.operand.address).2.cpu _ h
  | modify f =>
      simp only [Effect.run]
      split
      · exact he s.cpu s.cpu.a h
      · exact he (s.read i.operand.address).2.cpu _ h
  | registers f => exact he s.cpu h
  | branch taken =>
      simp only [Effect.run]
      split <;> exact h
  | softwareInterrupt => exact s.masked_enterInterrupt irqVector
  | returnFromInterrupt | pullStatus => exact he.elim
  | pullA => exact (Cpu.masked_of_bits (Cpu.bits_setA s.pull.2.cpu s.pull.1 (by decide))).trans h
  | store | jump | call | returnFromCall | pushA | pushStatus | idle => exact h

/-! ## Steps -/

/-- A step that enters a handler sets the flag before its instruction. -/
theorem masked_readied_of_interrupt {s : Wired β} (h : s.cpu.interrupt ≠ .none) :
    s.readied.cpu.masked = true := by
  show s.serveInterrupt.cpu.masked = true
  rw [serveInterrupt_eq]
  cases hi : s.cpu.interrupt with
  | none => exact absurd hi h
  | nmi => exact s.masked_enter nmiVector
  | irq => exact s.masked_enter irqVector

/-- No step clears the flag before its instruction. -/
theorem masked_readied {s : Wired β} (h : s.cpu.masked = true) : s.readied.cpu.masked = true := by
  by_cases hi : s.cpu.interrupt = .none
  · show s.serveInterrupt.cpu.masked = true
    rw [serveInterrupt_eq, hi]
    exact h
  · exact masked_readied_of_interrupt hi

/-- An instruction that finds the flag set leaves it set, unless it is one of the three that can
clear it. -/
theorem masked_runInstruction {s : Wired β} (h : s.readied.cpu.masked = true)
    (hm : s.next.opcode.mnemonic.unmasks = false) : s.runInstruction.cpu.masked = true := by
  have hrun : s.executed.cpu.masked = true :=
    masked_run (Mnemonic.keepsMasked_effect hm) s.next h
  show s.executed.chargeOamDma.cpu.masked = true
  unfold chargeOamDma
  dsimp only
  split <;> exact hrun

end Wired

end Nes
