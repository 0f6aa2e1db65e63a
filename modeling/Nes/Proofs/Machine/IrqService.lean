import Nes.Proofs.Cpu.IrqMask
import Nes.Proofs.Machine.Actions

/-!
# Service of the interrupt line

The CPU looks at the flag that disables interrupts when the line is passed on, and not again when it
enters the handler. That nothing sets the flag in between is an invariant of all actions
(`irqEnabled_act`): whatever sets it leaves no interrupt of the line waiting. Once a handler has been
entered the flag stays set until an instruction clears it (`masked_act`), so there is such an
instruction between any two entries.
-/

set_option autoImplicit false

namespace Nes.Machine

variable {μ : Type} [Board μ]

/-- The instruction that the next step runs. -/
def nextInstruction (m : Machine μ) : Instruction := m.traceInstruction.wired.next

/-- The CPU in which that instruction does its work, when a waiting interrupt has been entered. -/
def readiedCpu (m : Machine μ) : Cpu := m.traceInstruction.wired.readied.cpu

/-- The instruction that the next step runs clears the flag: it is one of three families, finds the
flag set and leaves it clear. -/
structure Unmasks (m : Machine μ) : Prop where
  runs : m.cpu.stall = 0
  family : m.nextInstruction.opcode.mnemonic = .cli ∨ m.nextInstruction.opcode.mnemonic = .plp ∨
    m.nextInstruction.opcode.mnemonic = .rti
  before : m.readiedCpu.masked = true
  after : m.stepCpu.2.cpu.masked = false

omit [Board μ] in
theorem entered?_eq_irqVector_iff (m : Machine μ) :
    m.wired.entered? = some irqVector ↔ m.cpu.stall = 0 ∧ m.cpu.interrupt = .irq := by
  show (if m.cpu.stall = 0 then m.cpu.interrupt.vector? else none) = some irqVector ↔ _
  by_cases hstall : m.cpu.stall = 0
  · rw [if_pos hstall]
    cases m.cpu.interrupt with
    | none => simp [Interrupt.vector?]
    | nmi => simp [Interrupt.vector?]; decide
    | irq => simp [Interrupt.vector?, hstall]
  · rw [if_neg hstall]
    simp [hstall]

/-! ## What each action does to the flag -/

theorem p_dot (m : Machine μ) : m.dot.cpu.p = m.cpu.p := by
  have hirq : ∀ c : Cpu, c.triggerIrq.p = c.p := by
    intro c
    unfold Cpu.triggerIrq
    split <;> rfl
  rw [cpu_dot]
  dsimp only
  split
  · rw [hirq]
    split <;> rfl
  · split <;> rfl

theorem masked_dot (m : Machine μ) : m.dot.cpu.masked = m.cpu.masked := by
  rw [Cpu.masked, Cpu.flag, p_dot]
  rfl

theorem masked_reset (m : Machine μ) : m.reset.cpu.masked = true := by
  obtain ⟨_, h⟩ := note_shape ({ m with board := Board.reset m.board } : Machine μ).resetCpu .info _
  have hp : m.reset.cpu.p = Status.reset := by
    rw [reset, h]
    rfl
  rw [Cpu.masked, Cpu.flag, hp]
  decide

/-- A step of the CPU whose instruction finds the flag set leaves it set, unless the instruction
clears it. -/
theorem masked_stepCpu_of_readied {m : Machine μ} (hstall : m.cpu.stall = 0)
    (h : m.readiedCpu.masked = true) (hu : ¬ m.Unmasks) : m.stepCpu.2.cpu.masked = true := by
  have hstall' : m.traceInstruction.wired.cpu.stall = 0 := by
    show m.traceInstruction.cpu.stall = 0
    rw [cpu_traceInstruction, hstall]
  cases hm : m.nextInstruction.opcode.mnemonic.unmasks with
  | false =>
      show m.traceInstruction.wired.step.2.cpu.masked = true
      rw [(Wired.step_of_not_stalled hstall').2]
      exact Wired.masked_runInstruction h hm
  | true =>
      -- one of the three families, so the flag would count as cleared
      have hfamily : m.nextInstruction.opcode.mnemonic = .cli ∨
          m.nextInstruction.opcode.mnemonic = .plp ∨
          m.nextInstruction.opcode.mnemonic = .rti := by
        cases hn : m.nextInstruction.opcode.mnemonic <;> simp_all [Mnemonic.unmasks]
      cases hclear : m.stepCpu.2.cpu.masked with
      | true => rfl
      | false => exact absurd ⟨hstall, hfamily, h, hclear⟩ hu

/-- An interrupt of the line that waits has found the flag clear, and the flag still is. -/
def IrqEnabled (m : Machine μ) : Prop := m.cpu.interrupt = .irq → m.cpu.masked = false

theorem irqEnabled_dot {m : Machine μ} (h : m.IrqEnabled) : m.dot.IrqEnabled := by
  have hnmi : ∀ c : Cpu, c.triggerNmi.interrupt = .irq → c.triggerNmi.masked = false := by
    intro c hc
    cases hc
  have hirq : ∀ c : Cpu, (c.interrupt = .irq → c.masked = false) →
      c.triggerIrq.interrupt = .irq → c.triggerIrq.masked = false := by
    intro c hc
    unfold Cpu.triggerIrq
    split
    · next hfree => exact fun _ => hfree.1
    · exact hc
  unfold IrqEnabled
  rw [cpu_dot]
  dsimp only
  -- the line is looked at last, behind an interrupt of the picture unit if there is one
  split
  · split
    · exact hirq _ (hnmi _)
    · exact hirq _ h
  · split
    · exact hnmi _
    · exact h

theorem irqEnabled_stepCpu {m : Machine μ} (h : m.IrqEnabled) : m.stepCpu.2.IrqEnabled := by
  unfold IrqEnabled
  by_cases hstall : m.cpu.stall = 0
  · have hnone : m.stepCpu.2.cpu.interrupt = .none :=
      congrArg Cpu.Timing.interrupt (stepCpu_of_not_stalled hstall).2
    rw [hnone]
    intro hirq
    cases hirq
  · rw [(stepCpu_of_stalled hstall).2.1]
    exact h

/-- No action sets the flag under an interrupt of the line that waits. -/
theorem irqEnabled_act {m : Machine μ} (h : m.IrqEnabled) (a : Action) : (m.act a).IrqEnabled := by
  cases a with
  | stepCpu => exact irqEnabled_stepCpu h
  | dot => exact irqEnabled_dot h
  | read addr => exact h
  | write addr value => exact h
  | reset =>
      have hnone : m.reset.cpu.interrupt = .none := congrArg Cpu.Timing.interrupt m.timing_reset
      intro hirq
      rw [act, hnone] at hirq
      cases hirq

/-- Once the flag is set, it stays set through every action but an instruction that clears it. -/
theorem masked_act {m : Machine μ} (h : m.cpu.masked = true) {a : Action}
    (hu : a = .stepCpu → ¬ m.Unmasks) : (m.act a).cpu.masked = true := by
  cases a with
  | stepCpu =>
      by_cases hstall : m.cpu.stall = 0
      · have hfound : m.traceInstruction.wired.cpu.masked = true := by
          show m.traceInstruction.cpu.masked = true
          rw [cpu_traceInstruction, h]
        exact masked_stepCpu_of_readied hstall (Wired.masked_readied hfound) (hu rfl)
      · show m.stepCpu.2.cpu.masked = true
        rw [(stepCpu_of_stalled hstall).2.1]
        exact h
  | dot => exact m.masked_dot.trans h
  | read addr => exact h
  | write addr value => exact h
  | reset => exact m.masked_reset

/-! ## Runs -/

/-- After the entry into a handler the flag is set for as long as no instruction clears it. -/
theorem masked_actAll_take {m : Machine μ} {as : List Action} {n : Nat}
    (hn : as[n]? = some .stepCpu)
    (hentry : (m.actAll (as.take n)).wired.entered? = some irqVector) {k : Nat} (hk : n + 1 ≤ k)
    (hlength : k ≤ as.length)
    (hu : ∀ j, n ≤ j → j < k → as[j]? = some .stepCpu → ¬ (m.actAll (as.take j)).Unmasks) :
    (m.actAll (as.take k)).cpu.masked = true := by
  induction hk with
  | refl =>
      obtain ⟨hstall, hirq⟩ := (entered?_eq_irqVector_iff _).mp hentry
      have hwaits : (m.actAll (as.take n)).traceInstruction.wired.cpu.interrupt ≠ .none := by
        show (m.actAll (as.take n)).traceInstruction.cpu.interrupt ≠ .none
        rw [cpu_traceInstruction, hirq]
        decide
      rw [actAll_take_succ m hn]
      exact masked_stepCpu_of_readied hstall (Wired.masked_readied_of_interrupt hwaits)
        (hu n (Nat.le_refl n) (Nat.lt_succ_self n) hn)
  | @step k hk ih =>
      have hlt : k < as.length := hlength
      have hat : as[k]? = some as[k] := List.getElem?_eq_getElem hlt
      have hmasked := ih (Nat.le_of_lt hlt) fun j hj hjk => hu j hj (Nat.lt_succ_of_lt hjk)
      rw [actAll_take_succ m hat]
      refine masked_act hmasked fun hstep => ?_
      exact hu k (Nat.le_of_succ_le hk) (Nat.lt_succ_self k) (hstep ▸ hat)

/-- **Masked interrupts of the line are never served.** For every board, whatever its interrupt line
does, and for any actions from power-on, resets among them: an interrupt of the line waits only
while the flag is clear, so a step that enters its handler starts with the flag clear; and between
two such steps some instruction has cleared the flag. -/
theorem irq_masked_never_served (ram : Ram) (ppu : Ppu) (board : μ) (journal : Journal)
    (as : List Action) :
    let state (n : Nat) : Machine μ :=
      actAll { cpu := .powerOn, ram, ppu, board, journal } (as.take n)
    (∀ n, (state n).cpu.interrupt = .irq → (state n).cpu.flag Status.irqDisable = false) ∧
    (∀ n, (state n).entered? = some irqVector →
      (state n).cpu.flag Status.irqDisable = false) ∧
    ∀ n k, n < k → as[n]? = some .stepCpu → (state n).entered? = some irqVector →
      as[k]? = some .stepCpu → (state k).entered? = some irqVector →
        ∃ j, n ≤ j ∧ j < k ∧ as[j]? = some .stepCpu ∧ (state j).Unmasks := by
  intro state
  have hstart : IrqEnabled ({ cpu := .powerOn, ram, ppu, board, journal } : Machine μ) := by
    intro hirq
    have hnone : Cpu.powerOn.interrupt = .irq := hirq
    cases hnone
  have henabled : ∀ n, (state n).IrqEnabled := fun n =>
    actAll_invariant hstart (fun _ a hm => irqEnabled_act hm a) _
  have hserved : ∀ n, (state n).entered? = some irqVector →
      (state n).cpu.flag Status.irqDisable = false := fun n hentry =>
    henabled n ((entered?_eq_irqVector_iff _).mp hentry).2
  refine ⟨henabled, hserved, fun n k hnk hn hentry hk hentry' => ?_⟩
  refine Classical.byContradiction fun hnever => ?_
  -- nothing clears the flag between the two entries, so the second one finds it set
  have hmasked : (state k).cpu.masked = true := by
    refine masked_actAll_take hn hentry hnk ?_ fun j hj hjk hstep hu =>
      hnever ⟨j, hj, hjk, hstep, hu⟩
    exact Nat.le_of_lt (List.getElem?_eq_some_iff.mp hk).1
  have hclear := hserved k hentry'
  rw [show (state k).cpu.flag Status.irqDisable = true from hmasked] at hclear
  cases hclear

/-- A board with the interrupt line held down for good. Every byte on it is 0. -/
structure HeldLine where
  cartridge : Cartridge := .ofParts #[] #[] 0 .horizontal false

instance : Board HeldLine where
  cartridge := HeldLine.cartridge
  cpuRead b _ := (0, b)
  cpuWrite b _ _ := b
  ppuRead _ _ := some 0
  ppuWrite b _ _ := b
  irqPending _ := true

/-- Work RAM that holds the instruction which enables interrupts throughout. Address 0, where the
CPU is at power-on and where the vector of this board leads, lies in it. -/
def enablingRam : Ram := ⟨Vector.replicate ramSize 0x58⟩

/-- Three instructions with a dot after each of the first two. The second and the third one are
entered from the interrupt line, and the second clears the flag for the third. -/
theorem irq_masked_never_served_heldLine :
    let as : List Action := [.stepCpu, .dot, .stepCpu, .dot, .stepCpu]
    let state (n : Nat) : Machine HeldLine :=
      actAll { ram := enablingRam, board := {} } (as.take n)
    (state 2).entered? = some irqVector ∧ (state 4).entered? = some irqVector ∧
      ∃ j, 2 ≤ j ∧ j < 4 ∧ as[j]? = some .stepCpu ∧ (state j).Unmasks := by
  intro as state
  have hfirst : (state 2).entered? = some irqVector := by decide +kernel
  have hsecond : (state 4).entered? = some irqVector := by decide +kernel
  obtain ⟨-, -, hbetween⟩ := irq_masked_never_served enablingRam .powerOn ({} : HeldLine) {} as
  exact ⟨hfirst, hsecond, hbetween 2 4 (by decide) rfl hfirst rfl hsecond⟩

end Nes.Machine
