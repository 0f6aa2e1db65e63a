import Nes.Proofs.Cpu.Accesses
import Nes.Proofs.Cpu.Flags
import Nes.Proofs.Ppu.Fields

/-!
# What a step costs

The cost of an instruction comes from three places: a table by opcode, the operand, which tells
whether an index has led to another page, and the effect of a branch. The tables list branches with
one cycle for a crossed page, and only the operand keeps that cycle from being charged.

Here the cost is said from what a programmer sees. `Wired.pageCost` looks at the base address and
the index, as numbers. `Wired.branchCost` looks at the flag that a branch tests, in the CPU as it is
before a waiting interrupt is entered, and at the pages of its target and of the next instruction.
`cost_of_step` is the sum of the parts, for every state of the CPU and every bus.
-/

set_option autoImplicit false

namespace Nes

/-! ## Pages as numbers -/

theorem toNat_pageOf (addr : UInt16) : (pageOf addr).toNat = addr.toNat / 256 * 256 := by
  have hlt : addr.toNat < 65536 := addr.toNat_lt
  have hmask : (0xFF00 : UInt16).toNat = (2 ^ 8 - 1) * 2 ^ 8 := by decide
  rw [pageOf, Word.toNat_and_field addr 8 8 hmask]
  omega

theorem pageOf_eq_iff (addr addr' : UInt16) :
    pageOf addr = pageOf addr' ↔ addr.toNat / 256 = addr'.toNat / 256 := by
  rw [← UInt16.toNat_inj, toNat_pageOf, toNat_pageOf]
  omega

/-- The modes that add an index to a word. -/
def Mode.addsIndex : Mode → Bool
  | absoluteX | absoluteY | indirectIndexed => true
  | _ => false

namespace Operand

/-- An index leads to another page when it carries out of the low byte of the base. The page after
the last one is the first. -/
theorem crossed_indexed (base : UInt16) (index : UInt8) :
    (indexed base index).crossed = true ↔ 255 < base.toNat % 256 + index.toNat := by
  have hbase : base.toNat < 65536 := base.toNat_lt
  have hindex : index.toNat < 256 := index.toNat_lt
  have hsum : (base + index.toUInt16).toNat = (base.toNat + index.toNat) % 65536 := by
    rw [UInt16.toNat_add, UInt8.toNat_toUInt16]
  simp only [indexed, decide_eq_true_iff, Ne, pageOf_eq_iff, hsum]
  omega

variable {β : Type} [Bus β]

/-- The base address and the index of an operand, in the modes that add an index to a word. -/
def parts? (c : Cpu) (b : β) : Mode → Option (UInt16 × UInt8)
  | .absoluteX => some ((Bus.readWord b (c.pc + 1)).1, c.x)
  | .absoluteY => some ((Bus.readWord b (c.pc + 1)).1, c.y)
  | .indirectIndexed =>
      let pointer := Bus.read b (c.pc + 1)
      some ((Bus.readPointer pointer.2 pointer.1.toUInt16).1, c.y)
  | _ => none

/-- The operand of a mode that adds an index is made of its parts. -/
theorem find_of_parts {c : Cpu} {b : β} {mode : Mode} {base : UInt16} {index : UInt8}
    (h : parts? c b mode = some (base, index)) : (find c b mode).1 = indexed base index := by
  cases mode
  case absoluteX | absoluteY | indirectIndexed =>
    obtain ⟨rfl, rfl⟩ : _ = base ∧ _ = index := Prod.mk.inj (Option.some.inj h)
    rfl
  all_goals cases h

/-- The other modes never lead to another page. -/
theorem crossed_of_no_parts {c : Cpu} {b : β} {mode : Mode} (h : parts? c b mode = none) :
    (find c b mode).1.crossed = false := by
  cases mode
  case absoluteX | absoluteY | indirectIndexed => cases h
  all_goals rfl

theorem addsIndex_of_parts {c : Cpu} {b : β} {mode : Mode} {parts : UInt16 × UInt8}
    (h : parts? c b mode = some parts) : mode.addsIndex = true := by
  cases mode
  case absoluteX | absoluteY | indirectIndexed => rfl
  all_goals cases h

end Operand

/-! ## Families -/

namespace Mnemonic

/-- The families that store a register, the ones that are not stable with them. -/
def isStore : Mnemonic → Bool
  | sta | stx | sty | sax | ahx | tas | shx | shy => true
  | _ => false

/-- The flag that a branch tests, and the value that takes it. -/
def condition? : Mnemonic → Option (UInt8 × Bool)
  | bcc => some (Status.carry, false)
  | bcs => some (Status.carry, true)
  | bne => some (Status.zero, false)
  | beq => some (Status.zero, true)
  | bpl => some (Status.negative, false)
  | bmi => some (Status.negative, true)
  | bvc => some (Status.overflow, false)
  | bvs => some (Status.overflow, true)
  | _ => none

/-- The families whose cost counts a crossed page always: they store, or read and write back. -/
def PaysAlways (m : Mnemonic) : Prop := m.isStore = true ∨ m.usage = .modify

instance (m : Mnemonic) : Decidable m.PaysAlways :=
  inferInstanceAs (Decidable (m.isStore = true ∨ m.usage = .modify))

theorem timing_eq_read_iff (m : Mnemonic) : m.timing = .read ↔ ¬ m.PaysAlways := by
  cases m <;> decide

/-- A branch costs cycles by its condition, and no other family does. -/
theorem branchCycles_effect (m : Mnemonic) (i : Instruction) (c : Cpu) :
    m.effect.branchCycles i c =
      match m.condition? with
      | some (mask, on) =>
          if c.flag mask = on then
            if pageOf i.next = pageOf i.operand.address then 1 else 2
          else 0
      | none => 0 := by
  cases m <;> simp [effect, Effect.branchCycles, condition?]

/-- Branches do not test the flag that disables interrupts. -/
theorem irqDisable_and_condition {m : Mnemonic} {mask : UInt8} {on : Bool}
    (h : m.condition? = some (mask, on)) : Status.irqDisable &&& mask = 0 := by
  cases m <;> cases h <;> rfl

end Mnemonic

namespace Opcode

/-- The table charges a page to the families that do not pay it always. -/
theorem pageCycles_of_addsIndex {o : Opcode} (h : o.mode.addsIndex = true) :
    o.pageCycles = if o.mnemonic.PaysAlways then 0 else 1 := by
  have hread := o.mnemonic.timing_eq_read_iff
  have htable : o.pageCycles = if o.mnemonic.timing = .read then 1 else 0 := by
    unfold pageCycles
    cases hmode : o.mode
    case absoluteX | absoluteY | indirectIndexed => cases o.mnemonic.timing <;> rfl
    all_goals
      rw [hmode] at h
      cases h
  rw [htable]
  by_cases hpays : o.mnemonic.PaysAlways
  · rw [if_pos hpays, if_neg (fun h => hread.mp h hpays)]
  · rw [if_neg hpays, if_pos (hread.mpr hpays)]

/-- No opcode costs more than 8 cycles with the page and the branch it may have to pay for. -/
theorem worst_le (o : Opcode) :
    o.cycles + (if o.mode.addsIndex = true ∧ ¬ o.mnemonic.PaysAlways then 1 else 0) +
      (if o.mnemonic.condition?.isSome then 2 else 0) ≤ 8 := by
  obtain ⟨m, mode⟩ := o
  cases m <;> cases mode <;> decide

end Opcode

/-! ## The parts of the cost -/

namespace Wired

variable {β : Type} [Bus β] (s : Wired β)

/-- The state in which the bytes of the next operand are read: the opcode has been. -/
def opened : Wired β := (s.serveInterrupt.read s.serveInterrupt.cpu.pc).2

/-- The cycle for an index that carries into another page. -/
def pageCost : Nat :=
  if s.next.opcode.mnemonic.PaysAlways then 0
  else
    match Operand.parts? s.opened.cpu s.opened.bus s.next.opcode.mode with
    | some (base, index) => if 255 < base.toNat % 256 + index.toNat then 1 else 0
    | none => 0

/-- The cycles of a taken branch. -/
def branchCost : Nat :=
  match s.next.opcode.mnemonic.condition? with
  | some (mask, on) =>
      if s.cpu.flag mask = on then
        if s.next.next.toNat / 256 = s.next.operand.address.toNat / 256 then 1 else 2
      else 0
  | none => 0

/-- The tables and the operand charge for a page what the base and the index ask for. -/
theorem cycles_next : s.next.cycles = s.next.opcode.cycles + s.pageCost := by
  have hcrossed : s.next.operand.crossed =
      (Operand.find s.opened.cpu s.opened.bus s.next.opcode.mode).1.crossed := rfl
  unfold Instruction.cycles pageCost
  rw [hcrossed]
  -- the table charges branches for a page too, but their operand never crosses one
  congr 1
  cases hparts : Operand.parts? s.opened.cpu s.opened.bus s.next.opcode.mode with
  | none =>
      rw [Operand.crossed_of_no_parts hparts]
      exact (ite_self 0).symm
  | some parts =>
      obtain ⟨base, index⟩ := parts
      rw [Operand.find_of_parts hparts,
        Opcode.pageCycles_of_addsIndex (Operand.addsIndex_of_parts hparts)]
      simp only [Operand.crossed_indexed]
      by_cases hpays : s.next.opcode.mnemonic.PaysAlways
      · rw [if_pos hpays, if_pos hpays, ite_self]
      · rw [if_neg hpays, if_neg hpays]

/-- A flag that branches test is the same before and after the entry into a handler. -/
theorem flag_readied {mask : UInt8} (h : Status.irqDisable &&& mask = 0) :
    s.readied.cpu.flag mask = s.cpu.flag mask := by
  have hserve : s.serveInterrupt.cpu.bits mask = s.cpu.bits mask := by
    rw [serveInterrupt_eq]
    cases s.cpu.interrupt.vector? with
    | none => rfl
    | some vector =>
        exact bits_enterInterrupt h (s.mapCpu fun c => { c with interrupt := .none }) vector
  rw [Cpu.flag_eq, Cpu.flag_eq, ← hserve]
  rfl

theorem branchCycles_next :
    s.next.opcode.mnemonic.effect.branchCycles s.next s.readied.cpu = s.branchCost := by
  rw [Mnemonic.branchCycles_effect, branchCost]
  cases hcondition : s.next.opcode.mnemonic.condition? with
  | none => rfl
  | some condition =>
      obtain ⟨mask, on⟩ := condition
      simp only [s.flag_readied (Mnemonic.irqDisable_and_condition hcondition), pageOf_eq_iff]

theorem cost_eq :
    s.cost = s.cpu.interrupt.entryCycles + s.next.opcode.cycles + s.pageCost + s.branchCost := by
  rw [cost, cycles_next, branchCycles_next, Nat.add_assoc _ s.next.opcode.cycles]

/-- An index and a branch together cost no more than the opcode allows. -/
theorem pageCost_le :
    s.pageCost ≤
      if s.next.opcode.mode.addsIndex = true ∧ ¬ s.next.opcode.mnemonic.PaysAlways then 1
      else 0 := by
  unfold pageCost
  by_cases hpays : s.next.opcode.mnemonic.PaysAlways
  · rw [if_pos hpays]
    exact Nat.zero_le _
  · rw [if_neg hpays]
    cases hparts : Operand.parts? s.opened.cpu s.opened.bus s.next.opcode.mode with
    | none => exact Nat.zero_le _
    | some parts =>
        rw [if_pos ⟨Operand.addsIndex_of_parts hparts, hpays⟩]
        show (if 255 < parts.1.toNat % 256 + parts.2.toNat then 1 else 0) ≤ 1
        split <;> decide

theorem branchCost_le :
    s.branchCost ≤ if s.next.opcode.mnemonic.condition?.isSome then 2 else 0 := by
  unfold branchCost
  cases s.next.opcode.mnemonic.condition? with
  | none => exact Nat.zero_le _
  | some condition =>
      show (if s.cpu.flag condition.1 = condition.2 then _ else 0) ≤ 2
      split
      · split <;> decide
      · exact Nat.zero_le 2

/-- An instruction without what comes before it costs 2 to 8 cycles. -/
theorem instruction_cost_bounds :
    2 ≤ s.next.opcode.cycles + s.pageCost + s.branchCost ∧
      s.next.opcode.cycles + s.pageCost + s.branchCost ≤ 8 := by
  have hbase := s.next.opcode.two_le_cycles
  have hworst := s.next.opcode.worst_le
  have hpage := s.pageCost_le
  have hbranch := s.branchCost_le
  omega

end Wired

/-! ## The cost law -/

/-- The cycles of a step, and what becomes of the cycle counter. -/
structure CostLaw {β : Type} [Bus β] (s : Wired β) : Prop where
  /-- A CPU that waits takes one cycle, which the counter does not count. -/
  stalled : s.cpu.stall ≠ 0 → s.step.1 = 1 ∧ s.step.2.cpu.cycles = s.cpu.cycles
  /-- Otherwise the counter goes on by what the step takes. -/
  counted : s.cpu.stall = 0 → s.step.2.cpu.cycles = s.cpu.cycles + s.step.1
  /-- That is the sum of the entry into a handler, the opcode, a crossed page and a taken branch. -/
  sum : s.cpu.stall = 0 →
    s.step.1 = (if s.cpu.interrupt = .none then 0 else 7) + s.next.opcode.cycles + s.pageCost +
      s.branchCost
  plain : s.cpu.stall = 0 → s.cpu.interrupt = .none → 2 ≤ s.step.1 ∧ s.step.1 ≤ 8
  interrupted : s.cpu.stall = 0 → s.cpu.interrupt ≠ .none → 9 ≤ s.step.1 ∧ s.step.1 ≤ 15

/-- **The cost of a step**, for every state of the CPU and every bus. -/
theorem cost_of_step {β : Type} [Bus β] (s : Wired β) : CostLaw s := by
  have hentry : s.cpu.interrupt.entryCycles = if s.cpu.interrupt = .none then 0 else 7 := by
    cases s.cpu.interrupt <;> rfl
  have hsum : s.cpu.stall = 0 →
      s.step.1 = (if s.cpu.interrupt = .none then 0 else 7) + s.next.opcode.cycles + s.pageCost +
        s.branchCost := by
    intro h
    rw [(Wired.step_of_not_stalled h).1, s.cost_eq, hentry]
  have hbounds := s.instruction_cost_bounds
  constructor
  case stalled =>
    intro h
    rw [Wired.step_of_stalled h]
    exact ⟨rfl, rfl⟩
  case counted =>
    intro h
    obtain ⟨hcost, hrun⟩ := Wired.step_of_not_stalled h
    rw [hcost, hrun]
    exact congrArg Cpu.Timing.cycles s.timing_runInstruction
  case sum => exact hsum
  case plain =>
    intro h hnone
    rw [hsum h, if_pos hnone]
    omega
  case interrupted =>
    intro h hsome
    rw [hsum h, if_neg hsome]
    omega

end Nes
