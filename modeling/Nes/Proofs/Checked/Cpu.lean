import Nes.Proofs.Checked.Arithmetic
import Nes.Proofs.Cpu.Timing
import Nes.Proofs.Ppu.Fields

/-!
# Checked steps of the CPU

Addition and subtraction through the carry are done in words and checked there, and so are the cycle
counter and the wait. Everything else that an instruction does to the registers wraps around or
shifts by a fixed distance. A step has its plain result as long as the counter has room for the
cycles of one instruction (`Wired.stepChecked_eq`).
-/

set_option autoImplicit false

namespace Nes

/-! ## Addition and subtraction -/

namespace Cpu

/-- Adds a byte and the carry to A, as a word. -/
def addWithCarryChecked (c : Cpu) (value : UInt8) : Option Cpu := do
  let bytes ← Checked.add 16 c.a.toNat value.toNat
  let sum ← Checked.add 16 bytes c.carry.toNat
  let result := UInt8.ofNat sum
  some (((({ c with a := result }).updateZN result).setFlag Status.carry
    (decide (0xFF < sum))).setFlag Status.overflow
      (decide ((c.a ^^^ value) &&& 0x80 = 0 ∧ (c.a ^^^ result) &&& 0x80 ≠ 0)))

/-- Subtracts a byte and the borrow from A, as a signed word. -/
def subtractWithCarryChecked (c : Cpu) (value : UInt8) : Option Cpu := do
  let bytes ← Checked.signed 16 (c.a.toNat - value.toNat)
  let borrow ← Checked.signed 16 (1 - c.carry.toNat)
  let difference ← Checked.signed 16 (bytes - borrow)
  let result := UInt8.ofInt difference
  some (((({ c with a := result }).updateZN result).setFlag Status.carry
    (decide (0 ≤ difference))).setFlag Status.overflow
      (decide ((c.a ^^^ value) &&& 0x80 ≠ 0 ∧ (c.a ^^^ result) &&& 0x80 ≠ 0)))

theorem toNat_carry_le (c : Cpu) : c.carry.toNat ≤ 1 := by
  rw [carry, UInt8.toNat_and]
  exact Nat.and_le_right

theorem addWithCarryChecked_eq (c : Cpu) (value : UInt8) :
    c.addWithCarryChecked value = some (c.addWithCarry value) := by
  have ha := c.a.toNat_lt
  have hvalue := value.toNat_lt
  have hcarry := c.toNat_carry_le
  have hbytes : c.a.toNat + value.toNat < 2 ^ 16 := by omega
  have hsum : c.a.toNat + value.toNat + c.carry.toNat < 2 ^ 16 := by omega
  have hresult : UInt8.ofNat (c.a.toNat + value.toNat + c.carry.toNat) =
      c.a + value + c.carry := by
    rw [UInt8.ofNat_add, UInt8.ofNat_add, UInt8.ofNat_toNat, UInt8.ofNat_toNat,
      UInt8.ofNat_toNat]
  rw [addWithCarryChecked, Checked.add_eq hbytes]
  simp only [Option.bind_eq_bind, Option.bind_some, Checked.add_eq hsum, hresult]
  rfl

theorem subtractWithCarryChecked_eq (c : Cpu) (value : UInt8) :
    c.subtractWithCarryChecked value = some (c.subtractWithCarry value) := by
  have ha := c.a.toNat_lt
  have hvalue := value.toNat_lt
  have hcarry := c.toNat_carry_le
  have hbytes : Checked.signed 16 ((c.a.toNat : Int) - value.toNat) =
      some ((c.a.toNat : Int) - value.toNat) := Checked.signed_eq (by omega)
  have hborrow : Checked.signed 16 (1 - (c.carry.toNat : Int)) =
      some (1 - (c.carry.toNat : Int)) := Checked.signed_eq (by omega)
  have hdifference : Checked.signed 16 ((c.a.toNat : Int) - value.toNat - (1 - c.carry.toNat)) =
      some ((c.a.toNat : Int) - value.toNat - (1 - c.carry.toNat)) := Checked.signed_eq (by omega)
  have hresult : UInt8.ofInt ((c.a.toNat : Int) - value.toNat - (1 - c.carry.toNat)) =
      c.a - value - (1 - c.carry) := by
    apply UInt8.toNat_inj.mp
    rw [UInt8.ofInt, UInt8.toNat_ofNat', UInt8.toNat_sub, UInt8.toNat_sub, UInt8.toNat_sub,
      UInt8.toNat_one]
    omega
  have hsign : decide (0 ≤ (c.a.toNat : Int) - value.toNat - (1 - c.carry.toNat)) =
      decide (value.toNat + (1 - c.carry.toNat) ≤ c.a.toNat) := by
    rw [decide_eq_decide]
    omega
  rw [subtractWithCarryChecked, hbytes]
  simp only [Option.bind_eq_bind, Option.bind_some, hborrow, hdifference, hresult, hsign]
  rfl

end Cpu

/-! ## Cycles -/

namespace Wired

variable {β : Type} [Bus β]

/-- Counts cycles. -/
def countChecked (s : Wired β) (cycles : Nat) : Option (Wired β) :=
  (Checked.add 64 s.cpu.cycles cycles).map fun total => s.mapCpu fun c => { c with cycles := total }

/-- Enters the handler of the waiting interrupt, if there is one. -/
def serveInterruptChecked (s : Wired β) : Option (Wired β) :=
  match s.cpu.interrupt.vector? with
  | none => some s
  | some vector =>
      ((s.mapCpu fun c => { c with interrupt := .none }).enterInterrupt vector).countChecked
        interruptCycles

/-- Moves on to the next instruction and counts the cycles of this one. -/
def advanceChecked (s : Wired β) (i : Instruction) : Option (Wired β) := do
  let counted ← (s.mapCpu fun c => { c with pc := i.next }).countChecked i.opcode.cycles
  if i.operand.crossed then counted.countChecked i.opcode.pageCycles else some counted

/-- Makes the CPU wait for a transfer that has just been started. -/
def chargeOamDmaChecked (s : Wired β) : Option (Wired β) :=
  let r := Bus.takeOamDma s.bus
  let s := { s with bus := r.2 }
  if r.1 then do
    let wait ← Checked.add 32 dmaStallCycles (s.cpu.cycles % 2)
    let stall ← Checked.add 32 s.cpu.stall wait
    some (s.mapCpu fun c => { c with stall })
  else some s

/-- Takes a branch, whose cycles are counted one by one. -/
def takeBranchChecked (s : Wired β) (i : Instruction) : Option (Wired β) := do
  let counted ← (s.mapCpu fun c => { c with pc := i.operand.address }).countChecked 1
  if pageOf i.next = pageOf i.operand.address then some counted else counted.countChecked 1

/-- Reads the operand and works it into the registers. -/
def loadChecked (f : Cpu → UInt8 → Option Cpu) (i : Instruction) (s : Wired β) :
    Option (Wired β) :=
  let r := s.read i.operand.address
  (f r.2.cpu r.1).map fun cpu => { r.2 with cpu }

/-- Reads a byte, writes back another and works that into the registers; on the accumulator, the
byte is A. -/
def modifyChecked (f : Cpu → UInt8 → UInt8 × Cpu) (g : Cpu → UInt8 → Option Cpu) (i : Instruction)
    (s : Wired β) : Option (Wired β) :=
  if i.opcode.mode = .accumulator then
    let m := f s.cpu s.cpu.a
    (g m.2 m.1).map fun cpu => { s with cpu := { cpu with a := m.1 } }
  else
    let r := s.read i.operand.address
    let m := f r.2.cpu r.1
    (g m.2 m.1).map fun cpu => { r.2.write i.operand.address m.1 with cpu }

/-- Carries out the effect of an instruction. -/
def executeChecked (s : Wired β) (i : Instruction) : Option (Wired β) :=
  match i.opcode.mnemonic with
  | .adc => s.loadChecked Cpu.addWithCarryChecked i
  | .sbc => s.loadChecked Cpu.subtractWithCarryChecked i
  | .rra => s.modifyChecked Cpu.rotateRight Cpu.addWithCarryChecked i
  | .isc => s.modifyChecked Cpu.countUp Cpu.subtractWithCarryChecked i
  | mnemonic =>
      match mnemonic.effect with
      | .branch taken => if taken s.cpu then s.takeBranchChecked i else some s
      | effect => some (effect.run i s)

/-- Runs one instruction, entering the waiting interrupt before it. -/
def runInstructionChecked (s : Wired β) : Option (Wired β) := do
  let entered ← s.serveInterruptChecked
  let r := entered.fetch
  let ready ← r.2.advanceChecked r.1
  let executed ← ready.executeChecked r.1
  executed.chargeOamDmaChecked

/-- One step, and the cycles it took. -/
def stepChecked (s : Wired β) : Option (Nat × Wired β) :=
  if s.cpu.stall = 0 then do
    let t ← s.runInstructionChecked
    let cycles ← Checked.sub t.cpu.cycles s.cpu.cycles
    some (cycles, t)
  else do
    let stall ← Checked.sub s.cpu.stall 1
    some (1, s.mapCpu fun c => { c with stall })

omit [Bus β] in
theorem countChecked_eq {s : Wired β} {n : Nat} (h : s.cpu.cycles + n < 2 ^ 64) :
    s.countChecked n = some (s.mapCpu fun c => { c with cycles := c.cycles + n }) := by
  rw [countChecked, Checked.add_eq h]
  rfl

theorem serveInterruptChecked_eq {s : Wired β} (h : s.cpu.cycles + interruptCycles < 2 ^ 64) :
    s.serveInterruptChecked = some s.serveInterrupt := by
  have henter : ∀ vector, ((s.mapCpu fun c => { c with interrupt := .none }).enterInterrupt
      vector).countChecked interruptCycles = some (s.enter vector) := fun vector =>
    countChecked_eq (by exact h)
  unfold serveInterruptChecked
  rw [serveInterrupt_eq]
  cases s.cpu.interrupt.vector? with
  | none => rfl
  | some vector => exact henter vector

omit [Bus β] in
theorem advanceChecked_eq {s : Wired β} {i : Instruction} (h : s.cpu.cycles + i.cycles < 2 ^ 64) :
    s.advanceChecked i = some (s.advance i) := by
  unfold Instruction.cycles at h
  have hbase : s.cpu.cycles + i.opcode.cycles < 2 ^ 64 := by omega
  let counted := s.mapCpu fun c => { c with pc := i.next, cycles := c.cycles + i.opcode.cycles }
  have hcounted : (s.mapCpu fun c => { c with pc := i.next }).countChecked i.opcode.cycles =
      some counted := countChecked_eq (s := s.mapCpu fun c => { c with pc := i.next }) hbase
  rw [advanceChecked, hcounted, advance, Instruction.cycles]
  simp only [Option.bind_eq_bind, Option.bind_some]
  split
  · next hcrossed =>
      rw [if_pos hcrossed, ← Nat.add_assoc] at h
      rw [countChecked_eq (s := counted) h]
      simp only [← Nat.add_assoc]
      rfl
  · rfl

omit [Bus β] in
theorem takeBranchChecked_eq {s : Wired β} {i : Instruction}
    (h : s.cpu.cycles + (if pageOf i.next = pageOf i.operand.address then 1 else 2) < 2 ^ 64) :
    s.takeBranchChecked i = some (s.mapCpu fun c => c.takeBranch i) := by
  let moved := s.mapCpu fun c => { c with pc := i.operand.address }
  let counted := moved.mapCpu fun c => { c with cycles := c.cycles + 1 }
  have hone : s.cpu.cycles + 1 < 2 ^ 64 := by split at h <;> omega
  have hcounted : moved.countChecked 1 = some counted := countChecked_eq (s := moved) hone
  show (moved.countChecked 1).bind _ = some (s.mapCpu fun c => c.takeBranch i)
  rw [hcounted, Option.bind_some]
  unfold Cpu.takeBranch
  by_cases hpage : pageOf i.next = pageOf i.operand.address
  · rw [if_pos hpage, if_pos hpage]
    rfl
  · rw [if_neg hpage] at h
    rw [if_neg hpage, if_neg hpage]
    exact countChecked_eq (s := counted) h

theorem loadChecked_eq {f : Cpu → UInt8 → Option Cpu} {g : Cpu → UInt8 → Cpu}
    (h : ∀ c value, f c value = some (g c value)) (i : Instruction) (s : Wired β) :
    s.loadChecked f i = some ((Effect.load g).run i s) := by
  rw [loadChecked, h]
  rfl

theorem modifyChecked_eq {f : Cpu → UInt8 → UInt8 × Cpu} {g : Cpu → UInt8 → Option Cpu}
    {g' : Cpu → UInt8 → Cpu} (h : ∀ c value, g c value = some (g' c value)) (i : Instruction)
    (s : Wired β) :
    s.modifyChecked f g i = some ((Effect.modify (Cpu.modifyThen f g')).run i s) := by
  simp only [modifyChecked, Effect.run, h]
  split <;> rfl

/-- The effect of an instruction does not fail while the counter has room for a branch. -/
theorem executeChecked_eq {s : Wired β} {i : Instruction}
    (h : s.cpu.cycles + i.opcode.mnemonic.effect.branchCycles i s.cpu < 2 ^ 64) :
    s.executeChecked i = some (i.opcode.mnemonic.effect.run i s) := by
  unfold executeChecked
  split
  case h_1 hm =>
    rw [hm]
    exact loadChecked_eq Cpu.addWithCarryChecked_eq i s
  case h_2 hm =>
    rw [hm]
    exact loadChecked_eq Cpu.subtractWithCarryChecked_eq i s
  case h_3 hm =>
    rw [hm]
    exact modifyChecked_eq Cpu.addWithCarryChecked_eq i s
  case h_4 hm =>
    rw [hm]
    exact modifyChecked_eq Cpu.subtractWithCarryChecked_eq i s
  case h_5 =>
    generalize i.opcode.mnemonic.effect = e at h
    cases e with
    | branch taken =>
        simp only [Effect.branchCycles, Effect.run] at h ⊢
        split
        · next htaken =>
            rw [if_pos htaken] at h
            exact takeBranchChecked_eq h
        · rfl
    | load | store | modify | registers | jump | call | returnFromCall | softwareInterrupt
    | returnFromInterrupt | pushA | pushStatus | pullA | pullStatus | idle => rfl

theorem chargeOamDmaChecked_eq {s : Wired β} (h : s.cpu.stall = 0) :
    s.chargeOamDmaChecked = some s.chargeOamDma := by
  have hwait : dmaStallCycles + s.cpu.cycles % 2 < 2 ^ 32 := by
    unfold dmaStallCycles
    omega
  unfold chargeOamDmaChecked chargeOamDma
  dsimp only
  split
  · have hstall : s.cpu.stall + (dmaStallCycles + s.cpu.cycles % 2) < 2 ^ 32 := by
      unfold dmaStallCycles
      omega
    rw [Checked.add_eq hwait]
    simp only [Option.bind_eq_bind, Option.bind_some, Checked.add_eq hstall]
    rfl
  · rfl

/-- An instruction does not fail while the counter has room for its cycles. -/
theorem runInstructionChecked_eq {s : Wired β} (hstall : s.cpu.stall = 0)
    (h : s.cpu.cycles + 18 < 2 ^ 64) : s.runInstructionChecked = some s.runInstruction := by
  have hcost := s.cost_le
  have hentry := s.cpu.interrupt.entryCycles_le
  have hserved : s.serveInterrupt.cpu.cycles = s.cpu.cycles + s.cpu.interrupt.entryCycles :=
    congrArg Cpu.Timing.cycles s.timing_serveInterrupt
  have hready : s.readied.cpu.cycles =
      s.cpu.cycles + s.cpu.interrupt.entryCycles + s.next.cycles :=
    congrArg (· + s.next.cycles) hserved
  have hexecuted : s.executed.cpu.stall = 0 :=
    (congrArg Cpu.Timing.stall s.timing_executed).trans hstall
  have hentered := serveInterruptChecked_eq (s := s) (by simp only [interruptCycles]; omega)
  unfold cost at hcost
  have hadvanced : s.serveInterrupt.fetch.2.advanceChecked s.next = some s.readied :=
    advanceChecked_eq (by
      show s.serveInterrupt.cpu.cycles + s.next.cycles < 2 ^ 64
      omega)
  have hrun : s.readied.executeChecked s.next = some s.executed := executeChecked_eq (by omega)
  rw [runInstructionChecked, hentered]
  show (s.serveInterrupt.fetch.2.advanceChecked s.next).bind _ = _
  rw [hadvanced, Option.bind_some]
  show (s.readied.executeChecked s.next).bind _ = _
  rw [hrun, Option.bind_some, chargeOamDmaChecked_eq hexecuted]
  rfl

/-- **A step does not fail** while the counter has room for the cycles of an instruction. -/
theorem stepChecked_eq {s : Wired β} (h : s.cpu.cycles + 18 < 2 ^ 64) :
    s.stepChecked = some s.step := by
  unfold stepChecked step
  split
  · next hstall =>
      have hcycles : s.runInstruction.cpu.cycles = s.cpu.cycles + s.cost :=
        congrArg Cpu.Timing.cycles s.timing_runInstruction
      rw [runInstructionChecked_eq hstall h]
      simp only [Option.bind_eq_bind, Option.bind_some,
        Checked.sub_eq (by omega : s.cpu.cycles ≤ s.runInstruction.cpu.cycles)]
  · next hstall =>
      rw [Checked.sub_eq (Nat.one_le_iff_ne_zero.mpr hstall)]
      rfl

end Wired

end Nes
