import Nes.Memory.Flat
import Nes.Proofs.Cpu.Account
import Nes.Proofs.Cpu.Cost
import Nes.Proofs.Cpu.Flags

/-!
# What an instruction leaves alone

Each family sets the registers of a short list (`Mnemonic.registers`) and the flags of a mask
(`Mnemonic.flags`), and goes on behind its instruction unless it jumps. Everything else of the
registers stays. The tables are finer than the masks that `Wired.bits_run` works with: there, all
results count as one.

Where zero and negative are set from a byte, `Mnemonic.result?` says which byte that is: the
register the family sets, the byte it writes back, or a difference that is kept nowhere.
-/

set_option autoImplicit false

namespace Nes

/-- The byte that was read or written. -/
def Exchange.byte : Exchange → UInt8
  | read _ answer => answer
  | write _ value => value

/-! ## Tables -/

/-- The registers of one byte, the status byte apart. -/
inductive Cpu.Register
  | a
  | x
  | y
  | sp
  deriving DecidableEq, Repr

/-- The content of a register. -/
def Cpu.register (c : Cpu) : Cpu.Register → UInt8
  | .a => c.a
  | .x => c.x
  | .y => c.y
  | .sp => c.sp

/-- The length of an instruction, from its first byte to the next instruction. The family that stops
the CPU has none. -/
def Opcode.length (o : Opcode) : Nat :=
  match o.mnemonic, o.mode with
  | .kil, _ => 0
  | _, .implied | _, .accumulator => 1
  | _, .absolute | _, .absoluteX | _, .absoluteY | _, .indirect => 3
  | _, _ => 2

theorem Opcode.size_eq_length (o : Opcode) : o.size = o.length := by
  obtain ⟨m, mode⟩ := o
  cases m <;> cases mode <;> rfl

namespace Mnemonic

/-- The families that go on somewhere else, whatever the flags. -/
def jumps : Mnemonic → Bool
  | jmp | jsr | rts | rti | brk => true
  | _ => false

/-- The families that shift or rotate and do nothing else. -/
def shifts : Mnemonic → Bool
  | asl | lsr | rol | ror => true
  | _ => false

/-- The registers that a family sets. Shifts set A only if they work on it. -/
def registers (m : Mnemonic) (mode : Mode) : List Cpu.Register :=
  match m with
  | adc | sbc | and | ora | eor | lda | txa | tya => [.a]
  | slo | rla | sre | rra | isc | anc | alr | arr => [.a]
  | asl | lsr | rol | ror => if mode = .accumulator then [.a] else []
  | pla => [.a, .sp]
  | lax => [.a, .x]
  | las => [.a, .x, .sp]
  | ldx | tax | tsx | inx | dex | axs => [.x]
  | ldy | tay | iny | dey => [.y]
  | pha | php | plp | jsr | rts | rti | brk | txs => [.sp]
  | _ => []

/-- The flags that a family sets. -/
def flags : Mnemonic → UInt8
  | adc | sbc | rra | isc | arr =>
      Status.carry ||| Status.zero ||| Status.overflow ||| Status.negative
  | cmp | cpx | cpy | asl | lsr | rol | ror | slo | rla | sre | dcp | anc | alr | axs =>
      Status.carry ||| Status.zero ||| Status.negative
  | bit => Status.zero ||| Status.overflow ||| Status.negative
  | lda | ldx | ldy | lax | las | and | ora | eor | pla => Status.zero ||| Status.negative
  | inc | dec | inx | iny | dex | dey => Status.zero ||| Status.negative
  | tax | tay | txa | tya | tsx => Status.zero ||| Status.negative
  | clc | sec => Status.carry
  | clv => Status.overflow
  | cli | sei | brk => Status.irqDisable
  | cld | sed => Status.decimal
  | plp | rti => 0xFF
  | _ => 0

/-- The byte that zero and negative are set from, by the registers before and after the instruction
and the last byte that it has read or written. -/
def result? (m : Mnemonic) (mode : Mode) (before after : Cpu) (last : UInt8) : Option UInt8 :=
  match m with
  | adc | sbc | and | ora | eor | lda | txa | tya | pla => some after.a
  | slo | rla | sre | rra | isc | anc | alr | arr | lax | las => some after.a
  | ldx | tax | tsx | inx | dex | axs => some after.x
  | ldy | tay | iny | dey => some after.y
  | asl | lsr | rol | ror => some (if mode = .accumulator then after.a else last)
  | inc | dec => some last
  | cmp | dcp => some (before.a - last)
  | cpx => some (before.x - last)
  | cpy => some (before.y - last)
  | _ => none

end Mnemonic

/-- Only shifts work on the accumulator. -/
theorem Opcode.shifts_of_accumulator {b : UInt8} (h : (Opcode.ofByte b).mode = .accumulator) :
    (Opcode.ofByte b).mnemonic.shifts = true := by
  have hfields : ∀ (group : Fin 4) (column row : Fin 8),
      Mode.ofFields group column row = .accumulator →
        (Mnemonic.line group column)[row].shifts = true := by
    decide
  exact hfields _ _ _ h

/-! ## Single registers -/

namespace Cpu

variable (c : Cpu) (value : UInt8) {r : Register}

@[simp] theorem register_setFlag (mask : UInt8) (on : Bool) :
    (c.setFlag mask on).register r = c.register r := by
  cases r <;> rfl

@[simp] theorem register_updateZN : (c.updateZN value).register r = c.register r := by
  simp [updateZN]

/-- What is not a register of one byte does not count. -/
@[simp] theorem register_moved (pc : UInt16) (p : UInt8) (cycles stall : Nat)
    (interrupt : Interrupt) :
    ({ c with pc, p, cycles, stall, interrupt } : Cpu).register r = c.register r := by
  cases r <;> rfl

theorem register_update_a (h : r ≠ .a) :
    ({ c with a := value } : Cpu).register r = c.register r := by
  cases r <;> first | rfl | exact absurd rfl h

theorem register_setA (h : r ≠ .a) : (c.setA value).register r = c.register r := by
  rw [setA, register_updateZN, register_update_a c value h]

theorem register_setX (h : r ≠ .x) : (c.setX value).register r = c.register r := by
  rw [setX, register_updateZN]
  cases r <;> first | rfl | exact absurd rfl h

theorem register_setY (h : r ≠ .y) : (c.setY value).register r = c.register r := by
  rw [setY, register_updateZN]
  cases r <;> first | rfl | exact absurd rfl h

/-- The stack pointer, with what may change next to it. -/
theorem register_update_sp (h : r ≠ .sp) (pc : UInt16) (p : UInt8) :
    ({ c with sp := value, pc, p } : Cpu).register r = c.register r := by
  cases r <;> first | rfl | exact absurd rfl h

theorem register_addWithCarry (h : r ≠ .a) : (c.addWithCarry value).register r = c.register r := by
  simp [addWithCarry, register_update_a c _ h]

theorem register_subtractWithCarry (h : r ≠ .a) :
    (c.subtractWithCarry value).register r = c.register r := by
  simp [subtractWithCarry, register_update_a c _ h]

@[simp] theorem register_compare (left right : UInt8) :
    (c.compare left right).register r = c.register r := by
  simp [Cpu.compare]

@[simp] theorem register_shiftLeft : (c.shiftLeft value).2.register r = c.register r := by
  simp [shiftLeft]

@[simp] theorem register_shiftRight : (c.shiftRight value).2.register r = c.register r := by
  simp [shiftRight]

@[simp] theorem register_rotateLeft : (c.rotateLeft value).2.register r = c.register r := by
  simp [rotateLeft]

@[simp] theorem register_rotateRight : (c.rotateRight value).2.register r = c.register r := by
  simp [rotateRight]

end Cpu

/-! ## Flags of a result -/

namespace Cpu

/-- Zero and negative are those of a byte. -/
structure Tells (c : Cpu) (result : UInt8) : Prop where
  zero : c.flag Status.zero = decide (result = 0)
  negative : c.flag Status.negative = result.toNat.testBit 7

variable (c : Cpu) (value : UInt8)

theorem tells_updateZN : (c.updateZN value).Tells value where
  zero := by rw [updateZN, flag_setFlag _ (by decide), flag_setFlag_self _ (by decide)]
  negative := by
    rw [updateZN, flag_setFlag_self _ (by decide), Bool.eq_iff_iff, decide_eq_true_iff]
    exact Byte.and_ne_zero_iff value rfl

variable {c} in
/-- Carry and overflow do not count. -/
theorem Tells.setFlag {result mask : UInt8} (h : c.Tells result)
    (hmask : mask = Status.carry ∨ mask = Status.overflow) (on : Bool) :
    (c.setFlag mask on).Tells result := by
  obtain rfl | rfl := hmask
  · exact ⟨(c.flag_setFlag (by decide) on).trans h.zero,
      (c.flag_setFlag (by decide) on).trans h.negative⟩
  · exact ⟨(c.flag_setFlag (by decide) on).trans h.zero,
      (c.flag_setFlag (by decide) on).trans h.negative⟩

variable {c} in
/-- A is kept apart from the flags. -/
theorem Tells.update_a {result : UInt8} (h : c.Tells result) :
    ({ c with a := value } : Cpu).Tells result :=
  ⟨h.zero, h.negative⟩

theorem tells_addWithCarry : (c.addWithCarry value).Tells (c.addWithCarry value).a :=
  ((tells_updateZN _ _).setFlag (.inl rfl) _).setFlag (.inr rfl) _

theorem tells_subtractWithCarry :
    (c.subtractWithCarry value).Tells (c.subtractWithCarry value).a :=
  ((tells_updateZN _ _).setFlag (.inl rfl) _).setFlag (.inr rfl) _

theorem tells_compare (left right : UInt8) : (c.compare left right).Tells (left - right) :=
  (tells_updateZN _ _).setFlag (.inl rfl) _

theorem tells_andShift : (c.andShift value).Tells (c.andShift value).a :=
  (tells_updateZN _ ((c.a &&& value) >>> 1)).update_a _

theorem tells_andRotate : (c.andRotate value).Tells (c.andRotate value).a :=
  ((tells_updateZN _ _).setFlag (.inl rfl) _).setFlag (.inr rfl) _

theorem tells_subtractIntoX : (c.subtractIntoX value).Tells (c.subtractIntoX value).x :=
  (tells_updateZN _ _).setFlag (.inl rfl) _

theorem tells_andCopySign : (c.andCopySign value).Tells (c.andCopySign value).a :=
  (tells_updateZN _ _).setFlag (.inl rfl) _

end Cpu

/-! ## Effects -/

section Effects

variable {m : Mnemonic} {i : Instruction} {c d : Cpu} {made : List Exchange}

open Cpu in
/-- **A register outside the list of its family stays.** -/
theorem Effect.CarriesOut.register (h : m.effect.CarriesOut i c made d)
    (hmode : i.opcode.mode = .accumulator → m.shifts = true) {r : Cpu.Register}
    (hr : r ∉ m.registers i.opcode.mode) : d.register r = c.register r := by
  cases m
  case asl | lsr | rol | ror =>
    cases h with
    | modify => simp
    | modifyA _ haccumulator =>
        rw [Mnemonic.registers, if_pos haccumulator, List.mem_singleton] at hr
        rw [register_update_a _ _ hr]
        simp
  -- the other families that modify do not do so on the accumulator
  case inc | dec | dcp =>
    cases h with
    | modify => simp [increment, decrement, modifyThen, countDown, compareA]
    | modifyA _ haccumulator => cases hmode haccumulator
  case slo | rla | sre | rra | isc =>
    have ha : r ≠ .a := by simpa [Mnemonic.registers] using hr
    cases h with
    | modify =>
        simp [modifyThen, countUp, andA, orA, xorA, register_setA, register_addWithCarry,
          register_subtractWithCarry, ha]
    | modifyA _ haccumulator => cases hmode haccumulator
  case adc | sbc | and | ora | eor | lda | txa | tya | anc | alr | arr =>
    have ha : r ≠ .a := by simpa [Mnemonic.registers] using hr
    cases h
    simp [andA, orA, xorA, andCopySign, andShift, andRotate, register_update_a, register_setA,
      register_addWithCarry, register_subtractWithCarry, ha, -pc_setFlag, -pc_updateZN]
  case ldx | tax | tsx | inx | dex | axs =>
    have hx : r ≠ .x := by simpa [Mnemonic.registers] using hr
    cases h
    simp [subtractIntoX, register_setX, hx]
  case ldy | tay | iny | dey =>
    have hy : r ≠ .y := by simpa [Mnemonic.registers] using hr
    cases h
    simp [register_setY, hy]
  case pha | php | plp | jsr | rts | rti | brk | txs =>
    have hsp : r ≠ .sp := by simpa [Mnemonic.registers] using hr
    cases h
    all_goals exact register_update_sp c _ hsp _ _
  case pla | lax | las =>
    cases h
    cases r <;> first | rfl | exact absurd (by simp [Mnemonic.registers]) hr
  -- what is left sets flags or goes somewhere
  all_goals cases h <;> simp [compareA, Cpu.compare, testBits, takeBranch]

open Cpu in
/-- **A flag outside the mask of its family stays.** -/
theorem Effect.CarriesOut.bits (h : m.effect.CarriesOut i c made d) {mask : UInt8}
    (hmask : m.flags &&& mask = 0) : d.bits mask = c.bits mask := by
  -- a flag of the family is apart from the mask on its own
  have hone : ∀ {other : UInt8}, other &&& m.flags = other → other &&& mask = 0 := by
    intro other hother
    rw [← hother, UInt8.and_assoc, hmask, UInt8.and_zero]
  cases m
  case adc | sbc | rra | isc | arr =>
    have hcarry := @hone Status.carry (by decide)
    have hzero := @hone Status.zero (by decide)
    have hoverflow := @hone Status.overflow (by decide)
    have hnegative := @hone Status.negative (by decide)
    cases h <;>
      simp (disch := assumption) [modifyThen, rotateRight, countUp, addWithCarry,
        subtractWithCarry, andRotate, setA, updateZN, bits_setFlag]
  case cmp | cpx | cpy | asl | lsr | rol | ror | slo | rla | sre | dcp | anc | alr | axs =>
    have hcarry := @hone Status.carry (by decide)
    have hzero := @hone Status.zero (by decide)
    have hnegative := @hone Status.negative (by decide)
    cases h <;>
      simp (disch := assumption) [modifyThen, shiftLeft, shiftRight, rotateLeft, rotateRight,
        countDown, compareA, Cpu.compare, andA, orA, xorA, andCopySign, andShift, subtractIntoX,
        setA, setX, updateZN, bits_setFlag]
  case bit =>
    have hzero := @hone Status.zero (by decide)
    have hoverflow := @hone Status.overflow (by decide)
    have hnegative := @hone Status.negative (by decide)
    cases h
    simp (disch := assumption) [testBits, bits_setFlag]
  case clc | sec | clv | cli | sei | cld | sed =>
    cases h
    exact c.bits_setFlag hmask _
  case brk =>
    cases h
    exact c.bits_setFlag hmask true
  case plp | rti =>
    -- all flags are set, so the mask is empty
    have hempty : mask = 0 := by
      rwa [show Mnemonic.flags _ = -1 from rfl, UInt8.neg_one_and] at hmask
    rw [hempty]
    exact UInt8.and_zero.trans UInt8.and_zero.symm
  case lda | ldx | ldy | lax | las | and | ora | eor | pla | inc | dec | inx | iny | dex | dey
    | tax | tay | txa | tya | tsx =>
    have hzero := @hone Status.zero (by decide)
    have hnegative := @hone Status.negative (by decide)
    cases h <;>
      simp (disch := assumption) [increment, decrement, loadAX, loadMasked, andA, orA, xorA, setA,
        setX, setY, updateZN, bits_setFlag]
  all_goals cases h <;> rfl

open Cpu in
/-- **Zero and negative tell of the result**, wherever the family leaves it. -/
theorem Effect.CarriesOut.tells {last result : UInt8} (h : m.effect.CarriesOut i c made d)
    (hmode : i.opcode.mode = .accumulator → m.shifts = true)
    (hlast : ∀ e, made.getLast? = some e → e.byte = last)
    (hresult : m.result? i.opcode.mode c d last = some result) : d.Tells result := by
  cases m
  case asl | lsr | rol | ror =>
    cases h with
    | modify _ _ hmemory =>
        rw [Mnemonic.result?, if_neg hmemory, ← hlast _ rfl] at hresult
        cases hresult
        exact tells_updateZN _ _
    | modifyA _ haccumulator =>
        rw [Mnemonic.result?, if_pos haccumulator] at hresult
        cases hresult
        exact (tells_updateZN _ _).update_a _
  case inc | dec =>
    cases h with
    | modify =>
        cases hlast _ rfl
        cases hresult
        exact tells_updateZN _ _
    | modifyA _ haccumulator => cases hmode haccumulator
  case dcp =>
    cases h with
    | modify =>
        cases hlast _ rfl
        cases hresult
        exact tells_compare _ _ _
    | modifyA _ haccumulator => cases hmode haccumulator
  case cmp | cpx | cpy =>
    cases h
    cases hlast _ rfl
    cases hresult
    exact tells_compare _ _ _
  case slo | rla | sre =>
    cases h with
    | modify =>
        cases hresult
        exact tells_updateZN _ _
    | modifyA _ haccumulator => cases hmode haccumulator
  case rra =>
    cases h with
    | modify =>
        cases hresult
        exact tells_addWithCarry _ _
    | modifyA _ haccumulator => cases hmode haccumulator
  case isc =>
    cases h with
    | modify =>
        cases hresult
        exact tells_subtractWithCarry _ _
    | modifyA _ haccumulator => cases hmode haccumulator
  case and | ora | eor | lda | txa | tya | pla | lax | las | ldx | tax | tsx | inx | dex | ldy | tay
    | iny | dey =>
    cases h
    cases hresult
    exact tells_updateZN _ _
  case adc | sbc | anc | alr | arr | axs =>
    cases h
    cases hresult
    simp only [tells_addWithCarry, tells_subtractWithCarry, tells_andCopySign, tells_andShift,
      tells_andRotate, tells_subtractIntoX]
  all_goals cases hresult

open Cpu in
/-- **An instruction goes on behind itself**, unless it jumps or takes a branch. -/
theorem Effect.CarriesOut.pc (h : m.effect.CarriesOut i c made d) (hjumps : m.jumps = false)
    (hbranch : ∀ mask on, m.condition? = some (mask, on) → c.flag mask ≠ on) : d.pc = c.pc := by
  cases m
  case bcc | bcs | bne | beq | bpl | bmi | bvc | bvs =>
    cases h with
    | taken _ htaken => exact absurd (by simpa using htaken) (hbranch _ _ rfl)
    | notTaken => rfl
  case jmp | jsr | rts | rti | brk => cases hjumps
  all_goals
    cases h <;>
      simp [shiftLeft, shiftRight, rotateLeft, rotateRight, increment, decrement, countUp,
        countDown, testBits, modifyThen, andA, orA, xorA, compareA, loadAX, loadMasked,
        andCopySign, andShift, andRotate, subtractIntoX, setA, setX, setY, addWithCarry,
        subtractWithCarry, Cpu.compare, withPulledStatus]

/-- Testing a byte copies its two highest bits, and compares it with A bit by bit. -/
theorem Effect.CarriesOut.bit (h : Mnemonic.bit.effect.CarriesOut i c made d) {last : UInt8}
    (hlast : ∀ e, made.getLast? = some e → e.byte = last) :
    d.flag Status.zero = decide (last &&& c.a = 0) ∧
      d.flag Status.overflow = last.toNat.testBit 6 ∧
      d.flag Status.negative = last.toNat.testBit 7 := by
  cases h with
  | load _ answer =>
      obtain rfl : answer = last := hlast _ rfl
      have hbit : ∀ {mask : UInt8} {k : Nat}, mask.toNat = 2 ^ k →
          decide (answer &&& mask ≠ 0) = answer.toNat.testBit k := by
        intro mask k hmask
        rw [Bool.eq_iff_iff, decide_eq_true_iff]
        exact Byte.and_ne_zero_iff answer hmask
      rw [Cpu.testBits, hbit (k := 6) rfl, hbit (k := 7) rfl]
      -- each flag is set once, and the flags set after it are others
      refine ⟨?_, ?_, Cpu.flag_setFlag_self _ (by decide) _⟩
      · rw [Cpu.flag_setFlag _ (by decide), Cpu.flag_setFlag_self _ (by decide)]
      · rw [Cpu.flag_setFlag _ (by decide), Cpu.flag_setFlag _ (by decide),
          Cpu.flag_setFlag_self _ (by decide)]

end Effects

/-! ## Steps -/

variable {β : Type} [Bus β]

/-- The opcode at the program counter. -/
def Wired.opcode (s : Wired β) : Opcode := Opcode.ofByte (Bus.read s.bus s.cpu.pc).1

/-- The byte that a step reads or writes last. A step that does not wait reads an opcode at least.
-/
def Wired.lastByte (s : Wired β) : UInt8 := (s.exchanges.getLast?.map Exchange.byte).getD 0

/-- What a step that runs one instruction leaves alone, and what it tells of a result. -/
structure Footprint (s : Wired β) : Prop where
  /-- The program counter moves over the instruction, around the end of memory. -/
  pc : s.opcode.mnemonic.jumps = false →
    (∀ mask on, s.opcode.mnemonic.condition? = some (mask, on) → s.cpu.flag mask ≠ on) →
    s.step.2.cpu.pc = s.cpu.pc + UInt16.ofNat s.opcode.length
  /-- Registers outside the list of the family stay. -/
  register : ∀ r, r ∉ s.opcode.mnemonic.registers s.opcode.mode →
    s.step.2.cpu.register r = s.cpu.register r
  /-- So do the flags outside its mask. -/
  flags : s.step.2.cpu.p &&& ~~~s.opcode.mnemonic.flags = s.cpu.p &&& ~~~s.opcode.mnemonic.flags
  /-- Zero and negative tell of the result, if the family has one. -/
  result : ∀ result,
    s.opcode.mnemonic.result? s.opcode.mode s.cpu s.step.2.cpu s.lastByte = some result →
    s.step.2.cpu.Tells result
  /-- The family that tests a byte has none. -/
  bit : s.opcode.mnemonic = .bit →
    s.step.2.cpu.flag Status.zero = decide (s.lastByte &&& s.cpu.a = 0) ∧
      s.step.2.cpu.flag Status.overflow = s.lastByte.toNat.testBit 6 ∧
      s.step.2.cpu.flag Status.negative = s.lastByte.toNat.testBit 7

/-- **The footprint of an instruction**, for every state of a CPU that neither waits nor has an
interrupt waiting, and every bus. -/
theorem footprint_of_step {s : Wired β} (hstall : s.cpu.stall = 0)
    (hnone : s.cpu.interrupt = .none) : Footprint s := by
  obtain ⟨entry, reads, effect, haccount⟩ := Wired.exists_account hstall
  have hserve := Wired.serveInterrupt_of_none hnone
  have hopcode : s.next.opcode = s.opcode := by
    show Opcode.ofByte s.serveInterrupt.fetch.1.byte = _
    rw [hserve]
    rfl
  have hready : s.serveInterrupt.cpu.movedOn s.next = s.cpu.movedOn s.next := by rw [hserve]
  have hrun := haccount.carriesOut
  rw [hready, hopcode] at hrun
  have hmode : s.next.opcode.mode = .accumulator → s.opcode.mnemonic.shifts = true := by
    rw [hopcode]
    exact Opcode.shifts_of_accumulator
  -- what the effect reads or writes comes last in the step
  have hlast : ∀ e, effect.getLast? = some e → e.byte = s.lastByte := by
    intro e he
    rw [Wired.lastByte, haccount.exchanges]
    simp [List.getLast?_append, List.getLast?_cons, he]
  have hstep := Wired.cpu_step_of_not_stalled hstall
  constructor
  case pc =>
    intro hjumps hbranch
    have hpc := hrun.pc hjumps hbranch
    rw [hstep, ← Opcode.size_eq_length, ← hopcode]
    refine hpc.trans ?_
    show s.next.next = _
    rw [Wired.next_next, hserve]
  case register =>
    intro r hr
    rw [hstep, Cpu.register_moved, hrun.register hmode (by rwa [hopcode])]
    exact Cpu.register_moved ..
  case flags =>
    rw [hstep]
    exact hrun.bits UInt8.and_not_self
  case result =>
    intro result hresult
    rw [hstep] at hresult ⊢
    have htells : s.executed.cpu.Tells result :=
      hrun.tells hmode hlast (by rw [hopcode]; exact hresult)
    exact ⟨htells.zero, htells.negative⟩
  case bit =>
    intro hbit
    rw [hbit] at hrun
    rw [hstep]
    exact hrun.bit hlast

/-- An addition goes on behind its two bytes, here around the end of memory. It sets no register but
A, and leaves the flags alone that do not tell of a sum. -/
theorem footprint_of_step_filled :
    let s : Wired Flat := ⟨{ pc := 0xFFFF, a := 0x98 }, Flat.filled 0x69⟩
    s.cpu.stall = 0 ∧ s.cpu.interrupt = .none ∧ s.opcode = ⟨.adc, .immediate⟩ ∧ Footprint s ∧
      s.step.2.cpu.pc = 0x0001 ∧
      (∀ r, r ≠ .a → s.step.2.cpu.register r = s.cpu.register r) ∧
      s.step.2.cpu.p &&& 0x3C = 0x24 := by
  intro s
  have hopcode : s.opcode = ⟨.adc, .immediate⟩ := by
    show Opcode.ofByte ((Flat.filled 0x69).get 0xFFFF) = _
    rw [Flat.get_filled]
    decide
  have h : Footprint s := footprint_of_step rfl rfl
  obtain ⟨hpc, hregister, hflags, -, -⟩ := id h
  rw [hopcode] at hpc hregister hflags
  have hnext := hpc rfl fun _ _ hcondition => by cases hcondition
  refine ⟨rfl, rfl, hopcode, h, hnext.trans (by decide), ?_, hflags.trans (by decide)⟩
  intro r hr
  exact hregister r (by simpa [Mnemonic.registers] using hr)

end Nes
