import Nes.Proofs.Cpu.StackMemory
import Nes.Proofs.Cpu.StatusBits
import Nes.Proofs.Machine.IrqService

/-!
# Leaving a program and coming back

An interrupt, the instruction that asks for one and a subroutine call leave an address on the stack,
the first two the status byte as well, and the instructions that return take it from there. The two
kinds of return do not agree on what the address means: a handler returns to the address itself, a
subroutine behind it.

Coming back restores the CPU except for its cycles, and the only bytes that have changed are those
of the stack that took the address and the status (`ComesBack`). The status byte survives because it
is marked: the copy differs from it in the break bit, which pulling clears again.
-/

set_option autoImplicit false

namespace Nes

open Wired (stackCell)

/-! ## What is saved -/

/-- The cells that a word takes. -/
def wordCells (sp : UInt8) : List UInt16 := [stackCell sp, stackCell (sp - 1)]

/-- The cells that a word and the status byte take. -/
def stateCells (sp : UInt8) : List UInt16 :=
  [stackCell sp, stackCell (sp - 1), stackCell (sp - 2)]

section Saved

variable (m : UInt16 → UInt8) (sp : UInt8) (word : UInt16) (status : UInt8)

/-- Memory with a word pushed. -/
def savedWord : UInt16 → UInt8 :=
  Function.update (Function.update m (stackCell sp) (word >>> 8).toUInt8) (stackCell (sp - 1))
    word.toUInt8

/-- Memory with a word and the status byte pushed. -/
def savedState : UInt16 → UInt8 :=
  Function.update (savedWord m sp word) (stackCell (sp - 1 - 1)) status

theorem wordOf_savedWord :
    wordOf (savedWord m sp word (stackCell (sp - 1))) (savedWord m sp word (stackCell sp)) =
      word := by
  obtain ⟨hfirst, -, -⟩ := Wired.stackCell_ne sp
  rw [savedWord, Function.update_self, Function.update_of_ne hfirst, Function.update_self,
    wordOf_bytes]

theorem savedState_status : savedState m sp word status (stackCell (sp - 1 - 1)) = status :=
  Function.update_self ..

theorem wordOf_savedState :
    wordOf (savedState m sp word status (stackCell (sp - 1)))
      (savedState m sp word status (stackCell sp)) = word := by
  obtain ⟨-, hsecond, hthird⟩ := Wired.stackCell_ne sp
  rw [savedState, Function.update_of_ne hthird, Function.update_of_ne hsecond, wordOf_savedWord]

variable {m sp word status}

theorem savedWord_of_notMem {addr : UInt16} (h : addr ∉ wordCells sp) :
    savedWord m sp word addr = m addr := by
  simp only [wordCells, List.mem_cons, List.not_mem_nil, or_false, not_or] at h
  rw [savedWord, Function.update_of_ne h.2, Function.update_of_ne h.1]

theorem savedState_of_notMem {addr : UInt16} (h : addr ∉ stateCells sp) :
    savedState m sp word status addr = m addr := by
  have htwo : sp - 1 - 1 = sp - 2 := by grind
  obtain ⟨hword, hstatus⟩ : addr ∉ wordCells sp ∧ addr ≠ stackCell (sp - 1 - 1) := by
    simp only [stateCells, wordCells, htwo, List.mem_cons, List.not_mem_nil, or_false,
      not_or] at h ⊢
    exact ⟨⟨h.1, h.2.1⟩, h.2.2⟩
  rw [savedState, Function.update_of_ne hstatus, savedWord_of_notMem hword]

end Saved

/-- The copy of a marked status byte that is pulled is that byte again. -/
theorem Cpu.Marked.rebuilt {c : Cpu} (h : c.Marked) :
    ((c.p ||| Status.brk) &&& ~~~Status.brk) ||| Status.unused = c.p := by
  refine UInt8.toBitVec_inj.mp (BitVec.eq_of_getElem_eq fun i hi => ?_)
  have hbrk := Cpu.getElem_and_eq_false h.brk hi
  have hunused : (c.p.toBitVec[i] && Status.unused.toBitVec[i]) = Status.unused.toBitVec[i] := by
    simpa [Cpu.bits] using congrArg (fun v : UInt8 => v.toBitVec[i]) h.unused
  simp only [UInt8.toBitVec_or, UInt8.toBitVec_and, UInt8.toBitVec_not, BitVec.getElem_or,
    BitVec.getElem_and, BitVec.getElem_not]
  -- either mark comes out as it stands in the live byte
  cases hp : c.p.toBitVec[i] <;> simp_all

/-! ## The instructions -/

/-- The mode of the families that jump by way of the stack. -/
def Mnemonic.stackMode? : Mnemonic → Option Mode
  | brk | rti | rts => some .implied
  | jsr => some .absolute
  | _ => none

theorem Opcode.mode_of_stackMode {b : UInt8} {mode : Mode}
    (h : (Opcode.ofByte b).mnemonic.stackMode? = some mode) : (Opcode.ofByte b).mode = mode := by
  have hfields : ∀ (group : Fin 4) (column row : Fin 8),
      (Mnemonic.line group column)[row].stackMode? = none ∨
        (Mnemonic.line group column)[row].stackMode? = some (Mode.ofFields group column row) := by
    decide
  obtain hnone | hsome := hfields (group b) (column b) (row b)
  · cases hnone.symm.trans h
  · exact Option.some.inj (hsome.symm.trans h)

namespace Wired

variable {β : Type} [Bus β]

/-- Where these instructions go on, and what they cost. -/
theorem cpu_readied_of_stackMode {s : Wired β} {mnemonic : Mnemonic} {mode : Mode}
    (h : s.next.opcode.mnemonic = mnemonic) (hmode : mnemonic.stackMode? = some mode)
    (hpage : (⟨mnemonic, mode⟩ : Opcode).pageCycles = 0) :
    s.readied.cpu =
      { s.serveInterrupt.cpu with
        pc := s.serveInterrupt.cpu.pc + UInt16.ofNat (⟨mnemonic, mode⟩ : Opcode).size
        cycles := s.serveInterrupt.cpu.cycles + (⟨mnemonic, mode⟩ : Opcode).cycles } := by
  have hopcode : s.next.opcode = ⟨mnemonic, mode⟩ := by
    rw [← h] at hmode ⊢
    rw [← Opcode.mode_of_stackMode hmode]
    rfl
  have hcycles : s.next.cycles = (⟨mnemonic, mode⟩ : Opcode).cycles := by
    rw [Instruction.cycles, hopcode, hpage, ite_self, Nat.add_zero]
  have hnext : s.next.next = s.serveInterrupt.cpu.pc + UInt16.ofNat s.next.opcode.size := rfl
  show ({ s.serveInterrupt.cpu with
    pc := s.next.next, cycles := s.serveInterrupt.cpu.cycles + s.next.cycles } : Cpu) = _
  rw [hnext, hcycles, hopcode]

theorem cpu_readied_of_none {s : Wired β} (hnone : s.cpu.interrupt = .none) {mnemonic : Mnemonic}
    {mode : Mode} (h : s.next.opcode.mnemonic = mnemonic) (hmode : mnemonic.stackMode? = some mode)
    (hpage : (⟨mnemonic, mode⟩ : Opcode).pageCycles = 0) :
    s.readied.cpu =
      { s.cpu with
        pc := s.cpu.pc + UInt16.ofNat (⟨mnemonic, mode⟩ : Opcode).size
        cycles := s.cpu.cycles + (⟨mnemonic, mode⟩ : Opcode).cycles } := by
  rw [cpu_readied_of_stackMode h hmode hpage, serveInterrupt_of_none hnone]

theorem executed_of_mnemonic {s : Wired β} {mnemonic : Mnemonic}
    (h : s.next.opcode.mnemonic = mnemonic) :
    s.executed = mnemonic.effect.run s.next s.readied := by
  rw [executed, h]

theorem cpu_enterInterrupt (s : Wired β) (vector : UInt16) :
    (s.enterInterrupt vector).cpu =
      { s.cpu with
        sp := s.cpu.sp - 1 - 1 - 1
        p := s.cpu.p ||| Status.irqDisable
        pc := (s.enterInterrupt vector).cpu.pc } :=
  rfl

theorem cpu_pushWord (s : Wired β) (word : UInt16) :
    (s.pushWord word).cpu = { s.cpu with sp := s.cpu.sp - 1 - 1 } :=
  rfl

end Wired

/-! ## On a stack in memory -/

section Memory

variable {β : Type} [Bus β] {region : UInt16 → Prop} {Holds : β → (UInt16 → UInt8) → Prop}
  (hmemory : Bus.Memory region Holds) (hstack : ∀ sp, region (stackCell sp)) {m : UInt16 → UInt8}
  {s : Wired β}
include hmemory

theorem Bus.Memory.readied (h : Holds s.serveInterrupt.bus m) : Holds s.readied.bus m :=
  hmemory.kept_fetch h

/-- What the instruction leaves is what the step leaves. -/
theorem Bus.Memory.step (hstall : s.cpu.stall = 0) (h : Holds s.executed.bus m) :
    s.step.2.cpu = s.executed.cpu ∧ Holds s.step.2.bus m := by
  rw [(Wired.step_of_not_stalled hstall).2]
  exact hmemory.chargeOamDma h

include hstack

theorem Bus.Memory.pushWord (h : Holds s.bus m) (word : UInt16) :
    Holds (s.pushWord word).bus (savedWord m s.cpu.sp word) :=
  hmemory.push hstack (hmemory.push hstack h _) _

/-- Entering a handler saves the program counter and the status. -/
theorem Bus.Memory.enterInterrupt (h : Holds s.bus m) (vector : UInt16) :
    Holds (s.enterInterrupt vector).bus
      (savedState m s.cpu.sp s.cpu.pc (s.cpu.p ||| Status.brk)) :=
  hmemory.kept_jumpThrough (hmemory.push hstack (hmemory.pushWord hstack h s.cpu.pc) _) vector

/-- Returning from a handler takes back what entering it has saved. -/
theorem Bus.Memory.returnFromInterrupt {sp : UInt8} {pc : UInt16} {c : Cpu} (hc : c.Marked)
    (h : Holds s.bus (savedState m sp pc (c.p ||| Status.brk))) (hsp : s.cpu.sp = sp - 1 - 1 - 1)
    (i : Instruction) :
    (Effect.returnFromInterrupt.run i s).cpu = { s.cpu with sp := sp, p := c.p, pc := pc } ∧
      Holds (Effect.returnFromInterrupt.run i s).bus
        (savedState m sp pc (c.p ||| Status.brk)) := by
  -- what was pushed last is pulled first, so the status byte comes before the address
  obtain ⟨hstatus, hrest⟩ := hmemory.pull hstack h
  obtain ⟨hword, hend⟩ := hmemory.pullWord hstack (s := s.pullStatus) hrest
  have hsp' : s.pullStatus.cpu.sp = sp - 1 - 1 := by
    show s.cpu.sp + 1 = _
    rw [hsp, UInt8.sub_add_cancel]
  rw [hsp, UInt8.sub_add_cancel, savedState_status] at hstatus
  rw [hsp', UInt8.sub_add_cancel, UInt8.sub_add_cancel, wordOf_savedState] at hword
  refine ⟨?_, hend⟩
  show ({ s.cpu with
    sp := s.pullStatus.cpu.sp + 1 + 1
    p := (s.pull.1 &&& ~~~Status.brk) ||| Status.unused
    pc := s.pullStatus.pullWord.1 } : Cpu) = _
  rw [hstatus, hword, hc.rebuilt, hsp', UInt8.sub_add_cancel, UInt8.sub_add_cancel]

/-- Returning from a subroutine takes back what calling it has saved. -/
theorem Bus.Memory.returnFromCall {sp : UInt8} {word : UInt16}
    (h : Holds s.bus (savedWord m sp word)) (hsp : s.cpu.sp = sp - 1 - 1) (i : Instruction) :
    (Effect.returnFromCall.run i s).cpu = { s.cpu with sp := sp, pc := word + 1 } ∧
      Holds (Effect.returnFromCall.run i s).bus (savedWord m sp word) := by
  obtain ⟨hword, hend⟩ := hmemory.pullWord hstack h
  rw [hsp, UInt8.sub_add_cancel, UInt8.sub_add_cancel, wordOf_savedWord] at hword
  refine ⟨?_, hend⟩
  show ({ s.cpu with sp := s.cpu.sp + 1 + 1, pc := s.pullWord.1 + 1 } : Cpu) = _
  rw [hword, hsp, UInt8.sub_add_cancel, UInt8.sub_add_cancel]

/-! ## Steps -/

/-- The step that returns from a handler, also right after entering it. -/
theorem Bus.Memory.step_rti {sp : UInt8} {pc : UInt16} {c : Cpu} (hc : c.Marked)
    (hstall : s.cpu.stall = 0) (hnext : s.next.opcode.mnemonic = .rti)
    (h : Holds s.serveInterrupt.bus (savedState m sp pc (c.p ||| Status.brk)))
    (hsp : s.serveInterrupt.cpu.sp = sp - 1 - 1 - 1) :
    s.step.2.cpu =
        { s.serveInterrupt.cpu with
          sp := sp, p := c.p, pc := pc, cycles := s.serveInterrupt.cpu.cycles + 6 } ∧
      Holds s.step.2.bus (savedState m sp pc (c.p ||| Status.brk)) := by
  have hready := Wired.cpu_readied_of_stackMode hnext rfl rfl
  have hsp' : s.readied.cpu.sp = sp - 1 - 1 - 1 := hsp
  obtain ⟨hcpu, hbus⟩ :=
    hmemory.returnFromInterrupt hstack hc (hmemory.readied h) hsp' s.next
  have hexecuted : s.executed = Effect.returnFromInterrupt.run s.next s.readied :=
    Wired.executed_of_mnemonic hnext
  rw [← hexecuted] at hcpu hbus
  obtain ⟨hstep, hend⟩ := hmemory.step hstall hbus
  refine ⟨?_, hend⟩
  rw [hstep, hcpu, hready]
  rfl

/-- The step that asks for an interrupt: the program goes on at a handler, with its place and its
status byte saved. -/
theorem Bus.Memory.step_brk (hstall : s.cpu.stall = 0) (hinterrupt : s.cpu.interrupt = .none)
    (hnext : s.next.opcode.mnemonic = .brk) (h : Holds s.bus m) :
    (∃ pc, s.step.2.cpu =
        { s.cpu with
          sp := s.cpu.sp - 1 - 1 - 1
          p := s.cpu.p ||| Status.irqDisable
          pc := pc
          cycles := s.cpu.cycles + 7 }) ∧
      Holds s.step.2.bus
        (savedState m s.cpu.sp (s.cpu.pc + 1) (s.cpu.p ||| Status.brk)) := by
  have hserve := Wired.serveInterrupt_of_none hinterrupt
  have hready := Wired.cpu_readied_of_none hinterrupt hnext rfl rfl
  have hbus := hmemory.enterInterrupt hstack (s := s.readied)
    (hmemory.readied (by rw [hserve]; exact h)) irqVector
  have hexecuted : s.executed = s.readied.enterInterrupt irqVector :=
    Wired.executed_of_mnemonic hnext
  obtain ⟨hstep, hend⟩ := hmemory.step hstall (hexecuted ▸ hbus)
  rw [hready] at hend
  refine ⟨⟨(s.readied.enterInterrupt irqVector).cpu.pc, ?_⟩, hend⟩
  rw [hstep, hexecuted, Wired.cpu_enterInterrupt, hready]
  rfl

/-- The step that calls a subroutine saves the address before the one it returns to. -/
theorem Bus.Memory.step_jsr (hstall : s.cpu.stall = 0) (hinterrupt : s.cpu.interrupt = .none)
    (hnext : s.next.opcode.mnemonic = .jsr) (h : Holds s.bus m) :
    (∃ pc, s.step.2.cpu =
        { s.cpu with sp := s.cpu.sp - 1 - 1, pc := pc, cycles := s.cpu.cycles + 6 }) ∧
      Holds s.step.2.bus (savedWord m s.cpu.sp (s.cpu.pc + 3 - 1)) := by
  have hserve := Wired.serveInterrupt_of_none hinterrupt
  have hready := Wired.cpu_readied_of_none hinterrupt hnext rfl rfl
  have hbus := hmemory.pushWord hstack (s := s.readied)
    (hmemory.readied (by rw [hserve]; exact h)) (s.readied.cpu.pc - 1)
  have hexecuted : s.executed = (s.readied.pushWord (s.readied.cpu.pc - 1)).mapCpu fun c =>
      { c with pc := s.next.operand.address } :=
    Wired.executed_of_mnemonic hnext
  obtain ⟨hstep, hend⟩ := hmemory.step hstall (s := s) (by rw [hexecuted]; exact hbus)
  rw [hready] at hend
  refine ⟨⟨s.next.operand.address, ?_⟩, hend⟩
  rw [hstep, hexecuted, Wired.mapCpu, Wired.cpu_pushWord, hready]
  rfl

/-- The step that returns from a subroutine. -/
theorem Bus.Memory.step_rts {sp : UInt8} {word : UInt16} (hstall : s.cpu.stall = 0)
    (hinterrupt : s.cpu.interrupt = .none) (hnext : s.next.opcode.mnemonic = .rts)
    (h : Holds s.bus (savedWord m sp word)) (hsp : s.cpu.sp = sp - 1 - 1) :
    s.step.2.cpu = { s.cpu with sp := sp, pc := word + 1, cycles := s.cpu.cycles + 6 } ∧
      Holds s.step.2.bus (savedWord m sp word) := by
  have hserve := Wired.serveInterrupt_of_none hinterrupt
  have hready := Wired.cpu_readied_of_none hinterrupt hnext rfl rfl
  have hsp' : s.readied.cpu.sp = sp - 1 - 1 := by
    rw [hready]
    exact hsp
  obtain ⟨hcpu, hbus⟩ := hmemory.returnFromCall hstack
    (hmemory.readied (by rw [hserve]; exact h)) hsp' s.next
  have hexecuted : s.executed = Effect.returnFromCall.run s.next s.readied :=
    Wired.executed_of_mnemonic hnext
  rw [← hexecuted] at hcpu hbus
  obtain ⟨hstep, hend⟩ := hmemory.step hstall hbus
  refine ⟨?_, hend⟩
  rw [hstep, hcpu, hready]
  rfl

end Memory

/-! ## What is written -/

/-- The address that an access writes to, if it does. -/
def Exchange.target? : Exchange → Option UInt16
  | read _ _ => none
  | write addr _ => some addr

/-- The addresses that are written to, one after the other. -/
def written (exchanges : List Exchange) : List UInt16 := exchanges.filterMap Exchange.target?

theorem written_append (exchanges exchanges' : List Exchange) :
    written (exchanges ++ exchanges') = written exchanges ++ written exchanges' :=
  List.filterMap_append

/-- What a family writes that jumps by way of the stack. -/
def Usage.stackTargets? (sp : UInt8) : Usage → Option (List UInt16)
  | softwareInterrupt => some (stateCells sp)
  | call => some (wordCells sp)
  | returnFromInterrupt | returnFromCall => some []
  | _ => none

theorem EntersHandler.written_eq {vector target : UInt16} {sp : UInt8} {exchanges : List Exchange}
    (h : EntersHandler vector sp exchanges target) : written exchanges = stateCells sp := by
  cases h
  rfl

theorem OperandReads.written_eq {pc addr : UInt16} {x y : UInt8} {mode : Mode}
    {exchanges : List Exchange} (h : OperandReads pc x y mode exchanges addr) :
    written exchanges = [] := by
  cases h <;> rfl

theorem EffectExchanges.written_eq {mode : Mode} {addr : UInt16} {sp : UInt8} {usage : Usage}
    {exchanges : List Exchange} (h : EffectExchanges mode addr sp usage exchanges)
    {cells : List UInt16} (hcells : usage.stackTargets? sp = some cells) :
    written exchanges = cells := by
  cases h <;> cases hcells
  case softwareInterrupt henter => exact henter.written_eq
  all_goals rfl

/-- A step writes what the entry into a handler saves, and then what its instruction does. -/
theorem StepExchanges.written_eq {c : Cpu} {byte : UInt8} {exchanges : List Exchange}
    (h : StepExchanges c byte exchanges) {cells : UInt8 → List UInt16}
    (hcells : ∀ sp, (Opcode.ofByte byte).mnemonic.usage.stackTargets? sp = some (cells sp)) :
    written exchanges =
      if c.interrupt = .none then cells c.sp else stateCells c.sp ++ cells (c.sp - 3) := by
  cases h with
  | @run entry operand effect pc addr sp hentry hoperand heffect =>
      have hfetch : written (.read pc byte :: (operand ++ effect)) = written (operand ++ effect) :=
        rfl
      rw [written_append, hfetch, written_append, hoperand.written_eq, List.nil_append,
        heffect.written_eq (hcells sp)]
      cases hentry with
      | straight hnone => exact (if_pos hnone).symm
      | handler hvector henter =>
          rw [henter.written_eq, if_neg]
          intro hnone
          rw [hnone] at hvector
          cases hvector

theorem Wired.written_exchanges {β : Type} [Bus β] {s : Wired β} {mnemonic : Mnemonic}
    (hstall : s.cpu.stall = 0) (h : s.next.opcode.mnemonic = mnemonic)
    {cells : UInt8 → List UInt16}
    (hcells : ∀ sp, mnemonic.usage.stackTargets? sp = some (cells sp)) :
    written s.exchanges =
      if s.cpu.interrupt = .none then cells s.cpu.sp
      else stateCells s.cpu.sp ++ cells (s.cpu.sp - 3) :=
  (Wired.stepExchanges hstall).written_eq fun sp =>
    (congrArg (fun m => m.usage.stackTargets? sp) h).trans (hcells sp)

/-! ## There and back -/

/-- A program has come back to a place. The CPU is as it was, but for its cycles and for an interrupt
that waited. Only some cells have been written, and memory is the same everywhere else. -/
structure ComesBack {β : Type} (Holds : β → (UInt16 → UInt8) → Prop) (m : UInt16 → UInt8)
    (s t : Wired β) (exchanges : List Exchange) (pc : UInt16) (cycles : Nat)
    (cells : List UInt16) : Prop where
  cpu : t.cpu =
    { s.cpu with pc := pc, cycles := s.cpu.cycles + cycles, interrupt := .none }
  written : written exchanges = cells
  memory : ∃ m', Holds t.bus m' ∧ ∀ addr ∉ cells, m' addr = m addr

section RoundTrips

variable {β : Type} [Bus β] {region : UInt16 → Prop} {Holds : β → (UInt16 → UInt8) → Prop}
  (hmemory : Bus.Memory region Holds) (hstack : ∀ sp, region (stackCell sp)) {m : UInt16 → UInt8}
  {s : Wired β} (hstall : s.cpu.stall = 0) (h : Holds s.bus m)
include hmemory hstack hstall h

/-- An interrupt whose handler returns at once takes one step. -/
theorem comesBack_interrupt (hmarked : s.cpu.Marked) (hinterrupt : s.cpu.interrupt ≠ .none)
    (hrti : s.next.opcode.mnemonic = .rti) :
    s.step.1 = 13 ∧
      ComesBack Holds m s s.step.2 s.exchanges s.cpu.pc 13 (stateCells s.cpu.sp) := by
  obtain ⟨vector, hserve⟩ : ∃ vector, s.serveInterrupt = s.enter vector := by
    rw [Wired.serveInterrupt_eq]
    cases hi : s.cpu.interrupt with
    | none => exact absurd hi hinterrupt
    | nmi => exact ⟨nmiVector, rfl⟩
    | irq => exact ⟨irqVector, rfl⟩
  have henter : Holds (s.enter vector).bus
      (savedState m s.cpu.sp s.cpu.pc (s.cpu.p ||| Status.brk)) :=
    hmemory.enterInterrupt hstack (s := s.mapCpu fun c => { c with interrupt := .none }) h vector
  obtain ⟨hcpu, hbus⟩ := hmemory.step_rti hstack hmarked hstall hrti (hserve ▸ henter)
    (hserve ▸ rfl)
  rw [hserve] at hcpu
  refine ⟨?cost, hcpu, ?written, _, hbus, fun _ => savedState_of_notMem⟩
  case cost =>
    rw [Wired.fst_step_of_not_stalled hstall, hcpu]
    show s.cpu.cycles + 7 + 6 - s.cpu.cycles = 13
    omega
  case written =>
    rw [Wired.written_exchanges hstall hrti (fun _ => rfl), if_neg hinterrupt]
    rfl

/-- A software interrupt whose handler returns at once takes two steps. -/
theorem comesBack_brk (hmarked : s.cpu.Marked) (hinterrupt : s.cpu.interrupt = .none)
    (hbrk : s.next.opcode.mnemonic = .brk) (hrti : s.step.2.next.opcode.mnemonic = .rti) :
    s.step.1 + s.step.2.step.1 = 13 ∧
      ComesBack Holds m s s.step.2.step.2 (s.exchanges ++ s.step.2.exchanges) (s.cpu.pc + 1) 13
        (stateCells s.cpu.sp) := by
  obtain ⟨⟨pc, hthere⟩, hsaved⟩ := hmemory.step_brk hstack hstall hinterrupt hbrk h
  have hstall' : s.step.2.cpu.stall = 0 := by rw [hthere]; exact hstall
  have hinterrupt' : s.step.2.cpu.interrupt = .none := by rw [hthere]; exact hinterrupt
  have hserve := Wired.serveInterrupt_of_none hinterrupt'
  obtain ⟨hback, hbus⟩ := hmemory.step_rti hstack hmarked hstall' hrti (hserve ▸ hsaved)
    (by rw [hserve, hthere])
  rw [hserve, hthere] at hback
  refine ⟨?cost, ?cpu, ?written, _, hbus, fun _ => savedState_of_notMem⟩
  case cost =>
    rw [Wired.fst_step_of_not_stalled hstall, Wired.fst_step_of_not_stalled hstall', hback, hthere]
    show s.cpu.cycles + 7 - s.cpu.cycles + (s.cpu.cycles + 7 + 6 - (s.cpu.cycles + 7)) = 13
    omega
  case cpu =>
    rw [← hinterrupt]
    exact hback
  case written =>
    rw [written_append, Wired.written_exchanges hstall hbrk (fun _ => rfl), if_pos hinterrupt,
      Wired.written_exchanges hstall' hrti (fun _ => rfl), if_pos hinterrupt', List.append_nil]

/-- A subroutine that returns at once takes two steps. -/
theorem comesBack_jsr (hinterrupt : s.cpu.interrupt = .none)
    (hjsr : s.next.opcode.mnemonic = .jsr) (hrts : s.step.2.next.opcode.mnemonic = .rts) :
    s.step.1 + s.step.2.step.1 = 12 ∧
      ComesBack Holds m s s.step.2.step.2 (s.exchanges ++ s.step.2.exchanges) (s.cpu.pc + 3) 12
        (wordCells s.cpu.sp) := by
  obtain ⟨⟨pc, hthere⟩, hsaved⟩ := hmemory.step_jsr hstack hstall hinterrupt hjsr h
  have hstall' : s.step.2.cpu.stall = 0 := by rw [hthere]; exact hstall
  have hinterrupt' : s.step.2.cpu.interrupt = .none := by rw [hthere]; exact hinterrupt
  obtain ⟨hback, hbus⟩ := hmemory.step_rts hstack hstall' hinterrupt' hrts hsaved
    (by rw [hthere])
  -- the return adds the one that the call has taken off
  rw [hthere, UInt16.sub_add_cancel] at hback
  refine ⟨?cost, ?cpu, ?written, _, hbus, fun _ => savedWord_of_notMem⟩
  case cost =>
    rw [Wired.fst_step_of_not_stalled hstall, Wired.fst_step_of_not_stalled hstall', hback, hthere]
    show s.cpu.cycles + 6 - s.cpu.cycles + (s.cpu.cycles + 6 + 6 - (s.cpu.cycles + 6)) = 12
    omega
  case cpu =>
    rw [← hinterrupt]
    exact hback
  case written =>
    rw [written_append, Wired.written_exchanges hstall hjsr (fun _ => rfl), if_pos hinterrupt,
      Wired.written_exchanges hstall' hrts (fun _ => rfl), if_pos hinterrupt', List.append_nil]

end RoundTrips

/-- On every bus whose stack is memory, whatever the stack pointer: an interrupt whose handler
returns at once comes back to the address the program had got to, a software interrupt to the byte
behind it and a subroutine call to the instruction behind it. They take 13, 13 and 12 cycles and
write the cells of what they save, nothing else. -/
theorem round_trips {β : Type} [Bus β] {region : UInt16 → Prop}
    {Holds : β → (UInt16 → UInt8) → Prop} (hmemory : Bus.Memory region Holds)
    (hstack : ∀ sp, region (stackCell sp)) {c : Cpu} (hc : c.Reachable) (hstall : c.stall = 0)
    (sp : UInt8) {b : β} {m : UInt16 → UInt8} (h : Holds b m) :
    let s : Wired β := ⟨{ c with sp := sp }, b⟩
    (c.interrupt ≠ .none → s.next.opcode.mnemonic = .rti →
      s.step.1 = 13 ∧ ComesBack Holds m s s.step.2 s.exchanges c.pc 13 (stateCells sp)) ∧
    (c.interrupt = .none → s.next.opcode.mnemonic = .brk → s.step.2.next.opcode.mnemonic = .rti →
      s.step.1 + s.step.2.step.1 = 13 ∧
        ComesBack Holds m s s.step.2.step.2 (s.exchanges ++ s.step.2.exchanges) (c.pc + 1) 13
          (stateCells sp)) ∧
    (c.interrupt = .none → s.next.opcode.mnemonic = .jsr → s.step.2.next.opcode.mnemonic = .rts →
      s.step.1 + s.step.2.step.1 = 12 ∧
        ComesBack Holds m s s.step.2.step.2 (s.exchanges ++ s.step.2.exchanges) (c.pc + 3) 12
          (wordCells sp)) := by
  intro s
  have hmarked : s.cpu.Marked := hc.marked.of_p_eq rfl
  exact ⟨comesBack_interrupt hmemory hstack (s := s) hstall h hmarked,
    comesBack_brk hmemory hstack (s := s) hstall h hmarked,
    comesBack_jsr hmemory hstack (s := s) hstall h⟩

/-- On a board without a program, where all vectors lead to the bottom of work RAM, with the stack
pointer about to wrap. -/
theorem round_trips_wrapping :
    let onRam (ram : Ram) : CpuMemory Machine.HeldLine := { ram, ppu := .powerOn, board := {} }
    let c : Cpu := (Wired.step ⟨.powerOn, onRam (Ram.blank.write 0 0xEA)⟩).2.cpu
    let handler := onRam (Ram.blank.write 0 0x40)
    let caller := onRam ((Ram.blank.write 0 0x60).write 1 0x20)
    let s : Wired (CpuMemory Machine.HeldLine) := ⟨{ c.triggerNmi with sp := 0x01 }, handler⟩
    let t : Wired (CpuMemory Machine.HeldLine) := ⟨{ c with sp := 0x01 }, handler⟩
    let u : Wired (CpuMemory Machine.HeldLine) := ⟨{ c with sp := 0x00 }, caller⟩
    (c.Reachable ∧ c.stall = 0 ∧ c.pc = 1) ∧
    (s.step.1 = 13 ∧ s.step.2.cpu.pc = 1 ∧ written s.exchanges = [0x0101, 0x0100, 0x01FF]) ∧
    (t.step.1 + t.step.2.step.1 = 13 ∧ t.step.2.step.2.cpu.pc = 2 ∧
      written (t.exchanges ++ t.step.2.exchanges) = [0x0101, 0x0100, 0x01FF]) ∧
    (u.step.1 + u.step.2.step.1 = 12 ∧ u.step.2.step.2.cpu.pc = 4 ∧
      written (u.exchanges ++ u.step.2.exchanges) = [0x0100, 0x01FF]) := by
  intro onRam c handler caller s t u
  have hc : c.Reachable := .step .powerOn _
  have hstall : c.stall = 0 := by decide +kernel
  have hpc : c.pc = 1 := by decide +kernel
  have hstack (sp : UInt8) : stackCell sp < 0x0800 := by
    rw [UInt16.lt_iff_toNat_lt, Wired.toNat_stackCell]
    have hsp := sp.toNat_lt
    show 0x0100 + sp.toNat < 0x0800
    omega
  obtain ⟨hinterrupt, -⟩ := round_trips CpuMemory.memory_ram hstack hc.triggerNmi hstall 0x01
    (b := handler) ⟨rfl, fun _ _ => rfl⟩
  obtain ⟨-, hbrk, -⟩ := round_trips CpuMemory.memory_ram hstack hc hstall 0x01
    (b := handler) ⟨rfl, fun _ _ => rfl⟩
  obtain ⟨-, -, hjsr⟩ := round_trips CpuMemory.memory_ram hstack hc hstall 0x00
    (b := caller) ⟨rfl, fun _ _ => rfl⟩
  obtain ⟨hcost, hback⟩ := hinterrupt (by decide +kernel) (by decide +kernel)
  obtain ⟨hcost', hback'⟩ := hbrk (by decide +kernel) (by decide +kernel) (by decide +kernel)
  obtain ⟨hcost'', hback''⟩ := hjsr (by decide +kernel) (by decide +kernel) (by decide +kernel)
  refine ⟨⟨hc, hstall, hpc⟩, ⟨hcost, ?_, hback.written⟩, ⟨hcost', ?_, hback'.written⟩,
    hcost'', ?_, hback''.written⟩
  · rw [hback.cpu]
    exact hpc
  · rw [hback'.cpu]
    show c.pc + 1 = 2
    rw [hpc]
    rfl
  · rw [hback''.cpu]
    show c.pc + 3 = 4
    rw [hpc]
    rfl

end Nes
