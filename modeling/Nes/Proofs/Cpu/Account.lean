import Nes.Proofs.Cpu.TransferStart

/-!
# A step by the answers it gets

All that an instruction learns of its bus are the answers to its reads. So what it makes of the CPU
can be said next to the list of its accesses, with the answers as they stand in that list:
`Effect.CarriesOut` does so for each kind of effect, and `Served` for the entry into a handler.

`Wired.Account` is the account of a whole step, in three parts: what comes before the instruction,
the reads that find it, and its effect. Every step that does not wait has one
(`Wired.exists_account`), so two steps can be compared by comparing their accounts.
-/

set_option autoImplicit false

namespace Nes

open Wired (stackCell)

variable {β : Type} [Bus β]

/-! ## The parts of an account -/

namespace Cpu

/-- The accesses that enter a handler, with the bytes found at the vector. -/
def entryExchanges (c : Cpu) (vector : UInt16) (low high : UInt8) : List Exchange :=
  [.write (stackCell c.sp) (c.pc >>> 8).toUInt8, .write (stackCell (c.sp - 1)) c.pc.toUInt8,
    .write (stackCell (c.sp - 2)) (c.p ||| Status.brk), .read vector low, .read (vector + 1) high]

/-- The CPU at the start of a handler. -/
def inHandler (c : Cpu) (pc : UInt16) : Cpu :=
  { c with sp := c.sp - 1 - 1 - 1, p := c.p ||| Status.irqDisable, pc }

/-- The CPU with the status byte made from a byte of the stack. -/
def withPulledStatus (c : Cpu) (value : UInt8) : Cpu :=
  { c with p := (value &&& ~~~Status.brk) ||| Status.unused }

/-- The CPU that moves on to the next instruction and counts the cycles of this one. -/
def movedOn (c : Cpu) (i : Instruction) : Cpu :=
  { c with pc := i.next, cycles := c.cycles + i.cycles }

end Cpu

/-- What comes before an instruction, and the CPU that the instruction finds. -/
inductive Served (c : Cpu) : List Exchange → Cpu → Prop
  | straight (h : c.interrupt = .none) : Served c [] c
  | handler {vector : UInt16} (low high : UInt8) (h : c.interrupt.vector? = some vector) :
      Served c (c.entryExchanges vector low high)
        { c.inHandler (wordOf low high) with
          interrupt := .none, cycles := c.cycles + interruptCycles }

/-- The accesses of an effect and the CPU it leaves. The CPU has moved on before. -/
inductive Effect.CarriesOut (i : Instruction) (c : Cpu) : Effect → List Exchange → Cpu → Prop
  | load (f : Cpu → UInt8 → Cpu) (answer : UInt8) :
      CarriesOut i c (.load f) [.read i.operand.address answer] (f c answer)
  | store (f : Cpu → UInt8) : CarriesOut i c (.store f) [.write i.operand.address (f c)] c
  | modify (f : Cpu → UInt8 → UInt8 × Cpu) (answer : UInt8) (h : i.opcode.mode ≠ .accumulator) :
      CarriesOut i c (.modify f)
        [.read i.operand.address answer, .write i.operand.address (f c answer).1] (f c answer).2
  | modifyA (f : Cpu → UInt8 → UInt8 × Cpu) (h : i.opcode.mode = .accumulator) :
      CarriesOut i c (.modify f) [] { (f c c.a).2 with a := (f c c.a).1 }
  | registers (f : Cpu → Cpu) : CarriesOut i c (.registers f) [] (f c)
  | taken (taken : Cpu → Bool) (h : taken c = true) :
      CarriesOut i c (.branch taken) [] (c.takeBranch i)
  | notTaken (taken : Cpu → Bool) (h : taken c = false) : CarriesOut i c (.branch taken) [] c
  | jump : CarriesOut i c .jump [] { c with pc := i.operand.address }
  | call :
      CarriesOut i c .call
        [.write (stackCell c.sp) ((c.pc - 1) >>> 8).toUInt8,
          .write (stackCell (c.sp - 1)) (c.pc - 1).toUInt8]
        { c with sp := c.sp - 1 - 1, pc := i.operand.address }
  | returnFromCall (low high : UInt8) :
      CarriesOut i c .returnFromCall
        [.read (stackCell (c.sp + 1)) low, .read (stackCell (c.sp + 1 + 1)) high]
        { c with sp := c.sp + 1 + 1, pc := wordOf low high + 1 }
  | softwareInterrupt (low high : UInt8) :
      CarriesOut i c .softwareInterrupt (c.entryExchanges irqVector low high)
        (c.inHandler (wordOf low high))
  | returnFromInterrupt (status low high : UInt8) :
      CarriesOut i c .returnFromInterrupt
        [.read (stackCell (c.sp + 1)) status, .read (stackCell (c.sp + 1 + 1)) low,
          .read (stackCell (c.sp + 1 + 1 + 1)) high]
        { c.withPulledStatus status with sp := c.sp + 1 + 1 + 1, pc := wordOf low high }
  | pushA : CarriesOut i c .pushA [.write (stackCell c.sp) c.a] { c with sp := c.sp - 1 }
  | pushStatus :
      CarriesOut i c .pushStatus [.write (stackCell c.sp) (c.p ||| Status.brk)]
        { c with sp := c.sp - 1 }
  | pullA (answer : UInt8) :
      CarriesOut i c .pullA [.read (stackCell (c.sp + 1)) answer]
        (({ c with sp := c.sp + 1 } : Cpu).setA answer)
  | pullStatus (answer : UInt8) :
      CarriesOut i c .pullStatus [.read (stackCell (c.sp + 1)) answer]
        (({ c with sp := c.sp + 1 } : Cpu).withPulledStatus answer)
  | idle : CarriesOut i c .idle [] c

/-- The operand of a mode, from its address: the base of an indexed one is behind the index. -/
def Operand.ofAddress (x y : UInt8) (mode : Mode) (address : UInt16) : Operand :=
  match mode with
  | .absoluteX => indexed (address - x.toUInt16) x
  | .absoluteY | .indirectIndexed => indexed (address - y.toUInt16) y
  | _ => direct address

/-- An operand is what its address says. -/
theorem Operand.find_eq_ofAddress (c : Cpu) (b : β) (mode : Mode) :
    (find c b mode).1 = ofAddress c.x c.y mode (find c b mode).1.address := by
  have hbase : ∀ (base : UInt16) (index : UInt8),
      indexed base index = indexed ((indexed base index).address - index.toUInt16) index := by
    intro base index
    rw [show (indexed base index).address = base + index.toUInt16 from rfl, UInt16.add_sub_cancel]
  cases mode with
  | absoluteX | absoluteY | indirectIndexed => exact hbase _ _
  | implied | accumulator | immediate | zeroPage | zeroPageX | zeroPageY | relative | absolute
  | indirect | indexedIndirect => rfl

/-! ## What the parts of a step do -/

namespace Wired

variable (s : Wired (Transcribed β))

theorem entered_exchanges (vector : UInt16) :
    ∃ low high, (s.enterInterrupt vector).bus.exchanges =
        s.bus.exchanges ++ s.cpu.entryExchanges vector low high ∧
      (s.enterInterrupt vector).cpu = s.cpu.inHandler (wordOf low high) := by
  obtain ⟨low, high, hmade, hpc⟩ := s.exchanges_saved vector
  refine ⟨low, high, hmade, ?_⟩
  show s.cpu.inHandler (s.enterInterrupt vector).cpu.pc = _
  rw [hpc]

theorem served_serveInterrupt :
    ∃ made, s.serveInterrupt.bus.exchanges = s.bus.exchanges ++ made ∧
      Served s.cpu made s.serveInterrupt.cpu := by
  rw [serveInterrupt_eq]
  cases h : s.cpu.interrupt.vector? with
  | none =>
      exact ⟨[], (List.append_nil _).symm, .straight (Interrupt.eq_none_of_vector h)⟩
  | some vector =>
      obtain ⟨low, high, hmade, hcpu⟩ :=
        (s.mapCpu fun c => { c with interrupt := .none }).entered_exchanges vector
      refine ⟨_, hmade, ?_⟩
      have henter : (s.enter vector).cpu = { s.cpu.inHandler (wordOf low high) with
          interrupt := .none, cycles := s.cpu.cycles + interruptCycles } :=
        congrArg (fun c : Cpu => { c with cycles := c.cycles + interruptCycles }) hcpu
      show Served s.cpu _ (s.enter vector).cpu
      rw [henter]
      exact .handler low high h

/-- **What an effect does**, by its accesses. -/
theorem carriesOut_run (e : Effect) (i : Instruction) :
    ∃ made, (e.run i s).bus.exchanges = s.bus.exchanges ++ made ∧
      e.CarriesOut i s.cpu made (e.run i s).cpu := by
  have hnone : s.bus.exchanges = s.bus.exchanges ++ [] := (List.append_nil _).symm
  have hthree : ∀ (l : List Exchange) (first second third : Exchange),
      l ++ [first] ++ [second] ++ [third] = l ++ [first, second, third] := fun _ _ _ _ => by
    rw [List.append_assoc, List.append_assoc]
    rfl
  cases e with
  | load f => exact ⟨_, rfl, .load f _⟩
  | store f => exact ⟨_, rfl, .store f⟩
  | modify f =>
      by_cases hmode : i.opcode.mode = .accumulator
      · rw [Effect.run, if_pos hmode]
        exact ⟨[], hnone, .modifyA f hmode⟩
      · rw [Effect.run, if_neg hmode]
        exact ⟨_, List.append_assoc .., .modify f _ hmode⟩
  | registers f => exact ⟨[], hnone, .registers f⟩
  | branch taken =>
      rw [Effect.run]
      cases htaken : taken s.cpu with
      | true => exact ⟨[], hnone, .taken taken htaken⟩
      | false => exact ⟨[], hnone, .notTaken taken htaken⟩
  | jump => exact ⟨[], hnone, .jump⟩
  | call => exact ⟨_, List.append_assoc .., .call⟩
  | returnFromCall => exact ⟨_, List.append_assoc .., .returnFromCall _ _⟩
  | softwareInterrupt =>
      obtain ⟨low, high, hmade, hcpu⟩ := s.entered_exchanges irqVector
      refine ⟨_, hmade, ?_⟩
      rw [Effect.run, hcpu]
      exact .softwareInterrupt low high
  | returnFromInterrupt => exact ⟨_, hthree .., .returnFromInterrupt _ _ _⟩
  | pushA => exact ⟨_, rfl, .pushA⟩
  | pushStatus => exact ⟨_, rfl, .pushStatus⟩
  | pullA => exact ⟨_, rfl, .pullA _⟩
  | pullStatus => exact ⟨_, rfl, .pullStatus _⟩
  | idle => exact ⟨[], hnone, .idle⟩

end Wired

/-! ## The account of a step -/

/-- The account of a step that runs an instruction: the accesses before it, the reads of its
operand and the accesses of its effect. -/
structure Wired.Account (s : Wired β) (entry reads effect : List Exchange) : Prop where
  exchanges : s.exchanges =
    entry ++ .read s.serveInterrupt.cpu.pc s.next.byte :: (reads ++ effect)
  served : Served s.cpu entry s.serveInterrupt.cpu
  /-- The reads of the operand, and the operand they find. -/
  operand : OperandReads s.serveInterrupt.cpu.pc s.serveInterrupt.cpu.x s.serveInterrupt.cpu.y
    s.next.opcode.mode reads s.next.operand.address
  found : s.next.operand = Operand.ofAddress s.serveInterrupt.cpu.x s.serveInterrupt.cpu.y
    s.next.opcode.mode s.next.operand.address
  carriesOut : s.next.opcode.mnemonic.effect.CarriesOut s.next
    (s.serveInterrupt.cpu.movedOn s.next) effect s.executed.cpu

namespace Wired

theorem next_next (s : Wired β) :
    s.next.next = s.serveInterrupt.cpu.pc + UInt16.ofNat s.next.opcode.size := rfl

theorem executed_alike {γ : Type} [Bus γ] {R : β → γ → Prop} (hR : Bus.Simulation R) {s : Wired β}
    {t : Wired γ} (h : Alike R s t) : Alike R s.executed t.executed := by
  unfold executed
  rw [next_alike hR h]
  exact run_alike hR _ _ (readied_alike hR h)

/-- The CPU on a bus that keeps the list of accesses. -/
def transcribed (s : Wired β) : Wired (Transcribed β) := ⟨s.cpu, ⟨s.bus, []⟩⟩

omit [Bus β] in
theorem alike_transcribed (s : Wired β) : Alike (fun b t => t.bus = b) s s.transcribed :=
  ⟨rfl, rfl⟩

theorem next_transcribed (s : Wired β) : s.transcribed.next = s.next :=
  (next_alike transcribed_simulation s.alike_transcribed).symm

theorem transfers_transcribed (s : Wired β) : s.transcribed.transfers = s.transfers :=
  (transcribed_simulation.takeOamDma
    (executed_alike transcribed_simulation s.alike_transcribed).bus).1.symm

theorem cpu_step_transcribed (s : Wired β) : s.transcribed.step.2.cpu = s.step.2.cpu :=
  (step_alike transcribed_simulation s.alike_transcribed).2.cpu.symm

/-- **Every step that does not wait has an account.** -/
theorem exists_account {s : Wired β} (h : s.cpu.stall = 0) :
    ∃ entry reads effect, s.Account entry reads effect := by
  let t := s.transcribed
  have hserve : s.serveInterrupt.cpu = t.serveInterrupt.cpu :=
    (serveInterrupt_alike transcribed_simulation s.alike_transcribed).cpu
  have hnext : s.next = t.next := s.next_transcribed.symm
  have hexecuted : s.executed.cpu = t.executed.cpu :=
    (executed_alike transcribed_simulation s.alike_transcribed).cpu
  obtain ⟨entry, hentry, hserved⟩ := t.served_serveInterrupt
  obtain ⟨reads, hfetch, hreads⟩ := t.exchanges_readied
  obtain ⟨effect, hrun, hcarries⟩ := t.readied.carriesOut_run t.next.opcode.mnemonic.effect t.next
  have hlist : t.executed.bus.exchanges =
      entry ++ .read t.serveInterrupt.cpu.pc t.next.byte :: (reads ++ effect) := by
    rw [executed, hrun, hfetch, hentry, List.append_assoc, List.append_assoc, List.cons_append]
    rfl
  refine ⟨entry, reads, effect, ?_, ?_, ?_, ?_, ?_⟩
  · rw [exchanges_of_not_stalled h, hserve, hnext]
    exact hlist
  · rw [hserve]
    exact hserved
  · rw [hserve, hnext]
    exact hreads
  · exact Operand.find_eq_ofAddress _ _ _
  · rw [hserve, hnext, hexecuted]
    exact hcarries

/-- What a step leaves is what its instruction leaves, with a transfer charged. -/
theorem cpu_step_of_not_stalled {s : Wired β} (h : s.cpu.stall = 0) :
    s.step.2.cpu =
      { s.executed.cpu with
        stall := s.executed.cpu.stall +
          if s.transfers then stallCycles s.executed.cpu.cycles else 0 } := by
  rw [(step_of_not_stalled h).2]
  show s.executed.chargeOamDma.cpu = _
  unfold chargeOamDma transfers
  dsimp only
  split
  · rfl
  · rfl

end Wired

end Nes
