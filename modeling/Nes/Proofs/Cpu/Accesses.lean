import Nes.Memory.Map
import Nes.Proofs.Cpu.Simulation
import Nes.Proofs.Cpu.Timing

/-!
# The accesses of a step

Some registers change when they are read, and others act when they are written, so a program relies
on every single access of the CPU. Which accesses a step makes, and in which order, is put together
here from what is said of its parts: the entry into a handler (`Entry`), the operand of an
addressing mode (`OperandReads`), and the effect of an instruction family (`EffectExchanges`).

`Transcribed` is any bus with the list of the accesses made on it and of the bytes that were
answered or written. `Wired.exchanges` is that list for one step, and `accesses_of_step` says what
it is.
-/

set_option autoImplicit false

namespace Nes

/-! ## Transcripts -/

/-- One access on a bus, with the byte that was answered or written. -/
inductive Exchange
  | read (addr : UInt16) (answer : UInt8)
  | write (addr : UInt16) (value : UInt8)
  deriving DecidableEq, Repr

namespace Exchange

/-- The access alone: what is read is not part of it. -/
def access : Exchange → Access
  | read addr _ => .read addr
  | write addr value => .write addr value

/-- The address of an access. -/
def addr : Exchange → UInt16
  | read addr _ => addr
  | write addr _ => addr

/-- Writes to an address. -/
def writesTo (addr : UInt16) : Exchange → Bool
  | read _ _ => false
  | write addr' _ => addr' == addr

end Exchange

/-- A bus with the list of all accesses made on it, in their order. -/
structure Transcribed (β : Type) where
  bus : β
  exchanges : List Exchange := []

variable {β : Type} [Bus β]

instance : Bus (Transcribed β) where
  read t addr :=
    let answer := Bus.read t.bus addr
    (answer.1, ⟨answer.2, t.exchanges ++ [.read addr answer.1]⟩)
  write t addr value := ⟨Bus.write t.bus addr value, t.exchanges ++ [.write addr value]⟩
  takeOamDma t :=
    let answer := Bus.takeOamDma t.bus
    (answer.1, { t with bus := answer.2 })

/-- The CPU cannot tell a transcribed bus from the bus inside. -/
theorem transcribed_simulation :
    Bus.Simulation fun (b : β) (t : Transcribed β) => t.bus = b where
  read {b t} h addr := by
    subst h
    exact ⟨rfl, rfl⟩
  write {b t} h addr value := by
    subst h
    rfl
  takeOamDma {b t} h := by
    subst h
    exact ⟨rfl, rfl⟩

/-- A recorded bus keeps the accesses of a transcribed one. -/
theorem recorded_simulation :
    Bus.Simulation fun (r : Recorded β) (t : Transcribed β) =>
      t.bus = r.bus ∧ r.accesses.toList = t.exchanges.map Exchange.access where
  read {r t} h addr := by
    obtain ⟨hbus, hlist⟩ := h
    refine ⟨?_, ?_, ?_⟩
    · show (Bus.read r.bus addr).1 = (Bus.read t.bus addr).1
      rw [hbus]
    · show (Bus.read t.bus addr).2 = (Bus.read r.bus addr).2
      rw [hbus]
    · show (r.accesses.push (.read addr)).toList =
        (t.exchanges ++ [Exchange.read addr (Bus.read t.bus addr).1]).map Exchange.access
      rw [Array.toList_push, List.map_append, hlist]
      rfl
  write {r t} h addr value := by
    obtain ⟨hbus, hlist⟩ := h
    refine ⟨?_, ?_⟩
    · show Bus.write t.bus addr value = Bus.write r.bus addr value
      rw [hbus]
    · show (r.accesses.push (.write addr value)).toList =
        (t.exchanges ++ [Exchange.write addr value]).map Exchange.access
      rw [Array.toList_push, List.map_append, hlist]
      rfl
  takeOamDma {r t} h := by
    obtain ⟨hbus, hlist⟩ := h
    refine ⟨?_, ?_, hlist⟩
    · show (Bus.takeOamDma r.bus).1 = (Bus.takeOamDma t.bus).1
      rw [hbus]
    · show (Bus.takeOamDma t.bus).2 = (Bus.takeOamDma r.bus).2
      rw [hbus]

/-! ## What is accessed -/

open Wired (stackCell)

/-- Entering a handler writes three cells of the stack and reads the two bytes of the vector. -/
inductive EntersHandler (vector : UInt16) (sp : UInt8) : List Exchange → UInt16 → Prop
  | saved (high low status targetLow targetHigh : UInt8) :
      EntersHandler vector sp
        [.write (stackCell sp) high, .write (stackCell (sp - 1)) low,
          .write (stackCell (sp - 2)) status, .read vector targetLow,
          .read (vector + 1) targetHigh]
        (wordOf targetLow targetHigh)

/-- The accesses before an instruction, where the instruction starts, and the stack pointer it
finds. -/
inductive Entry (c : Cpu) : List Exchange → UInt16 → UInt8 → Prop
  | straight (h : c.interrupt = .none) : Entry c [] c.pc c.sp
  | handler {vector pc : UInt16} {exchanges : List Exchange}
      (h : c.interrupt.vector? = some vector) (henter : EntersHandler vector c.sp exchanges pc) :
      Entry c exchanges pc (c.sp - 3)

/-- The reads that find the operand of an instruction, and its address. They are those of the
operand bytes behind the opcode and, in the indirect modes, of the pointer they name. -/
inductive OperandReads (pc : UInt16) (x y : UInt8) : Mode → List Exchange → UInt16 → Prop
  | implied : OperandReads pc x y .implied [] 0
  | accumulator : OperandReads pc x y .accumulator [] 0
  | immediate : OperandReads pc x y .immediate [] (pc + 1)
  | zeroPage (byte : UInt8) :
      OperandReads pc x y .zeroPage [.read (pc + 1) byte] byte.toUInt16
  | zeroPageX (byte : UInt8) :
      OperandReads pc x y .zeroPageX [.read (pc + 1) byte] (byte + x).toUInt16
  | zeroPageY (byte : UInt8) :
      OperandReads pc x y .zeroPageY [.read (pc + 1) byte] (byte + y).toUInt16
  | relative (byte : UInt8) :
      OperandReads pc x y .relative [.read (pc + 1) byte] (pc + 2 + Operand.distance byte)
  | absolute (low high : UInt8) :
      OperandReads pc x y .absolute [.read (pc + 1) low, .read (pc + 2) high] (wordOf low high)
  | absoluteX (low high : UInt8) :
      OperandReads pc x y .absoluteX [.read (pc + 1) low, .read (pc + 2) high]
        (wordOf low high + x.toUInt16)
  | absoluteY (low high : UInt8) :
      OperandReads pc x y .absoluteY [.read (pc + 1) low, .read (pc + 2) high]
        (wordOf low high + y.toUInt16)
  | indirect (low high targetLow targetHigh : UInt8) :
      OperandReads pc x y .indirect
        [.read (pc + 1) low, .read (pc + 2) high, .read (wordOf low high) targetLow,
          .read (nextInPage (wordOf low high)) targetHigh]
        (wordOf targetLow targetHigh)
  | indexedIndirect (byte low high : UInt8) :
      OperandReads pc x y .indexedIndirect
        [.read (pc + 1) byte, .read (byte + x).toUInt16 low,
          .read (nextInPage (byte + x).toUInt16) high]
        (wordOf low high)
  | indirectIndexed (byte low high : UInt8) :
      OperandReads pc x y .indirectIndexed
        [.read (pc + 1) byte, .read byte.toUInt16 low, .read (nextInPage byte.toUInt16) high]
        (wordOf low high + y.toUInt16)

/-- How an instruction family uses memory once its operand is found. -/
inductive Usage
  | load
  | store
  | modify
  | push
  | pull
  | call
  | returnFromCall
  | softwareInterrupt
  | returnFromInterrupt
  | nothing
  deriving DecidableEq, Repr

/-- How a family uses memory. -/
def Mnemonic.usage : Mnemonic → Usage
  | lda | ldx | ldy | adc | sbc | and | ora | eor | cmp | cpx | cpy | bit => .load
  | lax | las | anc | alr | arr | axs => .load
  | sta | stx | sty | sax => .store
  | inc | dec | asl | lsr | rol | ror | slo | rla | sre | rra | dcp | isc => .modify
  | pha | php => .push
  | pla | plp => .pull
  | jsr => .call
  | rts => .returnFromCall
  | brk => .softwareInterrupt
  | rti => .returnFromInterrupt
  | _ => .nothing

/-- The accesses that carry out an instruction, by the use its family makes of memory. Loads, stores
and modifications go to the address of the operand, everything else to the stack. -/
inductive EffectExchanges (mode : Mode) (addr : UInt16) (sp : UInt8) :
    Usage → List Exchange → Prop
  | load (byte : UInt8) : EffectExchanges mode addr sp .load [.read addr byte]
  | store (byte : UInt8) : EffectExchanges mode addr sp .store [.write addr byte]
  | modify (byte byte' : UInt8) (h : mode ≠ .accumulator) :
      EffectExchanges mode addr sp .modify [.read addr byte, .write addr byte']
  | modifyA (h : mode = .accumulator) : EffectExchanges mode addr sp .modify []
  | push (byte : UInt8) : EffectExchanges mode addr sp .push [.write (stackCell sp) byte]
  | pull (byte : UInt8) : EffectExchanges mode addr sp .pull [.read (stackCell (sp + 1)) byte]
  | call (high low : UInt8) :
      EffectExchanges mode addr sp .call
        [.write (stackCell sp) high, .write (stackCell (sp - 1)) low]
  | returnFromCall (low high : UInt8) :
      EffectExchanges mode addr sp .returnFromCall
        [.read (stackCell (sp + 1)) low, .read (stackCell (sp + 2)) high]
  | softwareInterrupt {exchanges : List Exchange} {target : UInt16}
      (h : EntersHandler irqVector sp exchanges target) :
      EffectExchanges mode addr sp .softwareInterrupt exchanges
  | returnFromInterrupt (status low high : UInt8) :
      EffectExchanges mode addr sp .returnFromInterrupt
        [.read (stackCell (sp + 1)) status, .read (stackCell (sp + 2)) low,
          .read (stackCell (sp + 3)) high]
  | nothing : EffectExchanges mode addr sp .nothing []

/-- The accesses of a step that runs an instruction, by its opcode. -/
inductive StepExchanges (c : Cpu) (byte : UInt8) : List Exchange → Prop
  | run {entry operand effect : List Exchange} {pc addr : UInt16} {sp : UInt8}
      (hentry : Entry c entry pc sp)
      (hoperand : OperandReads pc c.x c.y (Opcode.ofByte byte).mode operand addr)
      (heffect : EffectExchanges (Opcode.ofByte byte).mode addr sp
        (Opcode.ofByte byte).mnemonic.usage effect) :
      StepExchanges c byte (entry ++ .read pc byte :: (operand ++ effect))

/-- A family that uses no memory stops at its operand. -/
theorem StepExchanges.of_nothing {c : Cpu} {byte : UInt8} {exchanges : List Exchange}
    (h : StepExchanges c byte exchanges)
    (husage : (Opcode.ofByte byte).mnemonic.usage = .nothing) :
    ∃ entry operand pc addr sp, Entry c entry pc sp ∧
      OperandReads pc c.x c.y (Opcode.ofByte byte).mode operand addr ∧
      exchanges = entry ++ .read pc byte :: operand := by
  obtain ⟨hentry, hoperand, heffect⟩ := h
  rw [husage] at heffect
  cases heffect
  refine ⟨_, _, _, _, _, hentry, hoperand, ?_⟩
  rw [List.append_nil]

/-! ## What the parts of a step access -/

theorem exchanges_readWord (b : Transcribed β) (addr : UInt16) :
    ∃ low high, (Bus.readWord b addr).1 = wordOf low high ∧
      (Bus.readWord b addr).2.exchanges =
        b.exchanges ++ [.read addr low, .read (addr + 1) high] :=
  ⟨_, _, rfl, List.append_assoc ..⟩

theorem exchanges_readPointer (b : Transcribed β) (addr : UInt16) :
    ∃ low high, (Bus.readPointer b addr).1 = wordOf low high ∧
      (Bus.readPointer b addr).2.exchanges =
        b.exchanges ++ [.read addr low, .read (nextInPage addr) high] :=
  ⟨_, _, rfl, List.append_assoc ..⟩

theorem Operand.exchanges_find (c : Cpu) (b : Transcribed β) (mode : Mode) :
    ∃ reads, (find c b mode).2.exchanges = b.exchanges ++ reads ∧
      OperandReads c.pc c.x c.y mode reads (find c b mode).1.address := by
  have hnext : c.pc + 1 + 1 = c.pc + 2 := UInt16.add_assoc ..
  -- one byte, one word, or a pointer behind either of them
  obtain ⟨low, high, hword, hlist⟩ := exchanges_readWord b (c.pc + 1)
  rw [hnext] at hlist
  cases mode with
  | implied => exact ⟨[], (List.append_nil _).symm, .implied⟩
  | accumulator => exact ⟨[], (List.append_nil _).symm, .accumulator⟩
  | immediate => exact ⟨[], (List.append_nil _).symm, .immediate⟩
  | zeroPage => exact ⟨_, rfl, .zeroPage _⟩
  | zeroPageX => exact ⟨_, rfl, .zeroPageX _⟩
  | zeroPageY => exact ⟨_, rfl, .zeroPageY _⟩
  | relative => exact ⟨_, rfl, .relative _⟩
  | absolute =>
      refine ⟨_, hlist, ?_⟩
      simp only [find, direct, hword]
      exact .absolute low high
  | absoluteX =>
      refine ⟨_, hlist, ?_⟩
      simp only [find, indexed, hword]
      exact .absoluteX low high
  | absoluteY =>
      refine ⟨_, hlist, ?_⟩
      simp only [find, indexed, hword]
      exact .absoluteY low high
  | indirect =>
      obtain ⟨low', high', htarget, hlist'⟩ :=
        exchanges_readPointer (Bus.readWord b (c.pc + 1)).2 (Bus.readWord b (c.pc + 1)).1
      rw [hlist, List.append_assoc] at hlist'
      refine ⟨_, hlist', ?_⟩
      simp only [find, direct, htarget]
      rw [hword]
      exact .indirect low high low' high'
  | indexedIndirect =>
      obtain ⟨low', high', htarget, hlist'⟩ :=
        exchanges_readPointer (Bus.read b (c.pc + 1)).2 ((Bus.read b (c.pc + 1)).1 + c.x).toUInt16
      refine ⟨_, hlist'.trans (List.append_assoc ..), ?_⟩
      simp only [find, direct, htarget]
      exact .indexedIndirect _ low' high'
  | indirectIndexed =>
      obtain ⟨low', high', htarget, hlist'⟩ :=
        exchanges_readPointer (Bus.read b (c.pc + 1)).2 (Bus.read b (c.pc + 1)).1.toUInt16
      refine ⟨_, hlist'.trans (List.append_assoc ..), ?_⟩
      simp only [find, indexed, htarget]
      exact .indirectIndexed _ low' high'

namespace Wired

variable (s : Wired (Transcribed β))

/-- Entering a handler saves the program counter and the status, and reads the vector. -/
theorem exchanges_saved (vector : UInt16) :
    ∃ targetLow targetHigh, (s.enterInterrupt vector).bus.exchanges = s.bus.exchanges ++
        [.write (stackCell s.cpu.sp) (s.cpu.pc >>> 8).toUInt8,
          .write (stackCell (s.cpu.sp - 1)) s.cpu.pc.toUInt8,
          .write (stackCell (s.cpu.sp - 2)) (s.cpu.p ||| Status.brk), .read vector targetLow,
          .read (vector + 1) targetHigh] ∧
      (s.enterInterrupt vector).cpu.pc = wordOf targetLow targetHigh := by
  have htwo : s.cpu.sp - 1 - 1 = s.cpu.sp - 2 := by grind
  have hsaved : (s.pushWord s.cpu.pc).pushStatus.bus.exchanges = s.bus.exchanges ++
      [.write (stackCell s.cpu.sp) (s.cpu.pc >>> 8).toUInt8,
        .write (stackCell (s.cpu.sp - 1)) s.cpu.pc.toUInt8,
        .write (stackCell (s.cpu.sp - 2)) (s.cpu.p ||| Status.brk)] := by
    rw [← htwo]
    show s.bus.exchanges ++ [_] ++ [_] ++ [_] = _
    rw [List.append_assoc, List.append_assoc]
    rfl
  obtain ⟨low, high, htarget, hread⟩ :=
    exchanges_readWord (s.pushWord s.cpu.pc).pushStatus.bus vector
  rw [hsaved, List.append_assoc] at hread
  exact ⟨low, high, hread, htarget⟩

/-- A step enters the handler of an interrupt the same way. -/
theorem exchanges_enter (vector : UInt16) :
    ∃ targetLow targetHigh, (s.enter vector).bus.exchanges = s.bus.exchanges ++
        [.write (stackCell s.cpu.sp) (s.cpu.pc >>> 8).toUInt8,
          .write (stackCell (s.cpu.sp - 1)) s.cpu.pc.toUInt8,
          .write (stackCell (s.cpu.sp - 2)) (s.cpu.p ||| Status.brk), .read vector targetLow,
          .read (vector + 1) targetHigh] ∧
      (s.enter vector).cpu.pc = wordOf targetLow targetHigh :=
  (s.mapCpu fun c => { c with interrupt := .none }).exchanges_saved vector

theorem exchanges_enterInterrupt (vector : UInt16) :
    ∃ made, (s.enterInterrupt vector).bus.exchanges = s.bus.exchanges ++ made ∧
      EntersHandler vector s.cpu.sp made (s.enterInterrupt vector).cpu.pc := by
  obtain ⟨low, high, hmade, hpc⟩ := s.exchanges_saved vector
  refine ⟨_, hmade, ?_⟩
  rw [hpc]
  exact .saved _ _ _ low high

/-- What comes before the instruction. The index registers stay. -/
theorem exchanges_serveInterrupt :
    ∃ made, s.serveInterrupt.bus.exchanges = s.bus.exchanges ++ made ∧
      Entry s.cpu made s.serveInterrupt.cpu.pc s.serveInterrupt.cpu.sp ∧
      s.serveInterrupt.cpu.x = s.cpu.x ∧ s.serveInterrupt.cpu.y = s.cpu.y := by
  rw [serveInterrupt_eq]
  cases h : s.cpu.interrupt.vector? with
  | none =>
      have hnone : s.cpu.interrupt = .none := by
        cases hi : s.cpu.interrupt with
        | none => rfl
        | nmi | irq =>
            rw [hi] at h
            cases h
      exact ⟨[], (List.append_nil _).symm, .straight hnone, rfl, rfl⟩
  | some vector =>
      obtain ⟨made, hmade, henter⟩ :=
        (s.mapCpu fun c => { c with interrupt := .none }).exchanges_enterInterrupt vector
      have hsp : (s.enter vector).cpu.sp = s.cpu.sp - 3 := by
        show s.cpu.sp - 1 - 1 - 1 = s.cpu.sp - 3
        grind
      refine ⟨made, hmade, ?_, rfl, rfl⟩
      show Entry s.cpu made (s.enter vector).cpu.pc (s.enter vector).cpu.sp
      rw [hsp]
      exact .handler h henter

end Wired

/-- How an effect uses memory. -/
def Effect.usage : Effect → Usage
  | .load _ => .load
  | .store _ => .store
  | .modify _ => .modify
  | .pushA | .pushStatus => .push
  | .pullA | .pullStatus => .pull
  | .call => .call
  | .returnFromCall => .returnFromCall
  | .softwareInterrupt => .softwareInterrupt
  | .returnFromInterrupt => .returnFromInterrupt
  | .registers _ | .branch _ | .jump | .idle => .nothing

theorem Mnemonic.usage_effect (m : Mnemonic) : m.effect.usage = m.usage := by
  cases m <;> rfl

namespace Wired

variable (s : Wired (Transcribed β))

/-- What carries out an instruction. -/
theorem exchanges_run (e : Effect) (i : Instruction) :
    ∃ made, (e.run i s).bus.exchanges = s.bus.exchanges ++ made ∧
      EffectExchanges i.opcode.mode i.operand.address s.cpu.sp e.usage made := by
  have hplus : s.cpu.sp + 1 + 1 = s.cpu.sp + 2 := UInt8.add_assoc ..
  have hplus' : s.cpu.sp + 1 + 1 + 1 = s.cpu.sp + 3 := by grind
  have hnone : s.bus.exchanges = s.bus.exchanges ++ [] := (List.append_nil _).symm
  cases e with
  | load f => exact ⟨_, rfl, .load _⟩
  | store f => exact ⟨_, rfl, .store _⟩
  | modify f =>
      by_cases hmode : i.opcode.mode = .accumulator
      · rw [Effect.run, if_pos hmode]
        exact ⟨[], hnone, .modifyA hmode⟩
      · rw [Effect.run, if_neg hmode]
        exact ⟨_, List.append_assoc .., .modify _ _ hmode⟩
  | registers f => exact ⟨[], hnone, .nothing⟩
  | branch taken =>
      refine ⟨[], ?_, .nothing⟩
      rw [Effect.run]
      split <;> exact hnone
  | jump => exact ⟨[], hnone, .nothing⟩
  | call => exact ⟨_, List.append_assoc .., .call _ _⟩
  | returnFromCall =>
      have hread : (Effect.returnFromCall.run i s).bus.exchanges = s.bus.exchanges ++
          [.read (stackCell (s.cpu.sp + 1)) s.pull.1,
            .read (stackCell (s.cpu.sp + 2)) s.pull.2.pull.1] := by
        rw [← hplus]
        exact List.append_assoc ..
      exact ⟨_, hread, .returnFromCall _ _⟩
  | softwareInterrupt =>
      obtain ⟨made, hmade, henter⟩ := s.exchanges_enterInterrupt irqVector
      exact ⟨made, hmade, .softwareInterrupt henter⟩
  | returnFromInterrupt =>
      have hread : (Effect.returnFromInterrupt.run i s).bus.exchanges = s.bus.exchanges ++
          [.read (stackCell (s.cpu.sp + 1)) s.pull.1,
            .read (stackCell (s.cpu.sp + 2)) s.pullStatus.pull.1,
            .read (stackCell (s.cpu.sp + 3)) s.pullStatus.pull.2.pull.1] := by
        rw [← hplus', ← hplus]
        show s.bus.exchanges ++ [_] ++ [_] ++ [_] = _
        rw [List.append_assoc, List.append_assoc]
        rfl
      exact ⟨_, hread, .returnFromInterrupt _ _ _⟩
  | pushA => exact ⟨_, rfl, .push _⟩
  | pushStatus => exact ⟨_, rfl, .push _⟩
  | pullA => exact ⟨_, rfl, .pull _⟩
  | pullStatus => exact ⟨_, rfl, .pull _⟩
  | idle => exact ⟨[], hnone, .nothing⟩

/-- The opcode, the operand and the pointer of an instruction. -/
theorem exchanges_fetch :
    ∃ reads, s.fetch.2.bus.exchanges =
        s.bus.exchanges ++ .read s.cpu.pc s.fetch.1.byte :: reads ∧
      OperandReads s.cpu.pc s.cpu.x s.cpu.y s.fetch.1.opcode.mode reads
        s.fetch.1.operand.address := by
  obtain ⟨reads, hlist, hreads⟩ := Operand.exchanges_find (s.read s.cpu.pc).2.cpu
    (s.read s.cpu.pc).2.bus (Opcode.ofByte (s.read s.cpu.pc).1).mode
  exact ⟨reads, hlist.trans (List.append_assoc ..), hreads⟩

theorem exchanges_chargeOamDma : s.chargeOamDma.bus.exchanges = s.bus.exchanges := by
  unfold chargeOamDma
  dsimp only
  split <;> rfl

/-- The accesses before the effect of an instruction are those of the entry into a handler and of
the fetch. -/
theorem exchanges_readied :
    ∃ reads, s.readied.bus.exchanges = s.serveInterrupt.bus.exchanges ++
        .read s.serveInterrupt.cpu.pc s.next.byte :: reads ∧
      OperandReads s.serveInterrupt.cpu.pc s.serveInterrupt.cpu.x s.serveInterrupt.cpu.y
        s.next.opcode.mode reads s.next.operand.address :=
  s.serveInterrupt.exchanges_fetch

/-- No access follows the effect of an instruction. -/
theorem exchanges_executed : s.runInstruction.bus.exchanges = s.executed.bus.exchanges :=
  s.executed.exchanges_chargeOamDma

theorem exchanges_runInstruction :
    ∃ made, s.runInstruction.bus.exchanges = s.bus.exchanges ++ made ∧
      StepExchanges s.cpu s.next.byte made := by
  obtain ⟨entry, hentry, hbefore, hx, hy⟩ := s.exchanges_serveInterrupt
  obtain ⟨reads, hfetch, hreads⟩ := s.exchanges_readied
  obtain ⟨made, hrun, heffect⟩ := s.readied.exchanges_run s.next.opcode.mnemonic.effect s.next
  have hsp : s.readied.cpu.sp = s.serveInterrupt.cpu.sp := rfl
  refine ⟨entry ++ .read s.serveInterrupt.cpu.pc s.next.byte :: (reads ++ made), ?_, ?_⟩
  · rw [exchanges_executed, executed, hrun, hfetch, hentry, List.append_assoc, List.append_assoc,
      List.cons_append]
  · rw [hx, hy] at hreads
    rw [Mnemonic.usage_effect, hsp] at heffect
    exact .run hbefore hreads heffect

end Wired

/-! ## Writes outside the stack -/

/-- The stack lies in the page from 0100 on. -/
theorem Wired.toNat_stackCell (sp : UInt8) : (stackCell sp).toNat = 0x0100 + sp.toNat := by
  rw [stackCell, UInt16.toNat_or, UInt8.toNat_toUInt16]
  exact (Nat.two_pow_add_eq_or_of_lt (i := 8) sp.toNat_lt 1).symm

theorem Wired.stackCell_mem_page (sp : UInt8) : 0x0100 ≤ stackCell sp ∧ stackCell sp ≤ 0x01FF := by
  have hsp := sp.toNat_lt
  rw [UInt16.le_iff_toNat_le, UInt16.le_iff_toNat_le, toNat_stackCell]
  exact ⟨Nat.le_add_right _ _, Nat.add_le_add_left (Nat.le_of_lt_succ hsp) _⟩

/-- An address outside the stack. -/
def OffStack (addr : UInt16) : Prop := ∀ sp, stackCell sp ≠ addr

theorem offStack_iff {addr : UInt16} : OffStack addr ↔ ¬ (0x0100 ≤ addr ∧ addr ≤ 0x01FF) := by
  refine ⟨fun h hpage => ?_, fun h sp hcell => h (hcell ▸ Wired.stackCell_mem_page sp)⟩
  obtain ⟨hlow, hhigh⟩ := hpage
  have hlow' : 0x0100 ≤ addr.toNat := UInt16.le_iff_toNat_le.mp hlow
  have hhigh' : addr.toNat ≤ 0x01FF := UInt16.le_iff_toNat_le.mp hhigh
  -- the low byte of the address names its cell
  refine h addr.toUInt8 (UInt16.toNat_inj.mp ?_)
  rw [Wired.toNat_stackCell, UInt16.toNat_toUInt8]
  omega

theorem offStack_oamDmaAddress : OffStack oamDmaAddress := offStack_iff.mpr (by decide)

/-- Number of writes to an address. -/
def writeCount (addr : UInt16) (exchanges : List Exchange) : Nat :=
  exchanges.countP (Exchange.writesTo addr)

theorem EntersHandler.writeCount_eq {vector target : UInt16} {sp : UInt8}
    {exchanges : List Exchange} (h : EntersHandler vector sp exchanges target) {addr : UInt16}
    (haddr : OffStack addr) : writeCount addr exchanges = 0 := by
  obtain ⟨high, low, status, targetLow, targetHigh⟩ := h
  simp [writeCount, Exchange.writesTo, haddr _]

theorem Entry.writeCount_eq {c : Cpu} {exchanges : List Exchange} {pc : UInt16} {sp : UInt8}
    (h : Entry c exchanges pc sp) {addr : UInt16} (haddr : OffStack addr) :
    writeCount addr exchanges = 0 := by
  cases h with
  | straight => rfl
  | handler _ henter => exact henter.writeCount_eq haddr

theorem OperandReads.writeCount_eq {pc target : UInt16} {x y : UInt8} {mode : Mode}
    {exchanges : List Exchange} (h : OperandReads pc x y mode exchanges target) (addr : UInt16) :
    writeCount addr exchanges = 0 := by
  cases h <;> rfl

theorem EffectExchanges.writeCount_le {mode : Mode} {target : UInt16} {sp : UInt8} {usage : Usage}
    {exchanges : List Exchange} (h : EffectExchanges mode target sp usage exchanges) {addr : UInt16}
    (haddr : OffStack addr) : writeCount addr exchanges ≤ 1 := by
  cases h with
  | softwareInterrupt henter =>
      rw [henter.writeCount_eq haddr]
      exact Nat.zero_le 1
  | load | modifyA | pull | returnFromCall | returnFromInterrupt | nothing => exact Nat.zero_le 1
  | push | call => simp [writeCount, Exchange.writesTo, haddr _]
  | store | modify =>
      by_cases hwrite : target = addr <;> simp [writeCount, Exchange.writesTo, hwrite]

/-- A step writes to an address outside the stack once at most. -/
theorem StepExchanges.writeCount_le {c : Cpu} {byte : UInt8} {exchanges : List Exchange}
    (h : StepExchanges c byte exchanges) {addr : UInt16} (haddr : OffStack addr) :
    writeCount addr exchanges ≤ 1 := by
  obtain ⟨hentry, hoperand, heffect⟩ := h
  have hentry' := hentry.writeCount_eq haddr
  have hoperand' := hoperand.writeCount_eq addr
  have heffect' := heffect.writeCount_le haddr
  unfold writeCount at hentry' hoperand' heffect' ⊢
  rw [List.countP_append, List.countP_cons, List.countP_append, hentry', hoperand']
  simpa [Exchange.writesTo] using heffect'

/-! ## Steps -/

namespace Wired

variable {γ : Type} [Bus γ] {R : β → γ → Prop} {s : Wired β} {t : Wired γ}

theorem next_alike (hR : Bus.Simulation R) (h : Alike R s t) : s.next = t.next :=
  (fetch_alike hR (serveInterrupt_alike hR h)).1

theorem readied_alike (hR : Bus.Simulation R) (h : Alike R s t) : Alike R s.readied t.readied := by
  obtain ⟨hi, h'⟩ := fetch_alike hR (serveInterrupt_alike hR h)
  unfold readied advance next
  rw [hi]
  exact h'.mapCpu _

end Wired

/-- The accesses of one step. -/
def Wired.exchanges (s : Wired β) : List Exchange :=
  (Wired.step ⟨s.cpu, (⟨s.bus, []⟩ : Transcribed β)⟩).2.bus.exchanges

/-- A CPU that waits makes no access. -/
theorem Wired.exchanges_of_stalled {s : Wired β} (h : s.cpu.stall ≠ 0) : s.exchanges = [] := by
  let t : Wired (Transcribed β) := ⟨s.cpu, ⟨s.bus, []⟩⟩
  exact congrArg (fun r => r.2.bus.exchanges) (Wired.step_of_stalled (s := t) h)

theorem Wired.exchanges_of_not_stalled {s : Wired β} (h : s.cpu.stall = 0) :
    s.exchanges = (executed (⟨s.cpu, ⟨s.bus, []⟩⟩ : Wired (Transcribed β))).bus.exchanges := by
  let t : Wired (Transcribed β) := ⟨s.cpu, ⟨s.bus, []⟩⟩
  show t.step.2.bus.exchanges = t.executed.bus.exchanges
  rw [(step_of_not_stalled (s := t) h).2, exchanges_executed]

/-- A step that does not wait runs an instruction. -/
theorem Wired.stepExchanges {s : Wired β} (h : s.cpu.stall = 0) :
    StepExchanges s.cpu s.next.byte s.exchanges := by
  let t : Wired (Transcribed β) := ⟨s.cpu, ⟨s.bus, []⟩⟩
  have hnext : s.next = t.next := Wired.next_alike transcribed_simulation ⟨rfl, rfl⟩
  obtain ⟨made, hmade, hstep⟩ := t.exchanges_runInstruction
  have hlist : s.exchanges = made := by
    rw [Wired.exchanges_of_not_stalled h, ← exchanges_executed, hmade]
    exact List.nil_append made
  rw [hlist, hnext]
  exact hstep

/-- How one step uses its bus. -/
structure AccessDiscipline (s : Wired β) : Prop where
  /-- The list is the one a recorded bus keeps. -/
  recorded : (Wired.step ⟨s.cpu, (⟨s.bus, #[]⟩ : Recorded β)⟩).2.bus.accesses.toList =
    s.exchanges.map Exchange.access
  /-- Keeping the list does not change the step. -/
  undisturbed : Agree (Wired.Alike fun (b : β) (t : Transcribed β) => t.bus = b) s.step
    (Wired.step ⟨s.cpu, (⟨s.bus, []⟩ : Transcribed β)⟩)
  /-- A CPU that waits makes no access. -/
  stalled : s.cpu.stall ≠ 0 → s.exchanges = []
  /-- Otherwise the step enters the handler of a waiting interrupt, reads an instruction with its
  operand, and carries it out. -/
  run : s.cpu.stall = 0 → StepExchanges s.cpu s.next.byte s.exchanges
  /-- Families that use no memory do not touch their operand. -/
  untouched : s.cpu.stall = 0 → s.next.opcode.mnemonic.usage = .nothing →
    ∃ entry operand pc addr sp, Entry s.cpu entry pc sp ∧
      OperandReads pc s.cpu.x s.cpu.y s.next.opcode.mode operand addr ∧
      s.exchanges = entry ++ .read pc s.next.byte :: operand
  /-- The stack does not leave its page. -/
  stack : ∀ sp, 0x0100 ≤ Wired.stackCell sp ∧ Wired.stackCell sp ≤ 0x01FF
  /-- An address outside the stack is written once at most. -/
  once : ∀ addr, OffStack addr → writeCount addr s.exchanges ≤ 1
  /-- So a step starts one transfer into sprite memory at most. -/
  transfers : writeCount oamDmaAddress s.exchanges ≤ 1

/-- **The accesses of a step**, for every state of the CPU and every bus. -/
theorem accesses_of_step (s : Wired β) : AccessDiscipline s := by
  have honce : ∀ addr, OffStack addr → writeCount addr s.exchanges ≤ 1 := by
    intro addr haddr
    by_cases h : s.cpu.stall = 0
    · exact (Wired.stepExchanges h).writeCount_le haddr
    · rw [Wired.exchanges_of_stalled h]
      exact Nat.zero_le 1
  constructor
  case recorded => exact (Wired.step_alike recorded_simulation ⟨rfl, rfl, rfl⟩).2.bus.2
  case undisturbed => exact Wired.step_alike transcribed_simulation ⟨rfl, rfl⟩
  case stalled => exact Wired.exchanges_of_stalled
  case run => exact Wired.stepExchanges
  case untouched => exact fun h => (Wired.stepExchanges h).of_nothing
  case stack => exact Wired.stackCell_mem_page
  case once => exact honce
  case transfers => exact honce oamDmaAddress offStack_oamDmaAddress

end Nes
