import Nes.Proofs.Cpu.Accesses

/-!
# How a step begins, and what starts a transfer

Two things about the accesses of a step. The first ones show where it begins: with the opcode at the
program counter, or with the entry into a handler, which saves just that program counter and reads
the opcode behind the vector (`Wired.begins`). And if the step starts a transfer into sprite memory,
one of them is a write to the port for it. Only an instruction that stores or modifies can make that
write, and such an instruction goes on to the next one in memory (`Wired.store_of_transfers`).
-/

set_option autoImplicit false

namespace Nes

open Wired (stackCell)

/-! ## The first accesses -/

/-- How a step begins: with an instruction, or with the handler of the interrupt that waits. -/
inductive Begins (c : Cpu) (byte : UInt8) : List Exchange → Prop
  | instruction {rest : List Exchange} (h : c.interrupt = .none) :
      Begins c byte (.read c.pc byte :: rest)
  | handler {vector : UInt16} {low high : UInt8} {rest : List Exchange}
      (h : c.interrupt.vector? = some vector) :
      Begins c byte
        (.write (stackCell c.sp) (c.pc >>> 8).toUInt8 ::
          .write (stackCell (c.sp - 1)) c.pc.toUInt8 ::
          .write (stackCell (c.sp - 2)) (c.p ||| Status.brk) ::
          .read vector low :: .read (vector + 1) high :: .read (wordOf low high) byte :: rest)

/-- Every interrupt has a vector. -/
theorem Interrupt.eq_none_of_vector {i : Interrupt} (h : i.vector? = Option.none) :
    i = .none := by
  cases i with
  | none => rfl
  | nmi | irq => cases h

namespace Wired

variable {β : Type} [Bus β]

theorem begins {s : Wired β} (h : s.cpu.stall = 0) : Begins s.cpu s.next.byte s.exchanges := by
  let t : Wired (Transcribed β) := ⟨s.cpu, ⟨s.bus, []⟩⟩
  have hnext : s.next = t.next := next_alike transcribed_simulation ⟨rfl, rfl⟩
  have hlist : s.exchanges = t.executed.bus.exchanges := exchanges_of_not_stalled h
  obtain ⟨reads, hreads, -⟩ := t.exchanges_readied
  obtain ⟨made, hmade, -⟩ := t.readied.exchanges_run t.next.opcode.mnemonic.effect t.next
  rw [executed, hmade, hreads, serveInterrupt_eq] at hlist
  rw [hlist, hnext]
  cases hvector : t.cpu.interrupt.vector? with
  | none => exact .instruction (Interrupt.eq_none_of_vector hvector)
  | some vector =>
      obtain ⟨low, high, hsaved, hpc⟩ := t.exchanges_enter vector
      rw [Option.map_some, Option.getD_some, hsaved, hpc, List.append_assoc]
      exact .handler hvector

end Wired

/-! ## Writes outside the stack -/

/-- Only an instruction that stores or modifies writes outside the stack. -/
theorem StepExchanges.usage_of_write {c : Cpu} {byte : UInt8} {exchanges : List Exchange}
    (h : StepExchanges c byte exchanges) {addr : UInt16} (haddr : OffStack addr) {value : UInt8}
    (hwrite : .write addr value ∈ exchanges) :
    (Opcode.ofByte byte).mnemonic.usage = .store ∨
      (Opcode.ofByte byte).mnemonic.usage = .modify := by
  obtain ⟨hentry, hoperand, heffect⟩ := h
  have hfree : ∀ {l : List Exchange}, writeCount addr l = 0 → ¬ .write addr value ∈ l := by
    intro l hl hmem
    have hnot := List.countP_eq_zero.mp hl _ hmem
    exact hnot (beq_self_eq_true addr)
  rcases List.mem_append.mp hwrite with hmem | hmem
  · exact absurd hmem (hfree (hentry.writeCount_eq haddr))
  · rcases List.mem_cons.mp hmem with hopcode | hmem
    · cases hopcode
    · rcases List.mem_append.mp hmem with hmem | hmem
      · exact absurd hmem (hfree (hoperand.writeCount_eq addr))
      · generalize (Opcode.ofByte byte).mnemonic.usage = usage at heffect ⊢
        cases heffect with
        | store => exact .inl rfl
        | modify | modifyA => exact .inr rfl
        | softwareInterrupt henter => exact absurd hmem (hfree (henter.writeCount_eq haddr))
        | load | pull | returnFromCall | returnFromInterrupt | nothing =>
            exact absurd hmem (hfree rfl)
        | push | call =>
            refine absurd hmem (hfree ?_)
            simp [writeCount, Exchange.writesTo, haddr _]

/-- What a modification does to the registers leaves the program counter alone. -/
def Effect.Proceeds : Effect → Prop
  | .modify f => ∀ c value, (f c value).2.pc = c.pc
  | _ => True

@[simp] theorem Cpu.pc_setFlag (c : Cpu) (mask : UInt8) (on : Bool) :
    (c.setFlag mask on).pc = c.pc := rfl

@[simp] theorem Cpu.pc_updateZN (c : Cpu) (value : UInt8) : (c.updateZN value).pc = c.pc := by
  simp [updateZN]

open Cpu in
theorem Mnemonic.proceeds_effect (m : Mnemonic) : m.effect.Proceeds := by
  cases m <;> simp [effect, Effect.Proceeds, shiftLeft, shiftRight, rotateLeft, rotateRight,
    increment, decrement, countUp, countDown, modifyThen, andA, orA, xorA, compareA, setA,
    addWithCarry, subtractWithCarry, Cpu.compare]

/-- An effect that stores or modifies goes on behind its instruction. -/
theorem Wired.pc_run {β : Type} [Bus β] {e : Effect} (he : e.Proceeds)
    (husage : e.usage = .store ∨ e.usage = .modify) (i : Instruction) (s : Wired β) :
    (e.run i s).cpu.pc = s.cpu.pc := by
  cases e with
  | store f => rfl
  | modify f =>
      simp only [Effect.run]
      split
      · exact he s.cpu s.cpu.a
      · exact he (s.read i.operand.address).2.cpu _
  | _ => simp [Effect.usage] at husage

/-! ## The port of transfers -/

section Port

variable {μ : Type} [Board μ]

theorem CpuMemory.oamDma_read (m : CpuMemory μ) (addr : UInt16) :
    (m.read addr).2.oamDma = m.oamDma := by
  unfold read
  split
  · rfl
  · split
    · rfl
    · split <;> rfl

/-- A write elsewhere reports nothing. -/
theorem CpuMemory.oamDma_write (m : CpuMemory μ) {addr : UInt16} (h : addr ≠ oamDmaAddress)
    (value : UInt8) : (m.write addr value).oamDma = m.oamDma := by
  unfold write
  split
  · rfl
  · split
    · rfl
    · split
      · unfold note
        split <;> rfl
      · rfl

/-- A transfer that is yet to be reported has been started by a write to the port. -/
theorem started_simulation :
    Bus.Simulation fun (b : CpuMemory μ) (t : Transcribed (CpuMemory μ)) =>
      t.bus = b ∧ (b.oamDma = true → ∃ page, .write oamDmaAddress page ∈ t.exchanges) where
  read {b t} h addr := by
    obtain ⟨rfl, hport⟩ := h
    refine ⟨rfl, rfl, fun hdma => ?_⟩
    obtain ⟨page, hpage⟩ := hport ((t.bus.oamDma_read addr).symm.trans hdma)
    exact ⟨page, List.mem_append_left _ hpage⟩
  write {b t} h addr value := by
    obtain ⟨rfl, hport⟩ := h
    refine ⟨rfl, fun hdma => ?_⟩
    by_cases haddr : addr = oamDmaAddress
    · subst haddr
      exact ⟨value, List.mem_append_right _ (List.mem_singleton_self _)⟩
    · obtain ⟨page, hpage⟩ := hport ((t.bus.oamDma_write haddr value).symm.trans hdma)
      exact ⟨page, List.mem_append_left _ hpage⟩
  takeOamDma {b t} h := by
    obtain ⟨rfl, hport⟩ := h
    exact ⟨rfl, rfl, fun hdma => by cases hdma⟩

/-- **What starts a transfer.** The step writes to the port, and goes on behind its instruction. -/
theorem Wired.store_of_transfers {s : Wired (CpuMemory μ)} (hstall : s.cpu.stall = 0)
    (hquiet : s.bus.oamDma = false) (h : s.transfers = true) :
    (∃ page, .write oamDmaAddress page ∈ s.exchanges) ∧
      s.runInstruction.cpu.pc = s.next.next := by
  let t : Wired (Transcribed (CpuMemory μ)) := ⟨s.cpu, ⟨s.bus, []⟩⟩
  have halike : Alike (fun (b : CpuMemory μ) (t : Transcribed (CpuMemory μ)) =>
      t.bus = b ∧ (b.oamDma = true → ∃ page, .write oamDmaAddress page ∈ t.exchanges)) s t :=
    ⟨rfl, rfl, fun hdma => by rw [hquiet] at hdma; cases hdma⟩
  have hwritten : ∃ page, .write oamDmaAddress page ∈ s.exchanges := by
    rw [exchanges_of_not_stalled hstall]
    have hexecuted := run_alike started_simulation s.next.opcode.mnemonic.effect s.next
      (readied_alike started_simulation halike)
    rw [next_alike started_simulation halike] at hexecuted
    exact hexecuted.bus.2 ((next_alike started_simulation halike) ▸ h)
  obtain ⟨page, hpage⟩ := hwritten
  have husage := (stepExchanges hstall).usage_of_write offStack_oamDmaAddress hpage
  have hcharge : ∀ s : Wired (CpuMemory μ), s.chargeOamDma.cpu.pc = s.cpu.pc := by
    intro s
    unfold chargeOamDma
    dsimp only
    split <;> rfl
  refine ⟨⟨page, hpage⟩, (hcharge s.executed).trans ?_⟩
  rw [← Mnemonic.usage_effect] at husage
  exact pc_run (Mnemonic.proceeds_effect _) husage s.next s.readied

end Port

end Nes
