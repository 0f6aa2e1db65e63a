import Nes.Cpu.Step

/-!
# The CPU on two buses that answer alike

The CPU learns about its bus from the answers to its reads and from the reports of transfers only.
So if two buses are related, if related buses give equal answers, and if every access leads to
related buses again, then the CPU does the same on both: it takes the same cycles, its registers
stay equal and the buses stay related (`Wired.step_alike`).

The relation can be anything: with a bus and a recording of it, this says that a step does to the
bus what its list of accesses does.
-/

set_option autoImplicit false

namespace Nes

variable {β γ : Type}

/-- Two results that agree in their answer and are related in what is left. -/
def Agree {α σ τ : Type} (R : σ → τ → Prop) (x : α × σ) (y : α × τ) : Prop :=
  x.1 = y.1 ∧ R x.2 y.2

/-- A relation between two buses that accesses keep, with equal answers. -/
structure Bus.Simulation [Bus β] [Bus γ] (R : β → γ → Prop) : Prop where
  read {b : β} {c : γ} (h : R b c) (addr : UInt16) : Agree R (Bus.read b addr) (Bus.read c addr)
  write {b : β} {c : γ} (h : R b c) (addr : UInt16) (value : UInt8) :
    R (Bus.write b addr value) (Bus.write c addr value)
  takeOamDma {b : β} {c : γ} (h : R b c) : Agree R (Bus.takeOamDma b) (Bus.takeOamDma c)

namespace Bus.Simulation

variable [Bus β] [Bus γ] {R : β → γ → Prop}

theorem readWord (hR : Simulation R) {b : β} {c : γ} (h : R b c) (addr : UInt16) :
    Agree R (Bus.readWord b addr) (Bus.readWord c addr) := by
  obtain ⟨hlow, h1⟩ := hR.read h addr
  obtain ⟨hhigh, h2⟩ := hR.read h1 (addr + 1)
  exact ⟨by simp only [Bus.readWord, hlow, hhigh], h2⟩

theorem readPointer (hR : Simulation R) {b : β} {c : γ} (h : R b c) (addr : UInt16) :
    Agree R (Bus.readPointer b addr) (Bus.readPointer c addr) := by
  obtain ⟨hlow, h1⟩ := hR.read h addr
  obtain ⟨hhigh, h2⟩ := hR.read h1 (nextInPage addr)
  exact ⟨by simp only [Bus.readPointer, hlow, hhigh], h2⟩

/-- The operand of an instruction is found alike on related buses, in every addressing mode. -/
theorem find (hR : Simulation R) (cpu : Cpu) {b : β} {c : γ} (h : R b c) (mode : Mode) :
    Agree R (Operand.find cpu b mode) (Operand.find cpu c mode) := by
  -- one byte, one word, or a pointer behind either of them
  obtain ⟨hbyte, hb⟩ := hR.read h (cpu.pc + 1)
  obtain ⟨hword, hw⟩ := hR.readWord h (cpu.pc + 1)
  cases mode with
  | implied | accumulator | immediate => exact ⟨rfl, h⟩
  | zeroPage | zeroPageX | zeroPageY | relative =>
      simp only [Operand.find]
      exact ⟨by rw [hbyte], hb⟩
  | absolute | absoluteX | absoluteY =>
      simp only [Operand.find]
      exact ⟨by rw [hword], hw⟩
  | indirect =>
      simp only [Operand.find]
      rw [hword]
      obtain ⟨hp, hb'⟩ := hR.readPointer hw (Bus.readWord c (cpu.pc + 1)).1
      exact ⟨by rw [hp], hb'⟩
  | indexedIndirect =>
      simp only [Operand.find]
      rw [hbyte]
      obtain ⟨hp, hb'⟩ := hR.readPointer hb ((Bus.read c (cpu.pc + 1)).1 + cpu.x).toUInt16
      exact ⟨by rw [hp], hb'⟩
  | indirectIndexed =>
      simp only [Operand.find]
      rw [hbyte]
      obtain ⟨hp, hb'⟩ := hR.readPointer hb (Bus.read c (cpu.pc + 1)).1.toUInt16
      exact ⟨by rw [hp], hb'⟩

end Bus.Simulation

namespace Wired

/-- The same CPU on related buses. -/
structure Alike (R : β → γ → Prop) (s : Wired β) (t : Wired γ) : Prop where
  cpu : s.cpu = t.cpu
  bus : R s.bus t.bus

variable {R : β → γ → Prop} {s : Wired β} {t : Wired γ}

theorem Alike.mapCpu (h : Alike R s t) (f : Cpu → Cpu) : Alike R (s.mapCpu f) (t.mapCpu f) :=
  ⟨congrArg f h.cpu, h.bus⟩

/-- Changing the registers with what a result says. -/
theorem Alike.mapCpu_agree {α : Type} {x : α × Wired β} {y : α × Wired γ}
    (h : Agree (Alike R) x y) (f : α → Cpu → Cpu) :
    Alike R (x.2.mapCpu (f x.1)) (y.2.mapCpu (f y.1)) := by
  rw [h.1]
  exact h.2.mapCpu (f y.1)

variable [Bus β] [Bus γ]

/-! ## Accesses and the stack -/

theorem read_alike (hR : Bus.Simulation R) (h : Alike R s t) (addr : UInt16) :
    Agree (Alike R) (s.read addr) (t.read addr) := by
  obtain ⟨hv, hb⟩ := hR.read h.bus addr
  exact ⟨hv, h.cpu, hb⟩

theorem write_alike (hR : Bus.Simulation R) (h : Alike R s t) (addr : UInt16) (value : UInt8) :
    Alike R (s.write addr value) (t.write addr value) :=
  ⟨h.cpu, hR.write h.bus addr value⟩

theorem push_alike (hR : Bus.Simulation R) (h : Alike R s t) (value : UInt8) :
    Alike R (s.push value) (t.push value) := by
  unfold push
  rw [h.cpu]
  exact (write_alike hR h (stackCell t.cpu.sp) value).mapCpu _

theorem pushWord_alike (hR : Bus.Simulation R) (h : Alike R s t) (value : UInt16) :
    Alike R (s.pushWord value) (t.pushWord value) :=
  push_alike hR (push_alike hR h _) _

theorem pushStatus_alike (hR : Bus.Simulation R) (h : Alike R s t) :
    Alike R s.pushStatus t.pushStatus := by
  unfold pushStatus
  rw [h.cpu]
  exact push_alike hR h _

theorem pull_alike (hR : Bus.Simulation R) (h : Alike R s t) : Agree (Alike R) s.pull t.pull := by
  have h1 := h.mapCpu fun c => { c with sp := c.sp + 1 }
  simp only [pull, h1.cpu]
  exact read_alike hR h1 _

theorem pullWord_alike (hR : Bus.Simulation R) (h : Alike R s t) :
    Agree (Alike R) s.pullWord t.pullWord := by
  obtain ⟨hlow, h1⟩ := pull_alike hR h
  obtain ⟨hhigh, h2⟩ := pull_alike hR h1
  exact ⟨by simp only [pullWord, hlow, hhigh], h2⟩

theorem pullStatus_alike (hR : Bus.Simulation R) (h : Alike R s t) :
    Alike R s.pullStatus t.pullStatus :=
  Alike.mapCpu_agree (pull_alike hR h) fun value c =>
    { c with p := (value &&& ~~~Status.brk) ||| Status.unused }

/-! ## Interrupts -/

theorem jumpThrough_alike (hR : Bus.Simulation R) (h : Alike R s t) (vector : UInt16) :
    Alike R (s.jumpThrough vector) (t.jumpThrough vector) := by
  obtain ⟨hv, hb⟩ := hR.readWord h.bus vector
  have hr : Agree (Alike R) (s.readWord vector) (t.readWord vector) := ⟨hv, h.cpu, hb⟩
  exact Alike.mapCpu_agree hr fun target c => { c with pc := target }

theorem enterInterrupt_alike (hR : Bus.Simulation R) (h : Alike R s t) (vector : UInt16) :
    Alike R (s.enterInterrupt vector) (t.enterInterrupt vector) := by
  unfold enterInterrupt
  rw [h.cpu]
  have h1 := pushStatus_alike hR (pushWord_alike hR h t.cpu.pc)
  exact jumpThrough_alike hR (h1.mapCpu _) vector

theorem serveInterrupt_alike (hR : Bus.Simulation R) (h : Alike R s t) :
    Alike R s.serveInterrupt t.serveInterrupt := by
  -- both kinds are entered in the same way, through different vectors
  have enter : ∀ vector : UInt16,
      Alike R
        (((s.mapCpu fun c => { c with interrupt := .none }).enterInterrupt vector).mapCpu fun c =>
          { c with cycles := c.cycles + interruptCycles })
        (((t.mapCpu fun c => { c with interrupt := .none }).enterInterrupt vector).mapCpu fun c =>
          { c with cycles := c.cycles + interruptCycles }) := fun vector =>
    (enterInterrupt_alike hR (h.mapCpu _) vector).mapCpu _
  unfold serveInterrupt
  rw [h.cpu]
  cases t.cpu.interrupt with
  | none => exact h
  | nmi => exact enter nmiVector
  | irq => exact enter irqVector

theorem reset_alike (hR : Bus.Simulation R) (h : Alike R s t) : Alike R s.reset t.reset :=
  (jumpThrough_alike hR h resetVector).mapCpu _

/-! ## Instructions -/

theorem fetch_alike (hR : Bus.Simulation R) (h : Alike R s t) :
    Agree (Alike R) s.fetch t.fetch := by
  obtain ⟨hbyte, h1⟩ := read_alike hR h t.cpu.pc
  simp only [fetch, h.cpu, hbyte, h1.cpu]
  obtain ⟨hop, h2⟩ := hR.find (t.read t.cpu.pc).2.cpu h1.bus
    (Opcode.ofByte (t.read t.cpu.pc).1).mode
  exact ⟨by rw [hop], rfl, h2⟩

/-- The instruction that comes next is the same on related buses. -/
theorem upcoming_alike (hR : Bus.Simulation R) (h : Alike R s t) :
    (s.upcoming? = none ∧ t.upcoming? = none) ∨
      ∃ i s' t', s.upcoming? = some (i, s') ∧ t.upcoming? = some (i, t') ∧ Alike R s' t' := by
  obtain ⟨hi, h1⟩ := fetch_alike hR (serveInterrupt_alike hR h)
  simp only [upcoming?, h.cpu]
  split
  · -- the instruction is the same one, with what is left of either bus
    have ht : t.serveInterrupt.fetch = (s.serveInterrupt.fetch.1, t.serveInterrupt.fetch.2) :=
      Prod.ext hi.symm rfl
    exact Or.inr ⟨s.serveInterrupt.fetch.1, _, _, rfl, congrArg some ht, h1⟩
  · exact Or.inl ⟨rfl, rfl⟩

theorem run_alike (hR : Bus.Simulation R) (e : Effect) (i : Instruction) (h : Alike R s t) :
    Alike R (e.run i s) (e.run i t) := by
  cases e with
  | load f => exact Alike.mapCpu_agree (read_alike hR h _) fun value c => f c value
  | store f =>
      simp only [Effect.run, h.cpu]
      exact write_alike hR h _ _
  | modify f =>
      simp only [Effect.run]
      split
      · exact h.mapCpu _
      · obtain ⟨hv, h1⟩ := read_alike hR h i.operand.address
        rw [hv, h1.cpu]
        exact (write_alike hR h1 _ _).mapCpu _
  | registers f => exact h.mapCpu f
  | branch taken =>
      simp only [Effect.run, h.cpu]
      split
      · exact h.mapCpu _
      · exact h
  | jump => exact h.mapCpu fun c => { c with pc := i.operand.address }
  | call =>
      simp only [Effect.run, h.cpu]
      exact (pushWord_alike hR h _).mapCpu _
  | returnFromCall =>
      exact Alike.mapCpu_agree (pullWord_alike hR h) fun target c => { c with pc := target + 1 }
  | softwareInterrupt => exact enterInterrupt_alike hR h irqVector
  | returnFromInterrupt =>
      exact Alike.mapCpu_agree (pullWord_alike hR (pullStatus_alike hR h)) fun target c =>
        { c with pc := target }
  | pushA =>
      simp only [Effect.run, h.cpu]
      exact push_alike hR h _
  | pushStatus => exact pushStatus_alike hR h
  | pullA => exact Alike.mapCpu_agree (pull_alike hR h) fun value c => c.setA value
  | pullStatus => exact pullStatus_alike hR h
  | idle => exact h

theorem chargeOamDma_alike (hR : Bus.Simulation R) (h : Alike R s t) :
    Alike R s.chargeOamDma t.chargeOamDma := by
  obtain ⟨hd, hb⟩ := hR.takeOamDma h.bus
  have h1 : Alike R { s with bus := (Bus.takeOamDma s.bus).2 }
      { t with bus := (Bus.takeOamDma t.bus).2 } := ⟨h.cpu, hb⟩
  simp only [chargeOamDma, hd]
  split
  · exact h1.mapCpu _
  · exact h1

theorem runInstruction_alike (hR : Bus.Simulation R) (h : Alike R s t) :
    Alike R s.runInstruction t.runInstruction := by
  obtain ⟨hi, h1⟩ := fetch_alike hR (serveInterrupt_alike hR h)
  simp only [runInstruction, hi]
  exact chargeOamDma_alike hR (run_alike hR _ _ (h1.mapCpu _))

/-- **A step on related buses** takes the same cycles and leads to the same CPU on related buses. -/
theorem step_alike (hR : Bus.Simulation R) (h : Alike R s t) : Agree (Alike R) s.step t.step := by
  have h1 := runInstruction_alike hR h
  -- an instruction, or a cycle of a stall
  simp only [step, h.cpu]
  split
  · exact ⟨by rw [h1.cpu], h1⟩
  · exact ⟨rfl, h.mapCpu fun c => { c with stall := c.stall - 1 }⟩

end Wired

end Nes
