import Nes.Memory.Flat
import Nes.Proofs.Cpu.Accesses
import Nes.Proofs.Cpu.Flags

/-!
# The bits that mark copies of the status byte

Two bits of the status byte say nothing about the CPU. In the live byte the break bit is clear and
the unused bit is set (`Cpu.Marked`); a copy on the stack has both set and is otherwise the live
byte (`Status.IsCopy`). The bytes a program pulls are arbitrary, but pulling rebuilds both bits, and
no other instruction touches them (`Wired.marked_run`).

`Cpu.Reachable` says which states a CPU can get into, on any buses whatsoever, and
`status_of_reachable` that all of them are marked and push copies only.
-/

set_option autoImplicit false

namespace Nes

open Wired (stackCell)

/-! ## Copies -/

/-- The two bits that mark copies. -/
def Status.marks : UInt8 := brk ||| unused

/-- A byte on the stack is a copy of the live status byte: both marks are set, and the other six
bits are those of the live byte. -/
structure Status.IsCopy (pushed live : UInt8) : Prop where
  brk : pushed &&& Status.brk = Status.brk
  unused : pushed &&& Status.unused = Status.unused
  others : pushed &&& ~~~marks = live &&& ~~~marks

namespace Cpu

/-- The live status byte has the break bit clear and the unused bit set. -/
structure Marked (c : Cpu) : Prop where
  brk : c.bits Status.brk = 0
  unused : c.bits Status.unused = Status.unused

theorem Marked.of_p_eq {c c' : Cpu} (h : c.Marked) (hp : c'.p = c.p) : c'.Marked where
  brk := by rw [bits, hp, ← bits, h.brk]
  unused := by rw [bits, hp, ← bits, h.unused]

/-- What is pushed is a copy. -/
theorem Marked.isCopy {c : Cpu} (h : c.Marked) : Status.IsCopy (c.p ||| Status.brk) c.p where
  brk := c.bits_setFlag_self true
  unused := (c.bits_setFlag (by decide) true).trans h.unused
  others := c.bits_setFlag (by decide) true

/-- What is pulled becomes a live byte again. -/
theorem marked_rebuilt (c : Cpu) (value : UInt8) :
    ({ c with p := (value &&& ~~~Status.brk) ||| Status.unused } : Cpu).Marked := by
  let cleared : Cpu := ({ c with p := value } : Cpu).setFlag Status.brk false
  have hbrk : cleared.bits Status.brk = 0 := bits_setFlag_self _ false
  have hkept : (cleared.setFlag Status.unused true).bits Status.brk = cleared.bits Status.brk :=
    bits_setFlag _ (by decide) true
  exact ⟨hkept.trans hbrk, cleared.bits_setFlag_self true⟩

end Cpu

/-! ## Steps keep the marks -/

/-- The families that pull the status byte from the stack. -/
def Mnemonic.pullsStatus : Mnemonic → Bool
  | plp | rti => true
  | _ => false

/-- All other families leave the marks alone. -/
theorem Mnemonic.touched_marks {m : Mnemonic} (h : m.pullsStatus = false) :
    m.touched &&& Status.brk = 0 ∧ m.touched &&& Status.unused = 0 := by
  cases m <;> first | exact ⟨rfl, rfl⟩ | cases h

namespace Wired

variable {β : Type} [Bus β] {s : Wired β}

theorem marked_pullStatus (s : Wired β) : s.pullStatus.cpu.Marked :=
  s.pull.2.cpu.marked_rebuilt s.pull.1

theorem marked_run (h : s.cpu.Marked) (m : Mnemonic) (i : Instruction) :
    (m.effect.run i s).cpu.Marked := by
  cases hm : m.pullsStatus with
  | false =>
      obtain ⟨hbrk, hunused⟩ := Mnemonic.touched_marks hm
      exact ⟨(bits_run (Mnemonic.keeps_effect hbrk) i s).trans h.brk,
        (bits_run (Mnemonic.keeps_effect hunused) i s).trans h.unused⟩
  | true =>
      -- whatever the program put on the stack
      cases m
      case plp => exact s.marked_pullStatus
      case rti => exact s.marked_pullStatus.of_p_eq rfl
      all_goals cases hm

theorem bits_enter {mask : UInt8} (h : Status.irqDisable &&& mask = 0) (s : Wired β)
    (vector : UInt16) : (s.enter vector).cpu.bits mask = s.cpu.bits mask :=
  bits_enterInterrupt h (s.mapCpu fun c => { c with interrupt := .none }) vector

theorem marked_enter (h : s.cpu.Marked) (vector : UInt16) : (s.enter vector).cpu.Marked where
  brk := (bits_enter (by decide) s vector).trans h.brk
  unused := (bits_enter (by decide) s vector).trans h.unused

theorem marked_readied (h : s.cpu.Marked) : s.readied.cpu.Marked := by
  show (s.serveInterrupt.fetch.2.advance s.next).cpu.Marked
  have hserve : s.serveInterrupt.cpu.Marked := by
    rw [serveInterrupt_eq]
    cases s.cpu.interrupt.vector? with
    | none => exact h
    | some vector => exact marked_enter h vector
  exact hserve.of_p_eq rfl

theorem marked_step (h : s.cpu.Marked) : s.step.2.cpu.Marked := by
  by_cases hstall : s.cpu.stall = 0
  · rw [(step_of_not_stalled hstall).2]
    have hrun : s.executed.cpu.Marked := marked_run (marked_readied h) _ _
    refine hrun.of_p_eq ?_
    show s.executed.chargeOamDma.cpu.p = s.executed.cpu.p
    unfold chargeOamDma
    dsimp only
    split <;> rfl
  · rw [step_of_stalled hstall]
    exact h.of_p_eq rfl

end Wired

/-! ## What is pushed -/

namespace Wired

variable {β : Type} [Bus β]

/-- How one step pushes the status byte. -/
structure PushesCopies (s : Wired β) : Prop where
  /-- A step that enters a handler saves the program counter and the status first. -/
  entry : ∀ vector, s.entered? = some vector → ∃ high low status rest,
    s.exchanges = .write (stackCell s.cpu.sp) high :: .write (stackCell (s.cpu.sp - 1)) low ::
      .write (stackCell (s.cpu.sp - 2)) status :: rest ∧ Status.IsCopy status s.cpu.p
  /-- The instruction finds the live byte as it was before the step; the entry into a handler has
  disabled interrupts. -/
  live : s.readied.cpu.p =
    if s.cpu.interrupt = .none then s.cpu.p else s.cpu.p ||| Status.irqDisable
  /-- The instruction that pushes the status does so at last. -/
  php : s.cpu.stall = 0 → s.next.opcode.mnemonic = .php → ∃ before status,
    s.exchanges = before ++ [.write (stackCell s.readied.cpu.sp) status] ∧
      Status.IsCopy status s.readied.cpu.p
  /-- The software interrupt saves the program counter and the status like any other. -/
  brk : s.cpu.stall = 0 → s.next.opcode.mnemonic = .brk →
    ∃ before high low status targetLow targetHigh,
      s.exchanges = before ++ [.write (stackCell s.readied.cpu.sp) high,
        .write (stackCell (s.readied.cpu.sp - 1)) low,
        .write (stackCell (s.readied.cpu.sp - 2)) status,
        .read irqVector targetLow, .read (irqVector + 1) targetHigh] ∧
      Status.IsCopy status s.readied.cpu.p

/-- The status byte that the next instruction finds. -/
theorem p_readied (s : Wired β) : s.readied.cpu.p =
    if s.cpu.interrupt = .none then s.cpu.p else s.cpu.p ||| Status.irqDisable := by
  have hready : s.readied.cpu.p = s.serveInterrupt.cpu.p := rfl
  have henter : ∀ vector, (s.enter vector).cpu.p = s.cpu.p ||| Status.irqDisable := fun _ => rfl
  rw [hready, serveInterrupt_eq]
  cases s.cpu.interrupt with
  | none => rfl
  | nmi => exact henter nmiVector
  | irq => exact henter irqVector

/-- **A step pushes copies of the status byte**, if the byte it finds is marked. -/
theorem pushesCopies {s : Wired β} (h : s.cpu.Marked) : PushesCopies s := by
  -- the same step on a bus that keeps its accesses
  let t : Wired (Transcribed β) := ⟨s.cpu, ⟨s.bus, []⟩⟩
  have halike : Wired.Alike (fun (b : β) (t : Transcribed β) => t.bus = b) s t := ⟨rfl, rfl⟩
  have hnext : s.next = t.next := next_alike transcribed_simulation halike
  have hready : s.readied.cpu = t.readied.cpu := (readied_alike transcribed_simulation halike).cpu
  have hmarked : t.readied.cpu.Marked := marked_readied h
  have hstep : s.cpu.stall = 0 → s.exchanges = t.executed.bus.exchanges := by
    intro hstall
    show t.step.2.bus.exchanges = _
    rw [(step_of_not_stalled (s := t) hstall).2, exchanges_executed]
  constructor
  case live => exact s.p_readied
  case entry =>
    intro vector hvector
    have hstall : s.cpu.stall = 0 := Decidable.byContradiction fun hne => by
      rw [entered?, if_neg hne] at hvector
      cases hvector
    rw [entered?, if_pos hstall] at hvector
    have hserve : t.serveInterrupt = t.enter vector := by
      rw [serveInterrupt_eq, show t.cpu.interrupt.vector? = some vector from hvector]
      rfl
    -- what follows the entry only adds to its accesses
    obtain ⟨targetLow, targetHigh, hsaved, -⟩ := t.exchanges_enter vector
    obtain ⟨reads, hreads, -⟩ := t.exchanges_readied
    obtain ⟨made, hmade, -⟩ :=
      t.readied.exchanges_run t.next.opcode.mnemonic.effect t.next
    have hlist := hstep hstall
    rw [executed, hmade, hreads, hserve, hsaved, List.append_assoc] at hlist
    exact ⟨_, _, _, _, hlist, h.isCopy⟩
  case php =>
    intro hstall hphp
    refine ⟨t.readied.bus.exchanges, _, ?_, hready ▸ hmarked.isCopy⟩
    rw [hstep hstall, executed, ← hnext, hphp, hready]
    rfl
  case brk =>
    intro hstall hbrk
    obtain ⟨targetLow, targetHigh, hsaved, -⟩ := t.readied.exchanges_saved irqVector
    have hlist := hstep hstall
    rw [executed, ← hnext, hbrk] at hlist
    rw [hready]
    exact ⟨_, _, _, _, targetLow, targetHigh, hlist.trans hsaved, hmarked.isCopy⟩

end Wired

/-! ## Reachable states -/

/-- The states a CPU gets into from power-on by steps, resets and interrupt requests. The bus is an
arbitrary one each time. -/
inductive Cpu.Reachable : Cpu → Prop
  | powerOn : Reachable .powerOn
  | step {c : Cpu} {β : Type} [Bus β] (h : Reachable c) (b : β) :
      Reachable (Wired.step ⟨c, b⟩).2.cpu
  | reset {c : Cpu} {β : Type} [Bus β] (h : Reachable c) (b : β) :
      Reachable (Wired.reset ⟨c, b⟩).cpu
  | triggerNmi {c : Cpu} (h : Reachable c) : Reachable c.triggerNmi
  | triggerIrq {c : Cpu} (h : Reachable c) : Reachable c.triggerIrq

/-- The marks stand at power-on, and nothing changes them. -/
theorem Cpu.Reachable.marked {c : Cpu} (h : c.Reachable) : c.Marked := by
  induction h with
  | powerOn => exact ⟨by decide, by decide⟩
  | step _ b ih => exact Wired.marked_step ih
  | reset _ b _ => exact ⟨(by decide : Status.reset &&& Status.brk = 0),
      (by decide : Status.reset &&& Status.unused = Status.unused)⟩
  | triggerNmi _ ih => exact ih.of_p_eq rfl
  | @triggerIrq c _ ih =>
      refine ih.of_p_eq ?_
      unfold Cpu.triggerIrq
      split <;> rfl

/-- **The status byte of every reachable state** has the break bit clear and the unused bit set, and
the steps from there push copies of it that have both set. -/
theorem status_of_reachable {c : Cpu} (h : c.Reachable) :
    c.Marked ∧ ∀ {β : Type} [Bus β] (b : β), Wired.PushesCopies ⟨c, b⟩ :=
  ⟨h.marked, fun _ => Wired.pushesCopies h.marked⟩

/-- A step that has entered a handler and pushed the status there. -/
theorem status_of_reachable_pushing :
    let c := (Wired.step ⟨Cpu.powerOn.triggerNmi, Flat.filled 0x08⟩).2.cpu
    c.Reachable ∧ c.Marked ∧ Wired.PushesCopies ⟨c, Flat.filled 0x00⟩ := by
  intro c
  have hreachable : c.Reachable := .step (.triggerNmi .powerOn) (Flat.filled 0x08)
  obtain ⟨hmarked, hpushes⟩ := status_of_reachable hreachable
  exact ⟨hreachable, hmarked, hpushes (Flat.filled 0x00)⟩

end Nes
