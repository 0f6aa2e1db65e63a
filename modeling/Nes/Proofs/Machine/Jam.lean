import Nes.Proofs.Machine.Actions
import Nes.Proofs.Machine.NmiService
import Nes.Proofs.Machine.Rom

/-!
# The jam

The instruction that stops the CPU has size 0, takes no operand and does nothing, so every step runs
it again. Nothing that the CPU, the dots or the board do gets it away from there
(`Machine.Jammed.step`) but one thing: an interrupt of the picture unit is entered between two runs
of the instruction as between any others. So the jam lasts until the first delivery, and for good if
interrupts are switched off (`Console.jam_until_delivery`).
-/

set_option autoImplicit false

namespace Nes

/-! ## The instruction -/

/-- The instruction stands where no operand is read. -/
theorem Opcode.mode_of_kil {b : UInt8} (h : (Opcode.ofByte b).mnemonic = .kil) :
    (Opcode.ofByte b).mode = .implied := by
  have hfields : ∀ (group : Fin 4) (column row : Fin 8),
      (Mnemonic.line group column)[row] = .kil → Mode.ofFields group column row = .implied := by
    decide
  exact hfields _ _ _ h

theorem Opcode.cycles_of_kil {b : UInt8} (h : (Opcode.ofByte b).mnemonic = .kil) :
    (Opcode.ofByte b).cycles = 2 := by
  rw [cycles, h, mode_of_kil h]
  rfl

namespace Wired

variable {β : Type} [Bus β] {s : Wired β}

/-- A step that runs the instruction stays where it is, or where the interrupt has led that is
entered before it. -/
theorem pc_runInstruction_of_kil (h : s.next.opcode.mnemonic = .kil) :
    s.runInstruction.cpu.pc = s.serveInterrupt.cpu.pc := by
  have hsize : s.next.opcode.size = 0 := s.next.opcode.size_eq_zero_iff.mpr h
  have hready : s.readied.cpu.pc = s.serveInterrupt.cpu.pc := by
    show s.serveInterrupt.cpu.pc + UInt16.ofNat s.next.opcode.size = s.serveInterrupt.cpu.pc
    rw [hsize]
    exact UInt16.add_zero _
  have hexecuted : s.executed = s.readied := by
    rw [executed, h]
    rfl
  show s.executed.chargeOamDma.cpu.pc = _
  rw [hexecuted, ← hready, chargeOamDma]
  split <;> rfl

/-- Without a transfer nothing is charged. -/
theorem chargeOamDma_eq_self (h : Bus.takeOamDma s.bus = (false, s.bus)) : s.chargeOamDma = s := by
  simp only [chargeOamDma, h, Bool.false_eq_true, if_false]

/-- With no interrupt waiting, the instruction costs two cycles and does nothing else. -/
theorem runInstruction_of_kil {byte : UInt8} (hinterrupt : s.cpu.interrupt = .none)
    (hread : Bus.read s.bus s.cpu.pc = (byte, s.bus))
    (hdma : Bus.takeOamDma s.bus = (false, s.bus))
    (h : (Opcode.ofByte byte).mnemonic = .kil) :
    s.runInstruction = s.mapCpu fun c => { c with cycles := c.cycles + 2 } := by
  have hserve : s.serveInterrupt = s := by
    rw [serveInterrupt_eq, hinterrupt]
    rfl
  have hbyte : s.read s.cpu.pc = (byte, s) := by
    rw [read, hread]
  have hfetch : s.fetch = (⟨byte, ⟨0, false⟩, s.cpu.pc⟩, s) := by
    have hsize : (Opcode.ofByte byte).size = 0 := (Opcode.size_eq_zero_iff _).mpr h
    have hnext : s.cpu.pc + UInt16.ofNat 0 = s.cpu.pc := UInt16.add_zero _
    rw [fetch, hbyte]
    dsimp only
    rw [Opcode.mode_of_kil h, hsize, hnext]
    rfl
  have hcycles : Instruction.cycles ⟨byte, ⟨0, false⟩, s.cpu.pc⟩ = 2 := Opcode.cycles_of_kil h
  have hready : s.advance ⟨byte, ⟨0, false⟩, s.cpu.pc⟩ =
      s.mapCpu fun c => { c with cycles := c.cycles + 2 } := by
    rw [advance, hcycles]
    rfl
  have hidle : (Instruction.opcode ⟨byte, ⟨0, false⟩, s.cpu.pc⟩).mnemonic.effect = .idle := by
    rw [Instruction.opcode, h]
    rfl
  rw [runInstruction, hserve, hfetch]
  dsimp only
  rw [hidle, hready]
  exact chargeOamDma_eq_self hdma

end Wired

/-! ## Jammed consoles -/

/-- The byte at an address of work RAM or of the cartridge. -/
def byteAt (ram : Ram) (board : UxRom) (addr : UInt16) : UInt8 :=
  if addr < 0x2000 then ram.read addr else board.cpuByte addr

/-- Reading it changes nothing. -/
theorem CpuMemory.read_eq_byteAt {c : CpuMemory UxRom} {addr : UInt16}
    (h : addr < 0x2000 ∨ 0x6000 ≤ addr) : c.read addr = (byteAt c.ram c.board addr, c) := by
  unfold read byteAt
  by_cases hlow : addr < 0x2000
  · rw [if_pos hlow, if_pos hlow]
  · have hhigh : 0x6000 ≤ addr := h.resolve_left hlow
    have hnot : ∀ bound : UInt16, bound ≤ 0x6000 → ¬ addr < bound := fun bound hb =>
      UInt16.not_lt.mpr (UInt16.le_trans hb hhigh)
    rw [if_neg hlow, if_neg hlow, if_neg (hnot 0x4000 (by decide)), if_neg (hnot 0x6000 (by decide))]
    rfl

namespace Machine

/-- The CPU has nothing to wait for and stands on the instruction that stops it, in work RAM, save
memory or program memory. -/
structure Jammed (m : Console) : Prop where
  stall : m.cpu.stall = 0
  interrupt : m.cpu.interrupt = .none
  place : m.cpu.pc < 0x2000 ∨ 0x6000 ≤ m.cpu.pc
  opcode : (Opcode.ofByte (byteAt m.ram m.board m.cpu.pc)).mnemonic = .kil

/-- Registers, work RAM and all that is on the board, save memory and the selected bank included, are
the same. -/
structure Kept (m m' : Console) : Prop where
  registers : m'.cpu =
    { m.cpu with cycles := m'.cpu.cycles, interrupt := m'.cpu.interrupt }
  ram : m'.ram = m.ram
  board : m'.board = m.board

theorem Kept.refl (m : Console) : Kept m m := ⟨rfl, rfl, rfl⟩

theorem Kept.trans {m₁ m₂ m₃ : Console} (h : Kept m₁ m₂) (h' : Kept m₂ m₃) : Kept m₁ m₃ := by
  refine ⟨?_, h'.ram.trans h.ram, h'.board.trans h.board⟩
  rw [h'.registers, h.registers]

/-- A console in which the same is kept and no interrupt waits is jammed too. -/
theorem Kept.jammed {m m' : Console} (h : Kept m m') (hm : m.Jammed)
    (hinterrupt : m'.cpu.interrupt = .none) : m'.Jammed := by
  have hpc : m'.cpu.pc = m.cpu.pc := by rw [h.registers]
  refine ⟨?_, hinterrupt, ?_, ?_⟩
  · rw [h.registers]
    exact hm.stall
  · rw [hpc]
    exact hm.place
  · rw [hpc, h.ram, h.board]
    exact hm.opcode

/-! ## Dots -/

/-- The board of a console does not use its interrupt line. -/
theorem cpu_dot_console (m : Console) :
    m.dot.cpu = if m.takesNmi then m.cpu.triggerNmi else m.cpu := by
  rw [cpu_dot]
  rfl

theorem kept_dots (n : Nat) (m : Console) : Kept m (dots n m) := by
  induction n generalizing m with
  | zero => exact .refl m
  | succ n ih =>
      refine .trans ⟨?_, m.ram_dot, m.board_dot_console⟩ (ih m.dot)
      rw [cpu_dot_console]
      split <;> rfl

/-- An interrupt waits after a number of dots if it has been delivered in them. -/
theorem interrupt_dots (n : Nat) (m : Console) :
    (dots n m).cpu.interrupt = if dotDeliveries n m = 0 then m.cpu.interrupt else .nmi := by
  induction n generalizing m with
  | zero => rfl
  | succ n ih =>
      have hdot : m.dot.cpu.interrupt = if m.takesNmi then .nmi else m.cpu.interrupt := by
        rw [cpu_dot_console, apply_ite Cpu.interrupt]
        rfl
      rw [dots, ih, hdot, dotDeliveries]
      cases m.takesNmi with
      | true => simp
      | false => simp

/-! ## Steps -/

/-- A step of a jammed CPU counts two cycles. -/
theorem Jammed.stepCpu {m : Console} (h : m.Jammed) :
    ∃ journal, m.stepCpu =
      (2, { m with cpu := { m.cpu with cycles := m.cpu.cycles + 2 }, journal := journal }) := by
  obtain ⟨journal, hj⟩ := m.traceInstruction_shape
  have hrun : m.traceInstruction.wired.runInstruction =
      m.traceInstruction.wired.mapCpu fun c => { c with cycles := c.cycles + 2 } := by
    rw [hj]
    exact Wired.runInstruction_of_kil h.interrupt (CpuMemory.read_eq_byteAt h.place) rfl h.opcode
  have hstall : m.traceInstruction.wired.cpu.stall = 0 := by
    rw [hj]
    exact h.stall
  refine ⟨journal, ?_⟩
  rw [Machine.stepCpu, Wired.step, if_pos hstall, hrun, hj]
  refine Prod.ext ?_ rfl
  exact Nat.add_sub_cancel_left m.cpu.cycles 2

theorem Jammed.kept_stepCpu {m : Console} (h : m.Jammed) : Kept m m.stepCpu.2 := by
  obtain ⟨_, hstep⟩ := h.stepCpu
  rw [hstep]
  exact ⟨rfl, rfl, rfl⟩

/-- A step keeps everything, and the jam if nothing is delivered in it. An interrupt that is
delivered in it waits afterwards. -/
theorem Jammed.step {m : Console} (h : m.Jammed) :
    Kept m m.step.2 ∧
      m.step.2.cpu.interrupt =
        if dotDeliveries m.stepDots m.stepCpu.2 = 0 then .none else .nmi := by
  have hnone : m.stepCpu.2.cpu.interrupt = .none := by
    obtain ⟨_, hstep⟩ := h.stepCpu
    rw [hstep]
    exact h.interrupt
  refine ⟨h.kept_stepCpu.trans (kept_dots _ _), ?_⟩
  rw [← hnone]
  exact interrupt_dots _ _

theorem afterSteps_one {μ : Type} [Board μ] (m : Machine μ) : m.afterSteps 1 = m.step.2 := rfl

theorem deliveries_add {μ : Type} [Board μ] (n k : Nat) (m : Machine μ) :
    deliveries (n + k) m = deliveries n m + deliveries k (m.afterSteps n) := by
  induction n generalizing m with
  | zero =>
      rw [Nat.zero_add, deliveries, Nat.zero_add]
      rfl
  | succ n ih => rw [Nat.succ_add, deliveries, deliveries, ih, afterSteps_succ, Nat.add_assoc]

/-- The jam lasts as long as nothing is delivered. -/
theorem Jammed.afterSteps {m : Console} (h : m.Jammed) {n : Nat} (hn : deliveries n m = 0) :
    Kept m (m.afterSteps n) ∧ (m.afterSteps n).Jammed := by
  induction n generalizing m with
  | zero => exact ⟨.refl m, h⟩
  | succ n ih =>
      obtain ⟨hfirst, hrest⟩ := Nat.add_eq_zero_iff.mp hn
      obtain ⟨hkept, hinterrupt⟩ := h.step
      rw [if_pos hfirst] at hinterrupt
      obtain ⟨hkept', hjammed⟩ := ih (hkept.jammed h hinterrupt) hrest
      rw [afterSteps_succ]
      exact ⟨hkept.trans hkept', hjammed⟩

/-- The step with the first delivery keeps everything too, and the next one enters the handler. -/
theorem Jammed.entered?_of_delivery {m : Console} (h : m.Jammed) {n : Nat}
    (hn : deliveries n m = 0) (hn' : deliveries (n + 1) m ≠ 0) :
    Kept m (m.afterSteps (n + 1)) ∧ (m.afterSteps (n + 1)).entered? = some nmiVector := by
  obtain ⟨hkept, hjammed⟩ := h.afterSteps hn
  obtain ⟨hstep, hinterrupt⟩ := hjammed.step
  -- it has not been delivered before, so it is in the dots of this step
  have hdelivered : dotDeliveries (m.afterSteps n).stepDots (m.afterSteps n).stepCpu.2 ≠ 0 := by
    rw [deliveries_add, hn] at hn'
    simpa [deliveries] using hn'
  rw [if_neg hdelivered] at hinterrupt
  rw [afterSteps_add]
  refine ⟨hkept.trans hstep, (entered?_eq_nmiVector_iff _).mpr ⟨?_, hinterrupt⟩⟩
  show (m.afterSteps n).step.2.cpu.stall = 0
  rw [hstep.registers]
  exact hjammed.stall

/-! ## Interrupts that are switched off -/

/-- Interrupts are switched off, and none is left over. -/
structure Silent (p : Ppu) : Prop where
  output : p.nmi.output = false
  taken : p.nmiPending = false

theorem Silent.pending_step {p : Ppu} (h : Silent p) (board : UxRom) :
    (p.step board).nmiPending = false := by
  rw [Ppu.pending_step, h.taken, NmiLatch.line, h.output]
  simp

theorem Silent.dotDeliveries {m : Console} (h : Silent m.ppu) (n : Nat) :
    dotDeliveries n m = 0 ∧ Silent (dots n m).ppu := by
  induction n generalizing m with
  | zero => exact ⟨rfl, h⟩
  | succ n ih =>
      have htakes : m.takesNmi = false := h.pending_step m.board
      have hdot : Silent m.dot.ppu := by
        have houtput : (m.ppu.step m.board).nmi.output = false := by
          have hset : ∀ on, (m.ppu.nmi.tick.setOccurred on).output = m.ppu.nmi.tick.output :=
            fun _ => rfl
          rw [Ppu.nmi_step, apply_ite NmiLatch.output, apply_ite NmiLatch.output, hset, hset,
            ite_self, ite_self, NmiLatch.output_tick, h.output]
        rw [ppu_dot]
        exact ⟨houtput, rfl⟩
      obtain ⟨hrest, hsilent⟩ := ih hdot
      rw [Machine.dotDeliveries, htakes, hrest]
      exact ⟨rfl, hsilent⟩

theorem Jammed.step_of_silent {m : Console} (h : m.Jammed) (hs : Silent m.ppu) :
    dotDeliveries m.stepDots m.stepCpu.2 = 0 ∧ m.step.2.Jammed ∧ Silent m.step.2.ppu := by
  have hppu : m.stepCpu.2.ppu = m.ppu := by
    obtain ⟨_, hstep⟩ := h.stepCpu
    rw [hstep]
  obtain ⟨hnone, hsilent⟩ := Silent.dotDeliveries (m := m.stepCpu.2) (hppu ▸ hs) m.stepDots
  obtain ⟨hkept, hinterrupt⟩ := h.step
  rw [if_pos hnone] at hinterrupt
  exact ⟨hnone, hkept.jammed h hinterrupt, hsilent⟩

/-- With interrupts switched off nothing is ever delivered to a jammed CPU. -/
theorem Jammed.deliveries_of_silent {m : Console} (h : m.Jammed) (hs : Silent m.ppu) (n : Nat) :
    deliveries n m = 0 := by
  induction n generalizing m with
  | zero => rfl
  | succ n ih =>
      obtain ⟨hnone, hjammed, hsilent⟩ := h.step_of_silent hs
      rw [deliveries, hnone, ih hjammed hsilent]

/-! ## Consoles that a host has brought there -/

/-- The latch follows the control register, and no interrupt is left over: this holds whenever a host
looks at a machine. -/
structure Attended (p : Ppu) : Prop where
  latched : p.Latched
  taken : p.nmiPending = false

theorem Attended.run {μ : Type} [Board μ] {p : Ppu} (h : Attended p) {es : List (Ppu.Event μ)}
    (hes : ∀ e ∈ es, e.isAccess) : Attended (Ppu.run es p) where
  latched := Ppu.run_invariant h.latched fun e _ _ hq => Ppu.latched_after hq e
  taken := (latch_run_of_isAccess hes h.latched.previous h.taken).2

theorem Attended.act {μ : Type} [Board μ] {m : Machine μ} (h : Attended m.ppu) (a : Action) :
    Attended (m.act a).ppu := by
  cases a with
  | stepCpu =>
      show Attended m.stepCpu.2.ppu
      rw [ppu_stepCpu]
      exact h.run m.isAccess_cpuEvents
  | dot =>
      show Attended m.dot.ppu
      rw [ppu_dot]
      exact ⟨Ppu.latched_after (Ppu.latched_after h.latched (.dot m.board)) (.takeNmi : Ppu.Event μ),
        rfl⟩
  | read addr =>
      show Attended (m.memory.read addr).2.ppu
      rw [CpuMemory.ppu_read]
      exact h.run (m.memory.isAccess_readEvents addr)
  | write addr value =>
      show Attended (m.memory.write addr value).ppu
      rw [CpuMemory.ppu_write]
      exact h.run (m.memory.isAccess_writeEvents addr value)
  | reset =>
      show Attended m.reset.ppu
      rw [ppu_reset]
      exact h

theorem Attended.silent {p : Ppu} (h : Attended p) (hctrl : p.ctrl &&& 0x80 = 0) : Silent p := by
  refine ⟨?_, h.taken⟩
  rw [h.latched.output, hctrl]
  rfl

end Machine

namespace Console

open Machine

/-- **A jammed CPU stays jammed until an interrupt of the picture unit is delivered.** From any state
that a host can bring a console to, and for any number of steps: while nothing is delivered, the
registers, work RAM, save memory and the selected bank stay as they are. Nothing is ever delivered if
interrupts are switched off. With the first delivery everything is still as it was, and the step
after it enters the handler. -/
theorem jam_until_delivery {c : Cartridge} {journal : Journal} {m₀ : Console}
    (hm : Console.ofCartridge c journal = .ok m₀) (ops : List HostOp)
    (h : (m₀.performAll ops).Jammed) (n : Nat) :
    let m := m₀.performAll ops
    (deliveries n m = 0 → Kept m (m.afterSteps n) ∧ (m.afterSteps n).Jammed) ∧
      (m.ppu.ctrl &&& 0x80 = 0 → deliveries n m = 0) ∧
      (deliveries n m = 0 → deliveries (n + 1) m ≠ 0 →
        Kept m (m.afterSteps (n + 1)) ∧ (m.afterSteps (n + 1)).entered? = some nmiVector) := by
  intro m
  have hattended : Attended m.ppu := by
    obtain ⟨as, has⟩ := m₀.exists_actions_performAll ops
    have hstart : Attended m₀.ppu := by
      rw [Console.ppu_ofCartridge hm]
      exact ⟨Ppu.latched_powerOn, rfl⟩
    show Attended (m₀.performAll ops).ppu
    rw [has]
    exact actAll_invariant (P := fun m => Attended m.ppu) hstart (fun _ a hm => hm.act a) as
  exact ⟨h.afterSteps, fun hctrl => h.deliveries_of_silent (hattended.silent hctrl) n,
    h.entered?_of_delivery⟩

/-! ## A bank of jams -/

/-- The program that stops wherever it is started. A reset leads to 8002, an interrupt of the picture
unit to 9002. -/
def jamProgram (i : Fin prgBankSize) : UInt8 :=
  if i.val = 0x3FFB then 0x90 else if i.val = 0x3FFD then 0x80 else 0x02

theorem jammed_jamProgram {m : Console} (hprg : m.board.cartridge.prg = Array.ofFn jamProgram)
    (hstall : m.cpu.stall = 0) (hinterrupt : m.cpu.interrupt = .none)
    (hpc : m.cpu.pc = 0x8002) : m.Jammed := by
  refine ⟨hstall, hinterrupt, .inr (by rw [hpc]; decide), ?_⟩
  have hbyte : byteAt m.ram m.board m.cpu.pc = 0x02 := by
    rw [hpc, byteAt, if_neg (by decide), UxRom.cpuByte_of_prg hprg (by decide)]
    rfl
  rw [hbyte]
  decide

/-- The console of this program is jammed from the start. -/
theorem exists_jammed_jamProgram :
    ∃ m, Console.ofCartridge (.ofBank jamProgram #[]) {} = .ok m ∧ m.Jammed ∧
      m.ppu = Ppu.powerOn ∧ m.cpu.pc = 0x8002 ∧
      m.board.cartridge.prg = Array.ofFn jamProgram := by
  obtain ⟨m, hm, hboard, hpc⟩ := Console.ofCartridge_ofBank jamProgram #[] {}
  have htiming := timing_ofCartridge hm
  have hprg : m.board.cartridge.prg = Array.ofFn jamProgram := by
    rw [hboard, Cartridge.prg_ofBank]
  exact ⟨m, hm, jammed_jamProgram hprg (congrArg Cpu.Timing.stall htiming)
    (congrArg Cpu.Timing.interrupt htiming) hpc, Console.ppu_ofCartridge hm, hpc, hprg⟩

/-- With interrupts switched off, as at power-on, the console never leaves its first instruction. -/
theorem jam_until_delivery_jamProgram :
    ∃ m, Console.ofCartridge (.ofBank jamProgram #[]) {} = .ok m ∧ m.Jammed ∧
      ∀ n, Kept m (m.afterSteps n) := by
  obtain ⟨m, hm, hjammed, hppu, -, -⟩ := exists_jammed_jamProgram
  refine ⟨m, hm, hjammed, fun n => ?_⟩
  obtain ⟨hlasts, hnever, -⟩ := jam_until_delivery hm [] hjammed n
  have hctrl : m.ppu.ctrl &&& 0x80 = 0 := by
    rw [hppu]
    rfl
  exact (hlasts (hnever hctrl)).1

/-- Dots without rendering: the interrupts that are passed on in them, and what becomes of the beam
and the interrupt line. -/
def darkDots : Nat → Beam × NmiLatch → Nat × Beam × NmiLatch
  | 0, s => (0, s)
  | n + 1, s =>
      let t := Ppu.blankDot s
      let r := darkDots n (t.1, { t.2 with pending := false })
      ((if t.2.pending then 1 else 0) + r.1, r.2)

theorem darkDots_eq (n : Nat) {m : Console} (h : m.ppu.mask = 0) :
    darkDots n (m.ppu.beam, m.ppu.nmi) =
        (dotDeliveries n m, (dots n m).ppu.beam, (dots n m).ppu.nmi) ∧
      (dots n m).ppu.mask = 0 := by
  induction n generalizing m with
  | zero => exact ⟨rfl, h⟩
  | succ n ih =>
      have hdark : m.ppu.rendering = false := by
        rw [Ppu.rendering, h]
        decide
      have hblank : Ppu.blankDot (m.ppu.beam, m.ppu.nmi) =
          ((m.ppu.step m.board).beam, (m.ppu.step m.board).nmi) := by
        rw [Ppu.beam_step, Ppu.nmi_step, hdark, Ppu.blankDot]
      have hmask : m.dot.ppu.mask = 0 := by
        rw [ppu_dot]
        exact (Ppu.mask_step m.ppu m.board).trans h
      obtain ⟨hrest, hmask'⟩ := ih hmask
      rw [ppu_dot] at hrest
      refine ⟨?_, hmask'⟩
      rw [darkDots, hblank]
      dsimp only
      rw [show ((m.ppu.step m.board).beam, { (m.ppu.step m.board).nmi with pending := false }) =
        ((m.ppu.step m.board).takeNmi.beam, (m.ppu.step m.board).takeNmi.nmi) from rfl, hrest]
      rfl

/-- A step of a jammed console without rendering is six such dots. -/
theorem darkDots_step {m : Console} (h : m.Jammed) (hmask : m.ppu.mask = 0)
    {s : Beam × NmiLatch} (hs : (m.ppu.beam, m.ppu.nmi) = s) :
    deliveries 1 m = (darkDots 6 s).1 ∧
      ((m.afterSteps 1).ppu.beam, (m.afterSteps 1).ppu.nmi) = (darkDots 6 s).2 ∧
      (m.afterSteps 1).ppu.mask = 0 := by
  obtain ⟨journal, hstep⟩ := h.stepCpu
  have hppu : m.stepCpu.2.ppu = m.ppu := by rw [hstep]
  have hdots : m.stepDots = 6 := by
    rw [stepDots, hstep]
    rfl
  have hend : m.afterSteps 1 = dots 6 m.stepCpu.2 := by
    rw [afterSteps_one, ← hdots]
    rfl
  obtain ⟨hdark, hmask'⟩ := darkDots_eq 6 (m := m.stepCpu.2) (hppu ▸ hmask)
  rw [hppu, hs] at hdark
  rw [hend, hdark, deliveries, deliveries, Nat.add_zero, hdots]
  exact ⟨rfl, rfl, hmask'⟩

/-- The interrupt leads to another place of the program. -/
theorem pc_serveInterrupt_jamProgram {s : Wired (CpuMemory UxRom)}
    (hprg : s.bus.board.cartridge.prg = Array.ofFn jamProgram)
    (hinterrupt : s.cpu.interrupt = .nmi) :
    s.serveInterrupt.cpu.pc = 0x9002 ∧ s.next.opcode.mnemonic = .kil := by
  have hserve : s.serveInterrupt = s.enter nmiVector := by
    rw [Wired.serveInterrupt_eq, hinterrupt]
    rfl
  -- what is pushed may go anywhere but into the program
  obtain ⟨b, hb, hpc, hbus⟩ : ∃ b : CpuMemory UxRom,
      b.board.cartridge.prg = Array.ofFn jamProgram ∧
        (s.enter nmiVector).cpu.pc = (Bus.readWord b nmiVector).1 ∧
        (s.enter nmiVector).bus = (Bus.readWord b nmiVector).2 := by
    refine ⟨((s.bus.write _ _).write _ _).write _ _, ?_, rfl, rfl⟩
    rw [(CpuMemory.stored_write _ _ _).prg, (CpuMemory.stored_write _ _ _).prg,
      (CpuMemory.stored_write _ _ _).prg, hprg]
  have hword : Bus.readWord b nmiVector = (0x9002, b) := by
    have hlow : b.read nmiVector = (0x02, b) := UxRom.read_of_prg hb (by decide)
    have hhigh : b.read (nmiVector + 1) = (0x90, b) := UxRom.read_of_prg hb (by decide)
    show (wordOf (b.read nmiVector).1 ((b.read nmiVector).2.read (nmiVector + 1)).1,
      ((b.read nmiVector).2.read (nmiVector + 1)).2) = (0x9002, b)
    rw [hlow, hhigh]
    exact Prod.ext (by decide : wordOf 0x02 0x90 = 0x9002) rfl
  rw [hword] at hpc hbus
  have hread : b.read 0x9002 = (0x02, b) := UxRom.read_of_prg hb (by decide)
  refine ⟨by rw [hserve, hpc], ?_⟩
  show (Opcode.ofByte (s.serveInterrupt.bus.read s.serveInterrupt.cpu.pc).1).mnemonic = .kil
  rw [hserve, hpc, hbus, hread]
  show (Opcode.ofByte 0x02).mnemonic = .kil
  decide

/-- The step that enters the interrupt is jammed there. -/
theorem pc_step_jamProgram {m : Console} (hprg : m.board.cartridge.prg = Array.ofFn jamProgram)
    (h : m.entered? = some nmiVector) : m.step.2.cpu.pc = 0x9002 := by
  obtain ⟨hstall, hinterrupt⟩ := m.entered?_eq_nmiVector_iff.mp h
  obtain ⟨_, hj⟩ := m.traceInstruction_shape
  obtain ⟨hpc, hkil⟩ := pc_serveInterrupt_jamProgram (s := m.traceInstruction.wired)
    (by rw [hj]; exact hprg) (by rw [hj]; exact hinterrupt)
  have hstep : m.stepCpu.2.cpu.pc = 0x9002 := by
    show m.traceInstruction.wired.step.2.cpu.pc = 0x9002
    rw [(Wired.step_of_not_stalled (by rw [hj]; exact hstall)).2,
      Wired.pc_runInstruction_of_kil hkil, hpc]
  rw [← hstep]
  show (dots m.stepDots m.stepCpu.2).cpu.pc = m.stepCpu.2.cpu.pc
  rw [(kept_dots m.stepDots m.stepCpu.2).registers]

/-- **The jam ends.** A host switches interrupts on. The first vertical blank comes two dots after
power-on, its interrupt is delivered in the third step, and the fourth step leaves the jam. -/
theorem pc_jamProgram_ne :
    ∃ m, Console.ofCartridge (.ofBank jamProgram #[]) {} = .ok m ∧
      (m.performAll [.write 0x2000 0x80]).Jammed ∧
      ((m.performAll [.write 0x2000 0x80]).afterSteps 4).cpu.pc ≠
        (m.performAll [.write 0x2000 0x80]).cpu.pc := by
  obtain ⟨m₀, hm, hjammed₀, hppu₀, hpc₀, hprg₀⟩ := exists_jammed_jamProgram
  obtain ⟨m, hm'⟩ : ∃ m, m = m₀.write 0x2000 0x80 := ⟨_, rfl⟩
  -- the write is one to the picture unit alone
  have hcpu : m.cpu = m₀.cpu := by
    rw [hm']
    rfl
  have hkept : Kept m₀ m := by
    rw [hm']
    exact ⟨rfl, rfl, rfl⟩
  have hjammed : m.Jammed := hkept.jammed hjammed₀ (hcpu ▸ hjammed₀.interrupt)
  have hpc : m.cpu.pc = 0x8002 := hcpu ▸ hpc₀
  have hprg : m.board.cartridge.prg = Array.ofFn jamProgram := hkept.board ▸ hprg₀
  have hppu : m.ppu = (Ppu.powerOn.writeRegister m₀.board 0x2000 0x80).1 := by
    rw [hm', ← hppu₀]
    rfl
  have hstart : (m.ppu.beam, m.ppu.nmi) = (({} : Beam), ({ output := true } : NmiLatch)) := by
    rw [hppu]
    rfl
  have hmask : m.ppu.mask = 0 := by
    rw [hppu]
    rfl
  -- two steps without a delivery, and the one that delivers the interrupt
  obtain ⟨hnone₁, hs₁, hmask₁⟩ := darkDots_step hjammed hmask hstart
  obtain ⟨-, hjammed₁⟩ := hjammed.afterSteps (n := 1) (hnone₁.trans (by decide))
  obtain ⟨hnone₂, hs₂, hmask₂⟩ := darkDots_step hjammed₁ hmask₁ hs₁
  obtain ⟨-, hjammed₂⟩ := hjammed₁.afterSteps (n := 1) (hnone₂.trans (by decide))
  obtain ⟨hsome, -, -⟩ := darkDots_step hjammed₂ hmask₂ hs₂
  have htwo : deliveries 2 m = 0 := by
    rw [deliveries_add 1 1, hnone₁, hnone₂]
    decide
  have hthree : deliveries 3 m ≠ 0 := by
    rw [deliveries_add 2 1, htwo, Nat.zero_add, afterSteps_add 1 1, hsome]
    decide
  obtain ⟨hkept', hentry⟩ := hjammed.entered?_of_delivery htwo hthree
  have hpc₄ : (m.afterSteps 4).cpu.pc = 0x9002 := by
    rw [afterSteps_add 3 1, afterSteps_one]
    exact pc_step_jamProgram (by rw [hkept'.board, hprg]) hentry
  have hperform : m₀.performAll [.write 0x2000 0x80] = m := hm'.symm
  have hleft : (m.afterSteps 4).cpu.pc ≠ m.cpu.pc := by
    rw [hpc₄, hpc]
    decide
  rw [← hperform] at hjammed hleft
  exact ⟨m₀, hm, hjammed, hleft⟩

end Console

end Nes
