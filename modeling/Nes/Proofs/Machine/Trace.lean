import Nes.Machine.Step
import Nes.Proofs.Cpu.Simulation
import Nes.Proofs.Ppu.Run

/-!
# What a run of the machine does to the picture unit

The picture unit of a machine sees the accesses of the CPU to its registers, the pages that are
copied into sprite memory, and the dots. `Machine.events` lists these events for a number of steps,
in their order; `Machine.ppu_steps` says that they are the whole story: the picture unit of a
machine goes through the run of its events. So what holds of all runs of the picture unit holds of
the picture unit of every machine.
-/

set_option autoImplicit false

namespace Nes

variable {μ : Type} [Board μ]

/-! ## Events of accesses -/

namespace CpuMemory

/-- What a read at an address does to the picture unit. -/
def readEvents (m : CpuMemory μ) (addr : UInt16) : List (Ppu.Event μ) :=
  if addr < 0x2000 then []
  else if addr < 0x4000 then [.read m.board (registerAddress addr)]
  else []

/-- What reading consecutive addresses does to the picture unit. -/
def rangeEvents : Nat → CpuMemory μ → UInt16 → List (Ppu.Event μ)
  | 0, _, _ => []
  | n + 1, m, addr => m.readEvents addr ++ rangeEvents n (m.read addr).2 (addr + 1)

/-- What a write at an address does to the picture unit: a write to a register, or a copy of a page,
which is read byte by byte before it is stored. -/
def writeEvents (m : CpuMemory μ) (addr : UInt16) (value : UInt8) : List (Ppu.Event μ) :=
  if addr < 0x2000 then []
  else if addr < 0x4000 then [.write m.board (registerAddress addr) value]
  else if addr = oamDmaAddress then
    rangeEvents dmaTransferSize m (pageStart value) ++ [.storePage value (readPage read m value).1]
  else []

theorem ppu_read (m : CpuMemory μ) (addr : UInt16) :
    (m.read addr).2.ppu = Ppu.run (m.readEvents addr) m.ppu := by
  unfold read readEvents
  split
  · rfl
  · split
    · rfl
    · split <;> rfl

theorem ppu_readRange (n : Nat) (m : CpuMemory μ) (addr : UInt16) (acc : Array UInt8) :
    (readRange read n m addr acc).2.ppu = Ppu.run (rangeEvents n m addr) m.ppu := by
  induction n generalizing m addr acc with
  | zero => rfl
  | succ n ih => rw [readRange, ih, rangeEvents, Ppu.run_append, ppu_read]

omit [Board μ] in
/-- A notice changes the journal only. -/
theorem note_shape (m : CpuMemory μ) (level : Level) (text : Unit → String) :
    ∃ journal, m.note level text = { m with journal := journal } := by
  unfold note
  split
  · exact ⟨m.journal, rfl⟩
  · exact ⟨_, rfl⟩

omit [Board μ] in
@[simp] theorem ppu_note (m : CpuMemory μ) (level : Level) (text : Unit → String) :
    (m.note level text).ppu = m.ppu := by
  obtain ⟨_, h⟩ := m.note_shape level text
  rw [h]

/-- A copied page is read first and stored then. A report and a notice are left. -/
theorem copyPage_shape (m : CpuMemory μ) (page : UInt8) :
    ∃ journal, m.copyPage page =
      { (readPage read m page).2 with
        ppu := (readPage read m page).2.ppu.writeOamPage page (readPage read m page).1
        oamDma := true
        journal := journal } := by
  rw [copyPage]
  generalize readPage read m page = r
  exact note_shape _ _ _

theorem write_oamDmaAddress (m : CpuMemory μ) (page : UInt8) :
    m.write oamDmaAddress page = m.copyPage page := by
  rw [write, if_neg (by decide), if_neg (by decide), if_pos rfl]

theorem ppu_copyPage (m : CpuMemory μ) (page : UInt8) :
    (m.copyPage page).ppu =
      Ppu.run (rangeEvents dmaTransferSize m (pageStart page) ++
        [.storePage page (readPage read m page).1]) m.ppu := by
  have hread : (readPage read m page).2.ppu =
      Ppu.run (rangeEvents dmaTransferSize m (pageStart page)) m.ppu :=
    ppu_readRange dmaTransferSize m (pageStart page) #[]
  obtain ⟨_, hcopy⟩ := m.copyPage_shape page
  rw [Ppu.run_concat, ← hread, hcopy, Ppu.after]

theorem ppu_write (m : CpuMemory μ) (addr : UInt16) (value : UInt8) :
    (m.write addr value).ppu = Ppu.run (m.writeEvents addr value) m.ppu := by
  unfold write writeEvents
  split
  · rfl
  · split
    · rfl
    · split
      · exact m.ppu_copyPage value
      · split
        · exact m.ppu_note _ _
        · rfl

/-! The CPU makes accesses only: no dots pass and nothing is taken or reset. -/

omit [Board μ] in
theorem isAccess_readEvents (m : CpuMemory μ) (addr : UInt16) :
    ∀ e ∈ m.readEvents addr, e.isAccess := by
  unfold readEvents
  split
  · simp
  · split <;> simp [Ppu.Event.isAccess]

theorem isAccess_rangeEvents (n : Nat) (m : CpuMemory μ) (addr : UInt16) :
    ∀ e ∈ rangeEvents n m addr, e.isAccess := by
  induction n generalizing m addr with
  | zero => simp [rangeEvents]
  | succ n ih =>
      intro e he
      rcases List.mem_append.mp he with he | he
      · exact m.isAccess_readEvents addr e he
      · exact ih _ _ e he

theorem isAccess_writeEvents (m : CpuMemory μ) (addr : UInt16) (value : UInt8) :
    ∀ e ∈ m.writeEvents addr value, e.isAccess := by
  unfold writeEvents
  split
  · simp
  · split
    · simp [Ppu.Event.isAccess]
    · split
      · intro e he
        rcases List.mem_append.mp he with he | he
        · exact isAccess_rangeEvents _ m _ e he
        · rw [List.mem_singleton.mp he, Ppu.Event.isAccess]
      · simp

end CpuMemory

/-- What the CPU reaches, with the list of the events that its accesses have made. -/
structure Traced (μ : Type) where
  memory : CpuMemory μ
  events : List (Ppu.Event μ) := []

instance : Bus (Traced μ) where
  read t addr :=
    let r := t.memory.read addr
    (r.1, ⟨r.2, t.events ++ t.memory.readEvents addr⟩)
  write t addr value :=
    ⟨t.memory.write addr value, t.events ++ t.memory.writeEvents addr value⟩
  takeOamDma t :=
    let r := Bus.takeOamDma t.memory
    (r.1, { t with memory := r.2 })

namespace Traced

/-- The events of a traced memory lead from a first picture unit to that of the memory, and are
accesses only. -/
structure Follows (first : Ppu) (m : CpuMemory μ) (t : Traced μ) : Prop where
  memory : t.memory = m
  ppu : m.ppu = Ppu.run t.events first
  accesses : ∀ e ∈ t.events, e.isAccess

theorem follows_simulation (first : Ppu) : Bus.Simulation (Follows (μ := μ) first) where
  read {m t} h addr := by
    obtain ⟨rfl, hp, ha⟩ := h
    refine ⟨rfl, rfl, ?_, ?_⟩
    · show (t.memory.read addr).2.ppu = Ppu.run (t.events ++ t.memory.readEvents addr) first
      rw [Ppu.run_append, ← hp, CpuMemory.ppu_read]
    · intro e he
      rcases List.mem_append.mp he with he | he
      · exact ha e he
      · exact CpuMemory.isAccess_readEvents t.memory addr e he
  write {m t} h addr value := by
    obtain ⟨rfl, hp, ha⟩ := h
    refine ⟨rfl, ?_, ?_⟩
    · show (t.memory.write addr value).ppu =
        Ppu.run (t.events ++ t.memory.writeEvents addr value) first
      rw [Ppu.run_append, ← hp, CpuMemory.ppu_write]
    · intro e he
      rcases List.mem_append.mp he with he | he
      · exact ha e he
      · exact CpuMemory.isAccess_writeEvents t.memory addr value e he
  takeOamDma {m t} h := by
    obtain ⟨rfl, hp, ha⟩ := h
    exact ⟨rfl, rfl, hp, ha⟩

end Traced

/-! ## Events of steps -/

namespace Machine

/-- What a step of the CPU alone does to the picture unit. -/
def cpuEvents (m : Machine μ) : List (Ppu.Event μ) :=
  ((⟨m.cpu, ⟨m.traceInstruction.memory, []⟩⟩ : Wired (Traced μ)).step).2.bus.events

/-- What a number of dots does to the picture unit: after each dot the machine takes the interrupt
that has been delivered, if there is one. -/
def dotEvents : Nat → Machine μ → List (Ppu.Event μ)
  | 0, _ => []
  | n + 1, m => .dot m.board :: .takeNmi :: dotEvents n m.dot

/-- What a step does to the picture unit. -/
def stepEvents (m : Machine μ) : List (Ppu.Event μ) :=
  m.cpuEvents ++ dotEvents (m.stepCpu.1 * dotsPerCycle) m.stepCpu.2

/-- What a number of steps does to the picture unit. -/
def events : Nat → Machine μ → List (Ppu.Event μ)
  | 0, _ => []
  | n + 1, m => m.stepEvents ++ events n m.step.2

omit [Board μ] in
theorem note_shape (m : Machine μ) (level : Level) (text : Unit → String) :
    ∃ journal, m.note level text = { m with journal := journal } := by
  unfold note
  split
  · exact ⟨m.journal, rfl⟩
  · exact ⟨_, rfl⟩

theorem traceInstruction_shape (m : Machine μ) :
    ∃ journal, m.traceInstruction = { m with journal := journal } := by
  unfold traceInstruction
  split
  · split
    · exact ⟨m.journal, rfl⟩
    · split
      · exact ⟨m.journal, rfl⟩
      · exact m.note_shape _ _
  · exact ⟨m.journal, rfl⟩

theorem stepCpu_follows (m : Machine μ) :
    Traced.Follows m.ppu m.traceInstruction.wired.step.2.bus
      ((⟨m.cpu, ⟨m.traceInstruction.memory, []⟩⟩ : Wired (Traced μ)).step).2.bus := by
  obtain ⟨journal, hj⟩ := m.traceInstruction_shape
  have h0 : Wired.Alike (Traced.Follows m.ppu) m.traceInstruction.wired
      ⟨m.cpu, ⟨m.traceInstruction.memory, []⟩⟩ := by
    rw [hj]
    exact ⟨rfl, rfl, rfl, by simp⟩
  exact (Wired.step_alike (Traced.follows_simulation m.ppu) h0).2.bus

theorem ppu_stepCpu (m : Machine μ) : m.stepCpu.2.ppu = Ppu.run m.cpuEvents m.ppu :=
  m.stepCpu_follows.ppu

theorem isAccess_cpuEvents (m : Machine μ) : ∀ e ∈ m.cpuEvents, e.isAccess :=
  m.stepCpu_follows.accesses

theorem ppu_dot (m : Machine μ) : m.dot.ppu = (m.ppu.step m.board).takeNmi := by
  have hirq : ∀ m : Machine μ, m.passIrq.ppu = m.ppu := by
    intro m
    unfold passIrq
    split <;> rfl
  unfold dot
  dsimp only
  rw [hirq]
  unfold passNmi
  split
  · rw [(note_shape _ _ _).choose_spec]
  · next h =>
      -- nothing is pending, so there is nothing to take
      have hp : (m.ppu.step m.board).nmi.pending = false := by
        simpa [Ppu.nmiPending] using h
      rw [Ppu.takeNmi, ← hp]

theorem ppu_dots (n : Nat) (m : Machine μ) :
    (dots n m).ppu = Ppu.run (dotEvents n m) m.ppu := by
  induction n generalizing m with
  | zero => rfl
  | succ n ih =>
      rw [dots, ih, ppu_dot]
      rfl

theorem ppu_step (m : Machine μ) : m.step.2.ppu = Ppu.run m.stepEvents m.ppu := by
  rw [stepEvents, Ppu.run_append, ← ppu_stepCpu, ← ppu_dots]
  rfl

/-- **The picture unit of a machine goes through the run of its events.** -/
theorem ppu_steps (n : Nat) (k : Nat) (m : Machine μ) :
    (steps n (k, m)).2.ppu = Ppu.run (events n m) m.ppu := by
  induction n generalizing k m with
  | zero => rfl
  | succ n ih => rw [steps, ih, events, Ppu.run_append, ← ppu_step]

/-! ## Dots of steps -/

omit [Board μ] in
theorem dots_eq_zero_of_isAccess {es : List (Ppu.Event μ)} (h : ∀ e ∈ es, e.isAccess) :
    Ppu.Event.dots es = 0 := by
  rw [Ppu.Event.dots, List.countP_eq_zero]
  intro e he
  have ha := h e he
  cases e <;> simp_all [Ppu.Event.isAccess, Ppu.Event.isDot]

theorem dots_dotEvents (n : Nat) (m : Machine μ) : Ppu.Event.dots (dotEvents n m) = n := by
  induction n generalizing m with
  | zero => rfl
  | succ n ih =>
      simp only [dotEvents, Ppu.Event.dots_cons, Ppu.Event.isDot, ih]
      simp only [if_true, Bool.false_eq_true, if_false]
      omega

/-- A step makes three dots for every cycle it takes. -/
theorem dots_stepEvents (m : Machine μ) :
    Ppu.Event.dots m.stepEvents = dotsPerCycle * m.step.1 := by
  rw [stepEvents, Ppu.Event.dots_append, dots_eq_zero_of_isAccess m.isAccess_cpuEvents,
    dots_dotEvents, Nat.zero_add, Nat.mul_comm]
  rfl

theorem dots_events (n : Nat) (k : Nat) (m : Machine μ) :
    Ppu.Event.dots (events n m) + dotsPerCycle * k = dotsPerCycle * (steps n (k, m)).1 := by
  induction n generalizing k m with
  | zero =>
      simp only [events, steps, Ppu.Event.dots_nil]
      omega
  | succ n ih =>
      have h := ih (k + m.step.1) m.step.2
      rw [Nat.mul_add] at h
      rw [steps, events, Ppu.Event.dots_append, dots_stepEvents, ← h]
      omega

/-! ## No resets -/

theorem reset_notMem_dotEvents (n : Nat) (m : Machine μ) :
    Ppu.Event.reset ∉ dotEvents n m := by
  induction n generalizing m with
  | zero => simp [dotEvents]
  | succ n ih => simp [dotEvents, ih]

/-- Running a machine never resets its picture unit. -/
theorem reset_notMem_events (n : Nat) (m : Machine μ) : Ppu.Event.reset ∉ events n m := by
  induction n generalizing m with
  | zero => simp [events]
  | succ n ih =>
      have hcpu : Ppu.Event.reset ∉ m.cpuEvents := fun h => by
        have ha := m.isAccess_cpuEvents _ h
        cases ha
      simp [events, stepEvents, hcpu, reset_notMem_dotEvents, ih]

end Machine

end Nes
