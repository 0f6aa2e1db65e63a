import Nes.Proofs.Machine.Actions

/-!
# The history of a run

A history lists the dots of a run and the accesses to what the CPU reaches, with the bytes they
move: those of instructions, of interrupts, of the copies into sprite memory and of a host. It is
kept by a bus that writes down what is asked of it (`Logged`), and the CPU cannot tell that bus from
the plain one.

Replayed from the first state of the picture unit, a history leads to the last one, and all answers
of registers in it are those of the states on the way (`Machine.leads_history`). So laws on what the
CPU sees of the picture unit can be stated and proved on histories alone.
-/

set_option autoImplicit false

namespace Nes

/-- What happens in a run of a machine. A write that starts a copy into sprite memory is followed by
the reads of the copy, and then by the page being stored. -/
inductive Happening (μ : Type)
  | dot (board : μ)
  | read (board : μ) (addr : UInt16) (answer : UInt8)
  | write (board : μ) (addr : UInt16) (value : UInt8)
  | stored (page : UInt8) (bytes : Array UInt8)

/-- The registers of the picture unit lie at an address. -/
def CpuMemory.isRegister (addr : UInt16) : Bool := decide (0x2000 ≤ addr ∧ addr < 0x4000)

theorem CpuMemory.ite_isRegister {α : Type} (addr : UInt16) (a b : α) :
    (if addr < 0x2000 then b else if addr < 0x4000 then a else b) =
      if isRegister addr then a else b := by
  by_cases hlow : addr < 0x2000
  · have hnot : isRegister addr = false :=
      decide_eq_false fun h => absurd hlow (UInt16.not_lt.mpr h.1)
    rw [if_pos hlow, hnot, if_neg Bool.false_ne_true]
  · rw [if_neg hlow]
    by_cases hhigh : addr < 0x4000
    · have hin : isRegister addr = true := decide_eq_true ⟨UInt16.not_lt.mp hlow, hhigh⟩
      rw [if_pos hhigh, hin, if_pos rfl]
    · have hnot : isRegister addr = false := decide_eq_false fun h => hhigh h.2
      rw [if_neg hhigh, hnot, if_neg Bool.false_ne_true]

/-- Which register an address of the window leads to is told by its three low bits. -/
theorem CpuMemory.at?_eq_some_iff {addr n : UInt16} {r : Register} (h : r.location = 0x2000 + n) :
    Register.at? (registerAddress addr) = some r ↔ addr % 8 = n := by
  rw [Register.at?_eq_some_iff, h]
  exact UInt16.add_right_inj 0x2000

theorem CpuMemory.at?_eq_status_iff {addr : UInt16} :
    Register.at? (registerAddress addr) = some .status ↔ addr % 8 = 2 :=
  at?_eq_some_iff rfl

variable {μ : Type} [Board μ]

open CpuMemory (isRegister registerAddress)

/-! ## Replaying a history -/

namespace Happening

/-- What a happening does to the picture unit. After each dot the machine takes the interrupt that
has been delivered, if there is one. -/
def events : Happening μ → List (Ppu.Event μ)
  | .dot board => [.dot board, .takeNmi]
  | .read board addr _ => if isRegister addr then [.read board (registerAddress addr)] else []
  | .write board addr value =>
      if isRegister addr then [.write board (registerAddress addr) value] else []
  | .stored page bytes => [.storePage page bytes]

/-- The state of the picture unit after the happenings of a history. -/
def replay (h : List (Happening μ)) (p : Ppu) : Ppu := Ppu.run (h.flatMap events) p

theorem replay_append (h h' : List (Happening μ)) (p : Ppu) :
    replay (h ++ h') p = replay h' (replay h p) := by
  rw [replay, List.flatMap_append, Ppu.run_append]
  rfl

theorem replay_singleton (e : Happening μ) (p : Ppu) : replay [e] p = Ppu.run e.events p := by
  rw [replay, List.flatMap_singleton]

/-- The state before a happening, and the one after it. -/
theorem replay_take_succ {h : List (Happening μ)} {i : Nat} {e : Happening μ}
    (he : h[i]? = some e) (p : Ppu) :
    replay (h.take (i + 1)) p = Ppu.run e.events (replay (h.take i) p) := by
  rw [List.take_add_one, he, replay_append]
  exact replay_singleton e _

/-- The answer of a register is the one that the state gives. -/
def Answers (p : Ppu) : Happening μ → Prop
  | .read board addr answer =>
      isRegister addr = true → answer = (p.readRegister board (registerAddress addr)).1
  | _ => True

/-- A history leads from one state of the picture unit to another, with all answers of registers
those of the states on the way. -/
structure Leads (first : Ppu) (h : List (Happening μ)) (last : Ppu) : Prop where
  state : last = replay h first
  answers (i : Nat) (e : Happening μ) : h[i]? = some e → e.Answers (replay (h.take i) first)

theorem Leads.refl (p : Ppu) : Leads p ([] : List (Happening μ)) p :=
  ⟨rfl, fun i e he => by simp at he⟩

theorem Leads.of_answers {p : Ppu} {e : Happening μ} (h : e.Answers p) :
    Leads p [e] (Ppu.run e.events p) := by
  refine ⟨(replay_singleton e p).symm, fun i e' he => ?_⟩
  cases i with
  | zero =>
      have heq : e = e' := by simpa using he
      exact heq ▸ h
  | succ i => simp at he

theorem Leads.trans {p q r : Ppu} {h h' : List (Happening μ)} (hpq : Leads p h q)
    (hqr : Leads q h' r) : Leads p (h ++ h') r := by
  refine ⟨?_, fun i e he => ?_⟩
  · rw [replay_append, ← hpq.state, ← hqr.state]
  · rcases Nat.lt_or_ge i h.length with hlt | hge
    · -- in the first history
      rw [List.getElem?_append_left hlt] at he
      rw [List.take_append_of_le_length (Nat.le_of_lt hlt)]
      exact hpq.answers i e he
    · -- in the second one, which starts where the first has led
      rw [List.getElem?_append_right hge] at he
      rw [List.take_append, List.take_of_length_le hge, replay_append, ← hpq.state]
      exact hqr.answers _ e he

end Happening

open Happening (Leads)

/-! ## Accesses -/

namespace CpuMemory

/-- A read as a happening. -/
def readHappening (m : CpuMemory μ) (addr : UInt16) : Happening μ :=
  .read m.board addr (m.read addr).1

/-- Reads of consecutive addresses as happenings. -/
def rangeHappenings : Nat → CpuMemory μ → UInt16 → List (Happening μ)
  | 0, _, _ => []
  | n + 1, m, addr => m.readHappening addr :: rangeHappenings n (m.read addr).2 (addr + 1)

/-- A write as happenings: the write, and the copy that it starts. -/
def writeHappenings (m : CpuMemory μ) (addr : UInt16) (value : UInt8) : List (Happening μ) :=
  .write m.board addr value ::
    if addr = oamDmaAddress then
      rangeHappenings dmaTransferSize m (pageStart value) ++
        [.stored value (readPage read m value).1]
    else []

theorem writeHappenings_oamDma (m : CpuMemory μ) (page : UInt8) :
    m.writeHappenings oamDmaAddress page =
      .write m.board oamDmaAddress page ::
        (rangeHappenings dmaTransferSize m (pageStart page) ++
          [.stored page (readPage read m page).1]) := by
  rw [writeHappenings, if_pos rfl]

theorem events_readHappening (m : CpuMemory μ) (addr : UInt16) :
    (m.readHappening addr).events = m.readEvents addr :=
  (ite_isRegister addr [Ppu.Event.read m.board (registerAddress addr)] []).symm

theorem answers_readHappening (m : CpuMemory μ) (addr : UInt16) :
    (m.readHappening addr).Answers m.ppu := by
  intro h
  have hbounds := of_decide_eq_true h
  have hlow : ¬ addr < 0x2000 := UInt16.not_lt.mpr hbounds.1
  rw [read, if_neg hlow, if_pos hbounds.2]

theorem leads_read (m : CpuMemory μ) (addr : UInt16) :
    Leads m.ppu [m.readHappening addr] (m.read addr).2.ppu := by
  rw [ppu_read, ← events_readHappening]
  exact .of_answers (m.answers_readHappening addr)

theorem leads_readRange (n : Nat) (m : CpuMemory μ) (addr : UInt16) (acc : Array UInt8) :
    Leads m.ppu (rangeHappenings n m addr) (readRange read n m addr acc).2.ppu := by
  induction n generalizing m addr acc with
  | zero => exact .refl m.ppu
  | succ n ih => exact (m.leads_read addr).trans (ih (m.read addr).2 (addr + 1) _)

/-- A copied page is read first and stored then. -/
theorem leads_copyPage (m : CpuMemory μ) (page : UInt8) :
    Leads m.ppu
      (rangeHappenings dmaTransferSize m (pageStart page) ++
        [.stored page (readPage read m page).1]) (m.copyPage page).ppu := by
  have hread : Leads m.ppu (rangeHappenings dmaTransferSize m (pageStart page))
      (readPage read m page).2.ppu := leads_readRange dmaTransferSize m (pageStart page) #[]
  have hstore : ∀ (p : Ppu) (bytes : Array UInt8),
      Leads p [(.stored page bytes : Happening μ)] (p.writeOamPage page bytes) :=
    fun _ _ => .of_answers trivial
  have hcopy : (m.copyPage page).ppu =
      (readPage read m page).2.ppu.writeOamPage page (readPage read m page).1 := by
    obtain ⟨_, h⟩ := m.copyPage_shape page
    rw [h]
  rw [hcopy]
  exact hread.trans (hstore _ _)

theorem leads_write (m : CpuMemory μ) (addr : UInt16) (value : UInt8) :
    Leads m.ppu (m.writeHappenings addr value) (m.write addr value).ppu := by
  have hwrite : Leads m.ppu [.write m.board addr value]
      (Ppu.run (Happening.write m.board addr value).events m.ppu) := .of_answers trivial
  by_cases hcopy : addr = oamDmaAddress
  · -- the write itself is not one to a register, and starts a copy
    subst hcopy
    have hevents : (Happening.write m.board oamDmaAddress value).events = [] := rfl
    rw [hevents, Ppu.run_nil] at hwrite
    rw [writeHappenings_oamDma, write_oamDmaAddress]
    exact hwrite.trans (m.leads_copyPage value)
  · have hevents : (Happening.write m.board addr value).events = m.writeEvents addr value := by
      rw [writeEvents, if_neg hcopy]
      exact (ite_isRegister addr [Ppu.Event.write m.board (registerAddress addr) value] []).symm
    rw [writeHappenings, if_neg hcopy, ppu_write, ← hevents]
    exact hwrite

end CpuMemory

/-! ## The bus that writes the history -/

/-- What the CPU reaches, with the history of what has been asked of it. -/
structure Logged (μ : Type) where
  memory : CpuMemory μ
  history : List (Happening μ) := []

instance : Bus (Logged μ) where
  read t addr :=
    let r := t.memory.read addr
    (r.1, ⟨r.2, t.history ++ [t.memory.readHappening addr]⟩)
  write t addr value :=
    ⟨t.memory.write addr value, t.history ++ t.memory.writeHappenings addr value⟩
  takeOamDma t :=
    let r := Bus.takeOamDma t.memory
    (r.1, { t with memory := r.2 })

namespace Logged

/-- A logged memory is the plain one, and its history leads there from a first picture unit. -/
structure Logs (first : Ppu) (m : CpuMemory μ) (t : Logged μ) : Prop where
  memory : t.memory = m
  leads : Leads first t.history m.ppu

theorem logs_simulation (first : Ppu) : Bus.Simulation (Logs (μ := μ) first) where
  read {m t} h addr := by
    obtain ⟨rfl, hleads⟩ := h
    exact ⟨rfl, rfl, hleads.trans (t.memory.leads_read addr)⟩
  write {m t} h addr value := by
    obtain ⟨rfl, hleads⟩ := h
    exact ⟨rfl, hleads.trans (t.memory.leads_write addr value)⟩
  takeOamDma {m t} h := by
    obtain ⟨rfl, hleads⟩ := h
    exact ⟨rfl, rfl, hleads⟩

end Logged

/-! ## Histories of actions -/

namespace Machine

/-- The CPU on a logged view of what it reaches. -/
def logged (m : Machine μ) : Wired (Logged μ) := ⟨m.cpu, { memory := m.memory }⟩

/-- What happens in an action. -/
def happenings (m : Machine μ) : Action → List (Happening μ)
  | .stepCpu => m.traceInstruction.logged.step.2.bus.history
  | .dot => [.dot m.board]
  | .read addr => [m.memory.readHappening addr]
  | .write addr value => m.memory.writeHappenings addr value
  | .reset => ({ m with board := Board.reset m.board } : Machine μ).logged.reset.bus.history

/-- What happens in a sequence of actions. -/
def history : List Action → Machine μ → List (Happening μ)
  | [], _ => []
  | a :: as, m => m.happenings a ++ history as (m.act a)

theorem alike_logged (m : Machine μ) : Wired.Alike (Logged.Logs m.ppu) m.wired m.logged :=
  ⟨rfl, rfl, .refl m.ppu⟩

theorem leads_happenings (m : Machine μ) (a : Action) :
    Leads m.ppu (m.happenings a) (m.act a).ppu := by
  cases a with
  | stepCpu =>
      obtain ⟨_, hj⟩ := m.traceInstruction_shape
      have hppu : m.traceInstruction.ppu = m.ppu := by rw [hj]
      have h := (Wired.step_alike (Logged.logs_simulation _) m.traceInstruction.alike_logged).2.bus
      exact hppu ▸ h.leads
  | dot =>
      show Leads m.ppu [.dot m.board] m.dot.ppu
      rw [ppu_dot]
      exact .of_answers trivial
  | read addr => exact m.memory.leads_read addr
  | write addr value => exact m.memory.leads_write addr value
  | reset =>
      let m' : Machine μ := { m with board := Board.reset m.board }
      have h := (Wired.reset_alike (Logged.logs_simulation _) m'.alike_logged).bus
      have hppu : m.reset.ppu = m'.resetCpu.ppu := by
        obtain ⟨_, hj⟩ := note_shape m'.resetCpu .info _
        rw [reset, hj]
      show Leads m.ppu _ m.reset.ppu
      rw [hppu]
      exact h.leads

/-- **The history of a run leads from the first picture unit to the last one**, and the answers of
registers in it are those of the states on the way. -/
theorem leads_history (as : List Action) (m : Machine μ) :
    Leads m.ppu (m.history as) (m.actAll as).ppu := by
  induction as generalizing m with
  | nil => exact .refl m.ppu
  | cons a as ih => exact (m.leads_happenings a).trans (ih (m.act a))

end Machine

end Nes
