import Nes.Proofs.Cpu.TransferStart
import Nes.Proofs.Machine.CycleCount
import Nes.Proofs.Machine.IrqService
import Nes.Proofs.Machine.Jam
import Nes.Proofs.Ppu.Fields

/-!
# Accesses from outside and by the CPU

A host reads and writes what the CPU reaches. What such an access answers, and what it does to work
RAM, the picture unit and the board, is what a load or a store does that the CPU runs from memory:
fetching it changes nothing, so the one access of its effect is all that is left
(`Machine.loadAgrees`, `Machine.storeAgrees`).

There is one difference. When the CPU starts a transfer into sprite memory, it has to wait for it; a
transfer that is started from outside costs it nothing (`Console.stall_write_accessProgram_ne`).
-/

set_option autoImplicit false

namespace Nes

/-! ## Fetching from memory -/

/-- An address of work RAM or of the cartridge. -/
def InMemory (addr : UInt16) : Prop := addr < 0x2000 ∨ 0x6000 ≤ addr

theorem inMemory_of_zeroPage (byte : UInt8) : InMemory byte.toUInt16 := by
  left
  rw [UInt16.lt_iff_toNat_lt, UInt8.toNat_toUInt16]
  exact Nat.lt_trans byte.toNat_lt (by decide)

/-- A pointer in page zero is read without leaving it. -/
theorem inMemory_nextInPage (byte : UInt8) : InMemory (nextInPage byte.toUInt16) := by
  have hpage : pageOf byte.toUInt16 = 0 := by
    apply UInt16.toNat_inj.mp
    rw [pageOf, Word.toNat_and_field byte.toUInt16 8 8 (by decide), UInt8.toNat_toUInt16,
      Nat.div_eq_of_lt byte.toNat_lt]
    rfl
  rw [nextInPage, hpage, UInt16.zero_or]
  exact inMemory_of_zeroPage _

/-- Only jumps are indirect. -/
theorem Opcode.mnemonic_of_indirect {b : UInt8} (h : (Opcode.ofByte b).mode = .indirect) :
    (Opcode.ofByte b).mnemonic = .jmp := by
  have hfields : ∀ (group : Fin 4) (column row : Fin 8),
      Mode.ofFields group column row = .indirect → (Mnemonic.line group column)[row] = .jmp := by
    decide
  exact hfields _ _ _ h

section Quiet

variable {β : Type} [Bus β]

/-- Reading memory changes nothing. -/
def Bus.Quiet (b : β) : Prop := ∀ addr, InMemory addr → (Bus.read b addr).2 = b

variable {b : β}

theorem Bus.Quiet.readWord (h : Quiet b) {addr : UInt16} (hlow : InMemory addr)
    (hhigh : InMemory (addr + 1)) : (Bus.readWord b addr).2 = b := by
  show (Bus.read (Bus.read b addr).2 (addr + 1)).2 = b
  rw [h addr hlow, h (addr + 1) hhigh]

theorem Bus.Quiet.readPointer (h : Quiet b) (byte : UInt8) :
    (Bus.readPointer b byte.toUInt16).2 = b := by
  show (Bus.read (Bus.read b byte.toUInt16).2 (nextInPage byte.toUInt16)).2 = b
  rw [h _ (inMemory_of_zeroPage byte), h _ (inMemory_nextInPage byte)]

/-- Finding an operand in memory changes nothing. The pointers of the other indirect modes lie in
page zero. -/
theorem Bus.Quiet.find (h : Quiet b) {c : Cpu} {mode : Mode} (hmode : mode ≠ .indirect)
    (hbytes : ∀ i < mode.operandSize, InMemory (c.pc + 1 + UInt16.ofNat i)) :
    (Operand.find c b mode).2 = b := by
  have hzero : c.pc + 1 + UInt16.ofNat 0 = c.pc + 1 := UInt16.add_zero _
  cases mode with
  | implied | accumulator | immediate => rfl
  | zeroPage | zeroPageX | zeroPageY | relative =>
      exact h _ (hzero ▸ hbytes 0 (by decide))
  | absolute | absoluteX | absoluteY =>
      exact h.readWord (hzero ▸ hbytes 0 (by decide)) (hbytes 1 (by decide))
  | indirect => exact absurd rfl hmode
  | indexedIndirect | indirectIndexed =>
      simp only [Operand.find]
      rw [h _ (hzero ▸ hbytes 0 (by decide))]
      exact h.readPointer _

namespace Wired

variable {s : Wired β}

/-- The next instruction lies in memory. -/
def FetchesFromMemory (s : Wired β) : Prop :=
  ∀ i < s.next.opcode.size, InMemory (s.cpu.pc + UInt16.ofNat i)

/-- Fetching an instruction from memory moves the CPU on and changes nothing else, unless it is one
without bytes of its own or a jump. -/
theorem readied_of_inMemory (hquiet : Bus.Quiet s.bus) (hinterrupt : s.cpu.interrupt = .none)
    (hfetch : s.FetchesFromMemory) (hkil : s.next.opcode.mnemonic ≠ .kil)
    (hjmp : s.next.opcode.mnemonic ≠ .jmp) :
    s.readied = s.mapCpu fun c =>
      { c with pc := s.next.next, cycles := c.cycles + s.next.cycles } := by
  have hserve : s.serveInterrupt = s := by
    rw [serveInterrupt_eq, hinterrupt]
    rfl
  have hnext : s.next = s.fetch.1 := by rw [next, hserve]
  have hsize : s.next.opcode.size = 1 + s.next.opcode.mode.operandSize := if_neg hkil
  -- the opcode first, then the bytes behind it
  have hopcode : (Bus.read s.bus s.cpu.pc).2 = s.bus := by
    have hplace := hfetch 0 (by omega)
    exact hquiet _ ((UInt16.add_zero s.cpu.pc) ▸ hplace)
  have hread : (s.read s.cpu.pc).2 = s := by
    show { s with bus := (Bus.read s.bus s.cpu.pc).2 } = s
    rw [hopcode]
  have hmode : s.next.opcode.mode ≠ .indirect := fun h => hjmp (Opcode.mnemonic_of_indirect h)
  have hfind : (Operand.find s.cpu s.bus s.next.opcode.mode).2 = s.bus := by
    refine Bus.Quiet.find hquiet hmode fun i hi => ?_
    have hplace := hfetch (1 + i) (by omega)
    rwa [UInt16.ofNat_add, ← UInt16.add_assoc] at hplace
  have hbus : s.fetch.2 = s := by
    show { (s.read s.cpu.pc).2 with
      bus := (Operand.find (s.read s.cpu.pc).2.cpu (s.read s.cpu.pc).2.bus
        (Opcode.ofByte (s.read s.cpu.pc).1).mode).2 } = s
    have hopcode' : Opcode.ofByte (s.read s.cpu.pc).1 = s.next.opcode := by
      rw [hnext]
      rfl
    rw [hopcode', hread, hfind]
  rw [readied, hserve, hbus]
  rfl

end Wired

end Quiet

/-! ## The journal makes no difference -/

namespace CpuMemory

variable {μ : Type} [Board μ]

theorem read_withJournal (m : CpuMemory μ) (journal : Journal) (addr : UInt16) :
    ({ m with journal := journal } : CpuMemory μ).read addr =
      ((m.read addr).1, { (m.read addr).2 with journal := journal }) := by
  unfold read
  split
  · rfl
  · split
    · rfl
    · split <;> rfl

theorem readRange_withJournal (n : Nat) (m : CpuMemory μ) (journal : Journal) (addr : UInt16)
    (acc : Array UInt8) :
    readRange read n ({ m with journal := journal } : CpuMemory μ) addr acc =
      ((readRange read n m addr acc).1,
        { (readRange read n m addr acc).2 with journal := journal }) := by
  induction n generalizing m addr acc with
  | zero => rfl
  | succ n ih => rw [readRange, read_withJournal, ih, readRange]

theorem write_withJournal (m : CpuMemory μ) (journal : Journal) (addr : UInt16) (value : UInt8) :
    ∃ journal', ({ m with journal := journal } : CpuMemory μ).write addr value =
      { m.write addr value with journal := journal' } := by
  by_cases hdma : addr = oamDmaAddress
  · subst hdma
    obtain ⟨_, hcopy⟩ := m.copyPage_shape value
    obtain ⟨journal', hcopy'⟩ :=
      CpuMemory.copyPage_shape ({ m with journal := journal } : CpuMemory μ) value
    refine ⟨journal', ?_⟩
    rw [write_oamDmaAddress, write_oamDmaAddress, hcopy, hcopy']
    simp only [readPage, readRange_withJournal]
  · unfold write
    rw [if_neg hdma, if_neg hdma]
    split
    · exact ⟨journal, rfl⟩
    · split
      · exact ⟨journal, rfl⟩
      · split
        · -- the notice about an ignored write is all that depends on the journal
          obtain ⟨_, hnote⟩ := m.note_shape .trace fun _ =>
            "ignored io write $" ++ Hex.word addr ++ " = $" ++ Hex.byte value
          obtain ⟨journal', hnote'⟩ :=
            note_shape ({ m with journal := journal } : CpuMemory μ) .trace fun _ =>
              "ignored io write $" ++ Hex.word addr ++ " = $" ++ Hex.byte value
          exact ⟨journal', by rw [hnote, hnote']⟩
        · exact ⟨journal, rfl⟩

/-- The CPU does the same whatever has been recorded. -/
theorem journal_simulation :
    Bus.Simulation fun (m m' : CpuMemory μ) => ∃ journal, m' = { m with journal := journal } where
  read {m m'} h addr := by
    obtain ⟨journal, rfl⟩ := h
    have hread := m.read_withJournal journal addr
    exact ⟨(congrArg Prod.fst hread).symm, journal, congrArg Prod.snd hread⟩
  write {m m'} h addr value := by
    obtain ⟨journal, rfl⟩ := h
    exact m.write_withJournal journal addr value
  takeOamDma {m m'} h := by
    obtain ⟨journal, rfl⟩ := h
    exact ⟨rfl, journal, rfl⟩

end CpuMemory

/-- A step of the CPU of a machine is one of its CPU on its memory, up to the journal. -/
theorem Machine.stepCpu_shape {μ : Type} [Board μ] (m : Machine μ) :
    ∃ journal,
      m.stepCpu = (m.wired.step.1, { ofWired m.wired.step.2 with journal := journal }) := by
  obtain ⟨traced, htraced⟩ := m.traceInstruction_shape
  have halike : Wired.Alike
      (fun (m m' : CpuMemory μ) => ∃ journal, m' = { m with journal := journal })
      m.wired m.traceInstruction.wired := by
    rw [htraced]
    exact ⟨rfl, traced, rfl⟩
  obtain ⟨hcost, hcpu, journal, hbus⟩ := Wired.step_alike CpuMemory.journal_simulation halike
  refine ⟨journal, ?_⟩
  rw [stepCpu, ← hcost, ofWired, ← hcpu, hbus]
  rfl

/-! ## Loads and stores -/

/-- What is stored depends on the registers A and X and Y only. -/
theorem Mnemonic.stored_of_registers {m : Mnemonic} {f : Cpu → UInt8} (h : m.effect = .store f)
    (c : Cpu) (pc : UInt16) (cycles : Nat) : f { c with pc := pc, cycles := cycles } = f c := by
  cases m with
  | sta | stx | sty | sax =>
      injection h with hf
      rw [← hf]
  | _ => cases h

namespace Machine

variable {μ : Type} [Board μ]

/-- The next instruction stores a value at an address. -/
def Stores (m : Machine μ) (addr : UInt16) (value : UInt8) : Prop :=
  ∃ f, m.wired.next.opcode.mnemonic.effect = .store f ∧
    m.wired.next.operand.address = addr ∧ f m.cpu = value

/-- The next instruction loads from an address, and changes the CPU by what it finds there. -/
def Loads (m : Machine μ) (addr : UInt16) (f : Cpu → UInt8 → Cpu) : Prop :=
  m.wired.next.opcode.mnemonic.effect = .load f ∧ m.wired.next.operand.address = addr

/-- The CPU as the effect of the next instruction finds it, if the step enters no handler. -/
def movedOn (m : Machine μ) : Cpu :=
  { m.cpu with pc := m.wired.next.next, cycles := m.cpu.cycles + m.wired.next.cycles }

/-- What a store by the CPU leaves, against a write from outside. -/
structure StoreAgrees (m : Machine μ) (addr : UInt16) (value : UInt8) : Prop where
  ram : m.stepCpu.2.ram = (m.write addr value).ram
  ppu : m.stepCpu.2.ppu = (m.write addr value).ppu
  board : m.stepCpu.2.board = (m.write addr value).board
  /-- The CPU waits for a transfer that it has started, by the parity of its counter. -/
  waits : m.stepCpu.2.cpu.stall =
    if addr = oamDmaAddress then 513 + m.stepCpu.2.cpu.cycles % 2 else 0
  /-- From outside nothing reaches the CPU. -/
  untouched : (m.write addr value).cpu = m.cpu

/-- What a load by the CPU leaves, against a read from outside. -/
structure LoadAgrees (m : Machine μ) (addr : UInt16) (f : Cpu → UInt8 → Cpu) : Prop where
  ram : m.stepCpu.2.ram = (m.read addr).2.ram
  ppu : m.stepCpu.2.ppu = (m.read addr).2.ppu
  board : m.stepCpu.2.board = (m.read addr).2.board
  /-- The CPU gets the byte that is answered outside. -/
  answer : m.stepCpu.2.cpu = f m.movedOn (m.read addr).1

variable {m : Machine μ}

/-- What a step fetches from memory is carried out on an unchanged bus. -/
theorem readied_of_effect (hquiet : Bus.Quiet m.memory) (hinterrupt : m.cpu.interrupt = .none)
    (hfetch : m.wired.FetchesFromMemory)
    (heffect : m.wired.next.opcode.mnemonic.effect ≠ .idle)
    (hjump : m.wired.next.opcode.mnemonic.effect ≠ .jump) :
    m.wired.readied = ⟨m.movedOn, m.memory⟩ :=
  Wired.readied_of_inMemory hquiet hinterrupt hfetch
    (fun h => heffect (by rw [h]; rfl)) (fun h => hjump (by rw [h]; rfl))

/-- What a step leaves, by what its instruction leaves. -/
theorem stepCpu_of_executed (hstall : m.cpu.stall = 0) {c : Cpu} {b : CpuMemory μ}
    (h : m.wired.executed = ⟨c, b⟩) :
    ∃ journal, m.stepCpu.2 =
      { cpu := if b.oamDma then { c with stall := c.stall + stallCycles c.cycles } else c
        ram := b.ram, ppu := b.ppu, board := b.board, journal := journal } := by
  obtain ⟨journal, hstep⟩ := m.stepCpu_shape
  refine ⟨journal, ?_⟩
  have hrun : m.wired.step.2 = Wired.chargeOamDma ⟨c, b⟩ := by
    rw [(Wired.step_of_not_stalled hstall).2, ← h]
    rfl
  rw [hstep, hrun]
  cases hdma : b.oamDma with
  | false => simp [Wired.chargeOamDma, hdma, ofWired, Bus.takeOamDma]
  | true => simp [Wired.chargeOamDma, hdma, ofWired, Bus.takeOamDma, Wired.mapCpu]

/-- A write starts a transfer at one address only. -/
theorem oamDma_write_memory (m : Machine μ) (addr : UInt16) (value : UInt8) :
    (m.memory.write addr value).oamDma = decide (addr = oamDmaAddress) := by
  by_cases haddr : addr = oamDmaAddress
  · obtain ⟨_, hcopy⟩ := m.memory.copyPage_shape value
    rw [haddr, CpuMemory.write_oamDmaAddress, hcopy]
    rfl
  · rw [CpuMemory.oamDma_write _ haddr, decide_eq_false haddr]
    rfl

theorem storeAgrees (hquiet : Bus.Quiet m.memory) (hstall : m.cpu.stall = 0)
    (hinterrupt : m.cpu.interrupt = .none) (hfetch : m.wired.FetchesFromMemory) {addr : UInt16}
    {value : UInt8} (h : m.Stores addr value) : m.StoreAgrees addr value := by
  obtain ⟨f, heffect, rfl, rfl⟩ := h
  have hready : m.wired.readied = ⟨m.movedOn, m.memory⟩ :=
    readied_of_effect hquiet hinterrupt hfetch (by simp [heffect]) (by simp [heffect])
  -- the byte comes from a register, and moving on has left the registers alone
  have hstored : f m.movedOn = f m.cpu := Mnemonic.stored_of_registers heffect m.cpu _ _
  have hexecuted : m.wired.executed =
      ⟨m.movedOn, m.memory.write m.wired.next.operand.address (f m.cpu)⟩ := by
    rw [Wired.executed, heffect, hready, ← hstored]
    rfl
  obtain ⟨_, hstep⟩ := stepCpu_of_executed hstall hexecuted
  have hwaits : m.movedOn.stall = 0 := hstall
  have hdma := m.oamDma_write_memory m.wired.next.operand.address (f m.cpu)
  constructor
  case ram | ppu | board =>
    rw [hstep]
    rfl
  case waits =>
    rw [hstep, hdma]
    by_cases haddr : m.wired.next.operand.address = oamDmaAddress
    · simp [haddr, hwaits, stallCycles, dmaStallCycles]
    · simp [haddr, hwaits]
  case untouched => rfl

theorem loadAgrees (hquiet : Bus.Quiet m.memory) (hstall : m.cpu.stall = 0)
    (hinterrupt : m.cpu.interrupt = .none) (hfetch : m.wired.FetchesFromMemory) {addr : UInt16}
    {f : Cpu → UInt8 → Cpu} (h : m.Loads addr f) : m.LoadAgrees addr f := by
  obtain ⟨heffect, rfl⟩ := h
  have hready : m.wired.readied = ⟨m.movedOn, m.memory⟩ :=
    readied_of_effect hquiet hinterrupt hfetch (by simp [heffect]) (by simp [heffect])
  have hexecuted : m.wired.executed =
      ⟨f m.movedOn (m.memory.read m.wired.next.operand.address).1,
        (m.memory.read m.wired.next.operand.address).2⟩ := by
    rw [Wired.executed, heffect, hready]
    rfl
  obtain ⟨_, hstep⟩ := stepCpu_of_executed hstall hexecuted
  have hdma : (m.memory.read m.wired.next.operand.address).2.oamDma = false :=
    m.memory.oamDma_read _
  constructor
  case ram | ppu | board =>
    rw [hstep]
    rfl
  case answer =>
    rw [hstep, hdma]
    rfl

end Machine

/-- Work RAM and the memory of a cartridge answer without a change. -/
theorem CpuMemory.quiet (m : CpuMemory UxRom) : Bus.Quiet m := fun _ haddr =>
  congrArg Prod.snd (read_eq_byteAt haddr)

namespace Console

/-- **Accesses from outside and by the CPU.** On a console whose CPU has nothing to wait for and no
interrupt to serve, with the next instruction in memory: a store leaves work RAM, picture unit and
board as the same write from outside does, a copied page included, and a load gets the byte and
leaves what a read from outside does. Only the store that starts a transfer does more: the CPU waits
for it, and for one from outside it does not. -/
theorem accesses_from_outside (m : Console) (hstall : m.cpu.stall = 0)
    (hinterrupt : m.cpu.interrupt = .none) (hfetch : m.wired.FetchesFromMemory) :
    (∀ addr value, m.Stores addr value → m.StoreAgrees addr value ∧
      (m.stepCpu.2.cpu.stall = (m.write addr value).cpu.stall ↔ addr ≠ oamDmaAddress)) ∧
    ∀ addr f, m.Loads addr f → m.LoadAgrees addr f := by
  constructor
  · intro addr value hstores
    have hagrees := Machine.storeAgrees m.memory.quiet hstall hinterrupt hfetch hstores
    refine ⟨hagrees, ?_⟩
    rw [hagrees.waits, hagrees.untouched, hstall]
    by_cases haddr : addr = oamDmaAddress
    · simp [haddr]
    · simp [haddr]
  · intro addr f hloads
    exact Machine.loadAgrees m.memory.quiet hstall hinterrupt hfetch hloads

/-- An instruction at 8000 lies in memory. -/
theorem fetchesFromMemory_of_next {m : Console} {i : Instruction} (hpc : m.cpu.pc = 0x8000)
    (hnext : m.wired.next = i) (hsize : i.opcode.size = 3) : m.wired.FetchesFromMemory := by
  intro k hk
  rw [hnext, hsize] at hk
  right
  show 0x6000 ≤ m.cpu.pc + UInt16.ofNat k
  rw [hpc]
  have hplaces : ∀ k < 3, (0x6000 : UInt16) ≤ 0x8000 + UInt16.ofNat k := by decide
  exact hplaces k hk

/-- A program that starts with a store of A. -/
theorem stores_of_next {m : Console} {addr : UInt16}
    (hnext : m.wired.next = ⟨0x8D, ⟨addr, false⟩, 0x8003⟩) : m.Stores addr m.cpu.a := by
  refine ⟨fun c => c.a, ?_, ?_, rfl⟩
  · rw [hnext]
    show (Opcode.ofByte 0x8D).mnemonic.effect = _
    rfl
  · rw [hnext]

/-- A program that starts with a load of A. -/
theorem loads_of_next {m : Console} {addr : UInt16}
    (hnext : m.wired.next = ⟨0xAD, ⟨addr, false⟩, 0x8003⟩) : m.Loads addr Cpu.setA := by
  constructor
  · rw [hnext]
    show (Opcode.ofByte 0xAD).mnemonic.effect = _
    rfl
  · rw [hnext]

/-- A store that starts a transfer, and a load from a register that answers by its history. -/
theorem accesses_from_outside_accessProgram :
    (∃ m, ofCartridge (.ofBank (accessProgram 0x8D 0x14 0x40) #[]) {} = .ok m ∧
      m.Stores oamDmaAddress m.cpu.a ∧ m.StoreAgrees oamDmaAddress m.cpu.a) ∧
    ∃ m, ofCartridge (.ofBank (accessProgram 0xAD 0x07 0x20) #[]) {} = .ok m ∧
      m.Loads 0x2007 Cpu.setA ∧ m.LoadAgrees 0x2007 Cpu.setA := by
  constructor
  · obtain ⟨m, hm, -, htiming, hpc, hnext⟩ :=
      ofCartridge_accessProgram 0x8D 0x14 0x40 (by decide) (by decide) #[]
    have hstores : m.Stores oamDmaAddress m.cpu.a := stores_of_next hnext
    have hagrees := (accesses_from_outside m (congrArg Cpu.Timing.stall htiming)
      (congrArg Cpu.Timing.interrupt htiming)
      (fetchesFromMemory_of_next hpc hnext (by decide))).1 _ _ hstores
    exact ⟨m, hm, hstores, hagrees.1⟩
  · obtain ⟨m, hm, -, htiming, hpc, hnext⟩ :=
      ofCartridge_accessProgram 0xAD 0x07 0x20 (by decide) (by decide) #[]
    have hloads : m.Loads 0x2007 Cpu.setA := loads_of_next hnext
    exact ⟨m, hm, hloads, (accesses_from_outside m (congrArg Cpu.Timing.stall htiming)
      (congrArg Cpu.Timing.interrupt htiming)
      (fetchesFromMemory_of_next hpc hnext (by decide))).2 _ _ hloads⟩

/-- **A transfer from outside costs the CPU nothing.** The program starts with the store that starts
a transfer. The same write from outside does not make the CPU wait. -/
theorem stall_write_accessProgram_ne :
    ∃ m, ofCartridge (.ofBank (accessProgram 0x8D 0x14 0x40) #[]) {} = .ok m ∧
      m.cpu.stall = 0 ∧ m.cpu.interrupt = .none ∧ m.wired.FetchesFromMemory ∧
      m.Stores oamDmaAddress m.cpu.a ∧
      m.stepCpu.2.cpu.stall ≠ (m.write oamDmaAddress m.cpu.a).cpu.stall := by
  obtain ⟨m, hm, -, htiming, hpc, hnext⟩ :=
    ofCartridge_accessProgram 0x8D 0x14 0x40 (by decide) (by decide) #[]
  have hstall : m.cpu.stall = 0 := congrArg Cpu.Timing.stall htiming
  have hinterrupt : m.cpu.interrupt = .none := congrArg Cpu.Timing.interrupt htiming
  have hfetch := fetchesFromMemory_of_next hpc hnext (by decide)
  have hstores : m.Stores oamDmaAddress m.cpu.a := stores_of_next hnext
  have hagrees := Machine.storeAgrees m.memory.quiet hstall hinterrupt hfetch hstores
  refine ⟨m, hm, hstall, hinterrupt, hfetch, hstores, ?_⟩
  rw [hagrees.waits, hagrees.untouched, if_pos rfl, hstall]
  omega

end Console

end Nes
