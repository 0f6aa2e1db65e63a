import Nes.Proofs.Machine.Host
import Nes.Proofs.Machine.OneBank

/-!
# What can change on a cartridge

Of a cartridge on its board only the save memory and the bytes of picture memory can change. Program
memory, the wiring and the amount of picture memory stay whatever a program or a host does. Picture
memory changes by the data port alone: its bytes are those it came with and, stored over them in
their order, the bytes written to the port while the current address lay below 2000
(`cartridge_performAll`).

The board does not know whether its picture memory came with the cartridge or was put there because
the cartridge had none, so a write changes it in both cases.
-/

set_option autoImplicit false

namespace Nes

/-! ## Stores into picture memory -/

/-- A byte stored at an address. -/
abbrev PatternStore : Type := UInt16 × UInt8

/-- Picture memory after some stores. -/
def storePatterns (chr : Array UInt8) (stores : List PatternStore) : Array UInt8 :=
  stores.foldl (fun chr s => chr.setIfInBounds s.1.toNat s.2) chr

theorem storePatterns_append (chr : Array UInt8) (stores stores' : List PatternStore) :
    storePatterns chr (stores ++ stores') = storePatterns (storePatterns chr stores) stores' :=
  List.foldl_append

theorem size_storePatterns (chr : Array UInt8) (stores : List PatternStore) :
    (storePatterns chr stores).size = chr.size := by
  induction stores generalizing chr with
  | nil => rfl
  | cons s stores ih => exact (ih _).trans Array.size_setIfInBounds

namespace Ppu

variable {μ : Type} [Board μ]

/-- What an event stores into picture memory: a byte written to the data port while the current
address lies below 2000. -/
def patternStores (p : Ppu) : Event μ → List PatternStore
  | .write _ addr value =>
      if Register.at? addr = some .data ∧ p.scroll.v % 0x4000 < 0x2000 then
        [(p.scroll.v % 0x4000, value)]
      else []
  | _ => []

/-- What the events of a run store into picture memory. -/
def runStores : List (Event μ) → Ppu → List PatternStore
  | [], _ => []
  | e :: es, p => p.patternStores e ++ runStores es (p.after e)

theorem runStores_append (es es' : List (Event μ)) (p : Ppu) :
    runStores (es ++ es') p = runStores es p ++ runStores es' (run es p) := by
  induction es generalizing p with
  | nil => rfl
  | cons e es ih => rw [List.cons_append, runStores, ih, runStores, List.append_assoc, run_cons]

end Ppu

/-! ## Cartridges through stores -/

/-- One cartridge has become another by stores into its picture memory, and maybe by stores into its
save memory. -/
structure Cartridge.Stored (stores : List PatternStore) (c c' : Cartridge) : Prop where
  prg : c'.prg = c.prg
  mirroring : c'.mirroring = c.mirroring
  mapper : c'.mapper = c.mapper
  battery : c'.battery = c.battery
  chr : c'.chr = storePatterns c.chr stores

namespace Cartridge.Stored

theorem refl (c : Cartridge) : Stored [] c c := ⟨rfl, rfl, rfl, rfl, rfl⟩

theorem trans {stores stores' : List PatternStore} {c c' c'' : Cartridge}
    (h : Stored stores c c') (h' : Stored stores' c' c'') : Stored (stores ++ stores') c c'' where
  prg := h'.prg.trans h.prg
  mirroring := h'.mirroring.trans h.mirroring
  mapper := h'.mapper.trans h.mapper
  battery := h'.battery.trans h.battery
  chr := by rw [h'.chr, h.chr, storePatterns_append]

end Cartridge.Stored

/-! ## Accesses -/

/-- A write by the CPU stores nothing into picture memory. -/
theorem UxRom.stored_cpuWrite (u : UxRom) (addr : UInt16) (value : UInt8) :
    Cartridge.Stored [] u.cartridge (u.cpuWrite addr value).cartridge := by
  unfold cpuWrite
  split
  · exact ⟨rfl, rfl, rfl, rfl, rfl⟩
  · split <;> exact ⟨rfl, rfl, rfl, rfl, rfl⟩

theorem Ppu.stored_writeRegister (p : Ppu) (u : UxRom) (addr : UInt16) (value : UInt8) :
    Cartridge.Stored (p.patternStores (.write u addr value)) u.cartridge
      (p.writeRegister u addr value).2.cartridge := by
  unfold writeRegister
  dsimp only
  split
  case h_7 h =>
    -- the data port reaches the board if the address lies in its window
    rw [patternStores, writeData, Vram.write]
    by_cases hv : p.scroll.v % 0x4000 < 0x2000
    · rw [if_pos ⟨h, hv⟩, if_pos hv]
      show Cartridge.Stored _ _ (u.ppuWrite (p.scroll.v % 0x4000) value).cartridge
      rw [UxRom.ppuWrite, if_pos hv]
      exact ⟨rfl, rfl, rfl, rfl, rfl⟩
    · rw [if_neg fun h' => hv h'.2, if_neg hv]
      split <;> exact .refl _
  all_goals
    next h =>
      rw [patternStores, if_neg fun h' => by simp [h] at h']
      exact .refl _

namespace CpuMemory

theorem stored_read (m : CpuMemory UxRom) (addr : UInt16) :
    Cartridge.Stored (Ppu.runStores (m.readEvents addr) m.ppu) m.board.cartridge
      (m.read addr).2.board.cartridge := by
  unfold read readEvents
  split
  · exact .refl _
  · split
    · exact .refl _
    · split <;> exact .refl _

theorem stored_readRange (n : Nat) (m : CpuMemory UxRom) (addr : UInt16) (acc : Array UInt8) :
    Cartridge.Stored (Ppu.runStores (rangeEvents n m addr) m.ppu) m.board.cartridge
      (readRange read n m addr acc).2.board.cartridge := by
  induction n generalizing m addr acc with
  | zero => exact .refl _
  | succ n ih =>
      rw [rangeEvents, Ppu.runStores_append, ← ppu_read]
      exact (m.stored_read addr).trans (ih _ _ _)

/-- A copied page is read, and storing it touches sprite memory only. -/
theorem stored_copyPage (m : CpuMemory UxRom) (page : UInt8) :
    Cartridge.Stored
      (Ppu.runStores (rangeEvents dmaTransferSize m (pageStart page) ++
        [.storePage page (readPage read m page).1]) m.ppu)
      m.board.cartridge (m.copyPage page).board.cartridge := by
  have hread : Cartridge.Stored
      (Ppu.runStores (rangeEvents dmaTransferSize m (pageStart page)) m.ppu) m.board.cartridge
      (readPage read m page).2.board.cartridge := by
    rw [readPage]
    exact stored_readRange dmaTransferSize m (pageStart page) #[]
  have hpage : ∀ bytes (p : Ppu),
      Ppu.runStores [(.storePage page bytes : Ppu.Event UxRom)] p = [] := fun _ _ => rfl
  have hboard : (m.copyPage page).board = (readPage read m page).2.board := by
    obtain ⟨_, hcopy⟩ := m.copyPage_shape page
    rw [hcopy]
  rw [Ppu.runStores_append, hpage, List.append_nil, hboard]
  exact hread

theorem stored_write (m : CpuMemory UxRom) (addr : UInt16) (value : UInt8) :
    Cartridge.Stored (Ppu.runStores (m.writeEvents addr value) m.ppu) m.board.cartridge
      (m.write addr value).board.cartridge := by
  unfold write writeEvents
  split
  · exact .refl _
  · split
    · rw [Ppu.runStores, Ppu.runStores, List.append_nil]
      exact m.ppu.stored_writeRegister m.board _ value
    · split
      · exact m.stored_copyPage value
      · split
        · have hboard : ∀ level text, (m.note level text).board = m.board := by
            intro level text
            obtain ⟨_, hnote⟩ := m.note_shape level text
            rw [hnote]
          rw [hboard]
          exact .refl _
        · exact m.board.stored_cpuWrite addr value

end CpuMemory

namespace Traced

/-- The events of a traced memory lead from a first picture unit and a first cartridge to those of
the memory. -/
structure Stores (first : Ppu) (c : Cartridge) (m : CpuMemory UxRom) (t : Traced UxRom) : Prop where
  memory : t.memory = m
  ppu : m.ppu = Ppu.run t.events first
  stored : Cartridge.Stored (Ppu.runStores t.events first) c m.board.cartridge

theorem stores_simulation (first : Ppu) (c : Cartridge) : Bus.Simulation (Stores first c) where
  read {m t} h addr := by
    obtain ⟨rfl, hp, hs⟩ := h
    have hread := t.memory.stored_read addr
    rw [hp] at hread
    refine ⟨rfl, rfl, ?_, ?_⟩
    · show (t.memory.read addr).2.ppu = Ppu.run (t.events ++ t.memory.readEvents addr) first
      rw [Ppu.run_append, ← hp, CpuMemory.ppu_read]
    · show Cartridge.Stored (Ppu.runStores (t.events ++ t.memory.readEvents addr) first) c _
      rw [Ppu.runStores_append]
      exact hs.trans hread
  write {m t} h addr value := by
    obtain ⟨rfl, hp, hs⟩ := h
    have hwrite := t.memory.stored_write addr value
    rw [hp] at hwrite
    refine ⟨rfl, ?_, ?_⟩
    · show (t.memory.write addr value).ppu =
        Ppu.run (t.events ++ t.memory.writeEvents addr value) first
      rw [Ppu.run_append, ← hp, CpuMemory.ppu_write]
    · show Cartridge.Stored (Ppu.runStores (t.events ++ t.memory.writeEvents addr value) first) c _
      rw [Ppu.runStores_append]
      exact hs.trans hwrite
  takeOamDma {m t} h := by
    obtain ⟨rfl, hp, hs⟩ := h
    exact ⟨rfl, rfl, hp, hs⟩

end Traced

/-! ## Operations -/

namespace Machine

theorem stored_stepCpu (m : Console) :
    Cartridge.Stored (Ppu.runStores m.cpuEvents m.ppu) m.board.cartridge
      m.stepCpu.2.board.cartridge := by
  obtain ⟨journal, hj⟩ := m.traceInstruction_shape
  have h0 : Wired.Alike (Traced.Stores m.ppu m.board.cartridge) m.traceInstruction.wired
      ⟨m.cpu, ⟨m.traceInstruction.memory, []⟩⟩ := by
    rw [hj]
    exact ⟨rfl, rfl, rfl, .refl _⟩
  exact (Wired.step_alike (Traced.stores_simulation m.ppu m.board.cartridge) h0).2.bus.stored

/-- The board of a console does not count dots. -/
theorem board_dot_console (m : Console) : m.dot.board = m.board := m.board_dot

theorem stored_dots (n : Nat) (m : Console) :
    Cartridge.Stored (Ppu.runStores (dotEvents n m) m.ppu) m.board.cartridge
      (dots n m).board.cartridge := by
  induction n generalizing m with
  | zero => exact .refl _
  | succ n ih =>
      have hdots := ih m.dot
      rw [ppu_dot, board_dot_console] at hdots
      exact hdots

theorem stored_step (m : Console) :
    Cartridge.Stored (Ppu.runStores m.stepEvents m.ppu) m.board.cartridge
      m.step.2.board.cartridge := by
  rw [stepEvents, Ppu.runStores_append, ← ppu_stepCpu]
  exact m.stored_stepCpu.trans (stored_dots _ _)

theorem stored_steps (n : Nat) (m : Console) :
    Cartridge.Stored (Ppu.runStores (events n m) m.ppu) m.board.cartridge
      (m.afterSteps n).board.cartridge := by
  induction n generalizing m with
  | zero => exact .refl _
  | succ n ih =>
      rw [events, Ppu.runStores_append, ← ppu_step, afterSteps_succ]
      exact m.stored_step.trans (ih m.step.2)

theorem stored_perform (m : Console) (op : HostOp) :
    Cartridge.Stored (Ppu.runStores (m.opEvents op) m.ppu) m.board.cartridge
      (m.perform op).board.cartridge := by
  cases op with
  | step => exact m.stored_step
  | stepFrame =>
      rw [perform, stepFrame_eq_steps]
      exact stored_steps m.stepsOfFrame m
  | read addr => exact m.memory.stored_read addr
  | write addr value => exact m.memory.stored_write addr value
  | reset =>
      rw [perform, cartridge_reset]
      exact .refl _

theorem stored_performAll (ops : List HostOp) (m : Console) :
    Cartridge.Stored (Ppu.runStores (opsEvents ops m) m.ppu) m.board.cartridge
      (m.performAll ops).board.cartridge := by
  induction ops generalizing m with
  | nil => exact .refl _
  | cons op ops ih =>
      rw [opsEvents, Ppu.runStores_append, ← ppu_perform, performAll_cons]
      exact (m.stored_perform op).trans (ih _)

end Machine

theorem UxRom.cartridge_boardFor {c : Cartridge} {u : UxRom} (h : boardFor c = .ok u) :
    u.cartridge = c := by
  unfold boardFor UxRom.ofCartridge at h
  split at h
  · split at h
    · cases h
      rfl
    · cases h
  · cases h

/-- The cartridge of a console is the one it was brought up with. -/
theorem Console.cartridge_ofCartridge {c : Cartridge} {journal : Journal} {m : Console}
    (h : Console.ofCartridge c journal = .ok m) : m.board.cartridge = c := by
  unfold Console.ofCartridge at h
  cases hb : boardFor c with
  | error e => simp [hb, bind, Except.bind] at h
  | ok board =>
      simp only [hb, bind, Except.bind, pure, Except.pure, Except.ok.injEq] at h
      rw [← h, Machine.cartridge_reset]
      exact UxRom.cartridge_boardFor hb

/-! ## Consoles -/

/-- **What can change on the cartridge of a console.** After any operations of a host, program
memory, wiring and the amount of picture memory are those the console was brought up with, and
picture memory holds the bytes it came with under those that the data port has stored since. -/
theorem Console.cartridge_performAll {c : Cartridge} {journal : Journal} {m : Console}
    (h : Console.ofCartridge c journal = .ok m) (ops : List HostOp) :
    let c' := (m.performAll ops).board.cartridge
    c'.prg = c.prg ∧ c'.mirroring = c.mirroring ∧ c'.mapper = c.mapper ∧ c'.battery = c.battery ∧
      c'.chr.size = c.chr.size ∧
      c'.chr = storePatterns c.chr (Ppu.runStores (m.opsEvents ops) .powerOn) := by
  have hstored := Machine.stored_performAll ops m
  rw [Console.cartridge_ofCartridge h, Console.ppu_ofCartridge h] at hstored
  refine ⟨hstored.prg, hstored.mirroring, hstored.mapper, hstored.battery, ?_, hstored.chr⟩
  rw [hstored.chr, size_storePatterns]

/-! ## A cartridge with picture memory of its own -/

/-- Picture memory as a cartridge may bring it. -/
def patternRom : Array UInt8 := Array.replicate chrBankSize 0x11

/-- A write to the data port of a console whose cartridge has picture memory of its own. -/
theorem Console.cartridge_performAll_patternRom :
    ∃ m, Console.ofCartridge (.ofBank (fun _ => 0) patternRom) {} = .ok m ∧
      (m.performAll [.write 0x2007 0x55]).board.cartridge.prg =
        Array.ofFn fun _ : Fin prgBankSize => 0 := by
  obtain ⟨m, hm, -, -⟩ := Console.ofCartridge_ofBank (fun _ => 0) patternRom {}
  obtain ⟨hprg, -⟩ := Console.cartridge_performAll hm [.write 0x2007 0x55]
  exact ⟨m, hm, by rw [hprg, Cartridge.prg_ofBank]⟩

/-- **Picture memory that came with the cartridge is written all the same.** -/
theorem Console.chr_write_patternRom_ne :
    ∃ m, Console.ofCartridge (.ofBank (fun _ => 0) patternRom) {} = .ok m ∧
      m.board.cartridge.chr = patternRom ∧
      (m.performAll [.write 0x2007 0x55]).board.cartridge.chr ≠ patternRom := by
  obtain ⟨m, hm, hboard, -⟩ := Console.ofCartridge_ofBank (fun _ => 0) patternRom {}
  have hppu := Console.ppu_ofCartridge hm
  have hchr : m.board.cartridge.chr = patternRom := by
    rw [hboard]
    exact Cartridge.chr_ofParts_of_ne (by simp [patternRom, chrBankSize])
  refine ⟨m, hm, hchr, fun hsame => ?_⟩
  have hstored := (Machine.stored_performAll [.write 0x2007 0x55] m).chr
  -- the current address is 0 at power-on
  have hstores : Ppu.runStores (m.opsEvents [.write 0x2007 0x55]) .powerOn = [(0, 0x55)] := rfl
  rw [hsame, hchr, hppu, hstores] at hstored
  have hbyte := congrArg (fun chr => chr[0]?) hstored
  simp [storePatterns, patternRom, chrBankSize] at hbyte

end Nes
