import Nes.Proofs.Machine.HostAccess
import Nes.Proofs.Machine.Routing
import Nes.Proofs.Ppu.Fault

/-!
# Machines that lack nothing

A console whose cartridge has all bytes of picture memory never misses one: every action leaves the
fault flag clear (`CpuMemory.Complete.act`). With a shorter picture memory a program can ask for a
byte that is not there, and then the flag stays set for good (`Machine.fault_act`).
-/

set_option autoImplicit false

namespace Nes

/-- Once a byte has been missed, it stays missed. -/
theorem Machine.fault_act {μ : Type} [Board μ] {m : Machine μ} (h : m.ppu.fault = true)
    (a : Action) : (m.act a).ppu.fault = true := by
  cases a with
  | stepCpu =>
      rw [act, ppu_stepCpu]
      exact Ppu.fault_run_of_fault h _
  | dot =>
      rw [act, ppu_dot]
      exact Ppu.fault_step_of_fault h m.board
  | read addr =>
      show (m.memory.read addr).2.ppu.fault = true
      rw [CpuMemory.ppu_read]
      exact Ppu.fault_run_of_fault h _
  | write addr value =>
      show (m.memory.write addr value).ppu.fault = true
      rw [CpuMemory.ppu_write]
      exact Ppu.fault_run_of_fault h _
  | reset =>
      rw [act, ppu_reset]
      exact h

/-! ## Complete memories -/

namespace CpuMemory

/-- The cartridge has all bytes of picture memory, and none has been missed. -/
structure Complete (m : CpuMemory UxRom) : Prop where
  chr : 0x2000 ≤ m.board.cartridge.chr.size
  fault : m.ppu.fault = false

variable {m m' : CpuMemory UxRom}

/-- What happens to a memory by events that find a complete cartridge leads from a complete memory
to a complete one. -/
theorem Complete.follows (h : m.Complete) {es : List (Ppu.Event UxRom)}
    (hes : ∀ e ∈ es, e.Complete) (hppu : m'.ppu = Ppu.run es m.ppu)
    (hstored : Cartridge.Stored (Ppu.runStores es m.ppu) m.board.cartridge m'.board.cartridge) :
    m'.Complete := by
  constructor
  · rw [hstored.chr, size_storePatterns]
    exact h.chr
  · rw [hppu]
    exact Ppu.fault_run hes h.fault

theorem Complete.readEvents (h : m.Complete) (addr : UInt16) :
    ∀ e ∈ m.readEvents addr, e.Complete := by
  unfold CpuMemory.readEvents
  split
  · simp
  · split
    · intro e he
      rw [List.mem_singleton.mp he]
      exact UxRom.completeChr h.chr
    · simp

theorem Complete.read (h : m.Complete) (addr : UInt16) : (m.read addr).2.Complete :=
  h.follows (h.readEvents addr) (m.ppu_read addr) (m.stored_read addr)

theorem Complete.rangeEvents (n : Nat) (h : m.Complete) (addr : UInt16) :
    ∀ e ∈ rangeEvents n m addr, e.Complete := by
  induction n generalizing m addr with
  | zero => simp [CpuMemory.rangeEvents]
  | succ n ih =>
      intro e he
      rcases List.mem_append.mp he with hfirst | hrest
      · exact h.readEvents addr e hfirst
      · exact ih (h.read addr) _ e hrest

theorem Complete.writeEvents (h : m.Complete) (addr : UInt16) (value : UInt8) :
    ∀ e ∈ m.writeEvents addr value, e.Complete := by
  unfold CpuMemory.writeEvents
  split
  · simp
  · split
    · intro e he
      rw [List.mem_singleton.mp he]
      exact UxRom.completeChr h.chr
    · split
      · intro e he
        rcases List.mem_append.mp he with hread | hstore
        · exact h.rangeEvents _ _ e hread
        · rw [List.mem_singleton.mp hstore]
          trivial
      · simp

theorem Complete.write (h : m.Complete) (addr : UInt16) (value : UInt8) :
    (m.write addr value).Complete :=
  h.follows (h.writeEvents addr value) (m.ppu_write addr value) (m.stored_write addr value)

/-- The CPU finds a complete memory throughout its step. -/
theorem complete_simulation :
    Bus.Simulation fun (m m' : CpuMemory UxRom) => m' = m ∧ m.Complete where
  read {m m'} h addr := by
    obtain ⟨rfl, h⟩ := h
    exact ⟨rfl, rfl, h.read addr⟩
  write {m m'} h addr value := by
    obtain ⟨rfl, h⟩ := h
    exact ⟨rfl, h.write addr value⟩
  takeOamDma {m m'} h := by
    obtain ⟨rfl, h⟩ := h
    exact ⟨rfl, rfl, h.chr, h.fault⟩

/-- **A complete memory stays complete**, whatever happens to the machine. -/
theorem Complete.act {m : Console} (h : m.memory.Complete) (a : Action) :
    (m.act a).memory.Complete := by
  cases a with
  | stepCpu =>
      obtain ⟨_, htraced⟩ := m.traceInstruction_shape
      have halike : Wired.Alike (fun (m m' : CpuMemory UxRom) => m' = m ∧ m.Complete)
          m.traceInstruction.wired m.traceInstruction.wired := by
        rw [htraced]
        exact ⟨rfl, rfl, h.chr, h.fault⟩
      have hstepped := (Wired.step_alike complete_simulation halike).2.bus.2
      exact ⟨hstepped.chr, hstepped.fault⟩
  | dot =>
      constructor
      · show 0x2000 ≤ m.dot.board.cartridge.chr.size
        rw [m.board_dot_console]
        exact h.chr
      · show m.dot.ppu.fault = false
        rw [m.ppu_dot]
        exact (m.ppu.fault_step (UxRom.completeChr h.chr)).trans h.fault
  | read addr =>
      have hread := h.read addr
      exact ⟨hread.chr, hread.fault⟩
  | write addr value =>
      have hwritten := h.write addr value
      exact ⟨hwritten.chr, hwritten.fault⟩
  | reset =>
      constructor
      · show 0x2000 ≤ m.reset.board.cartridge.chr.size
        rw [m.cartridge_reset]
        exact h.chr
      · show m.reset.ppu.fault = false
        rw [m.ppu_reset]
        exact h.fault

end CpuMemory

namespace Console

/-- A console that comes up with enough picture memory has a complete memory. -/
theorem complete_ofCartridge {c : Cartridge} {journal : Journal} {m : Console}
    (h : Console.ofCartridge c journal = .ok m) (hchr : 0x2000 ≤ c.chr.size) :
    m.memory.Complete := by
  constructor
  · show 0x2000 ≤ m.board.cartridge.chr.size
    rw [cartridge_ofCartridge h]
    exact hchr
  · show m.ppu.fault = false
    rw [ppu_ofCartridge h]
    rfl

end Console

namespace Machine

theorem fault_actAll {μ : Type} [Board μ] {m : Machine μ} (h : m.ppu.fault = true)
    (as : List Action) : (m.actAll as).ppu.fault = true :=
  actAll_invariant (P := fun m => m.ppu.fault = true) h (fun _ a hm => fault_act hm a) as

theorem complete_actAll {m : Console} (h : m.memory.Complete) (as : List Action) :
    (m.actAll as).memory.Complete :=
  actAll_invariant (P := fun m => m.memory.Complete) h (fun _ a hm => hm.act a) as

/-- A step that starts with a fault of the CPU ends with it, and so do all steps from there. -/
theorem fault_afterSteps {μ : Type} [Board μ] {m : Machine μ} (h : m.stepCpu.2.ppu.fault = true)
    {n : Nat} (hn : 0 < n) : (m.afterSteps n).ppu.fault = true := by
  obtain ⟨k, rfl⟩ := Nat.exists_eq_succ_of_ne_zero (Nat.ne_of_gt hn)
  obtain ⟨as, has⟩ := m.step.2.exists_actions_afterSteps k
  have hstep : m.step.2.ppu.fault = true := by
    show (dots (m.stepCpu.1 * dotsPerCycle) m.stepCpu.2).ppu.fault = true
    rw [← actAll_replicate_dot]
    exact fault_actAll h _
  rw [afterSteps_succ, has]
  exact fault_actAll hstep as

end Machine

/-! ## A cartridge with one byte of picture memory -/

namespace Ppu

/-- The data port with a single byte of picture memory lacks what lies behind it. -/
theorem lacksByte_of_size {p : Ppu} {u : UxRom} (hv : p.scroll.v < 0x2000)
    (hsize : u.cartridge.chr.size ≤ p.scroll.v.toNat) : p.lacksByte u = true := by
  have hpattern : p.scroll.v % 0x4000 = p.scroll.v := by
    apply UInt16.toNat_inj.mp
    rw [UInt16.toNat_mod]
    exact Nat.mod_eq_of_lt (Nat.lt_trans (UInt16.lt_iff_toNat_lt.mp hv) (by decide))
  rw [lacksByte, Vram.read, hpattern, if_pos hv]
  show (if p.scroll.v < 0x2000 then u.cartridge.chr[p.scroll.v.toNat]? else some 0).isNone = true
  rw [if_pos hv, Array.getElem?_eq_none hsize]
  rfl

/-- The first read of the data port asks for byte 0 and moves on to byte 1. -/
theorem snd_readRegister_powerOn (u : UxRom) :
    ∃ buffer, (powerOn.readRegister u 0x2007).2 =
      { powerOn with
        scroll := { v := 1 }
        buffer := buffer
        fault := powerOn.lacksByte u } := by
  have hadvance : powerOn.scroll.advance (if powerOn.incrementsBy32 then 32 else 1) =
      { v := 1 } := by decide
  have hdata : (powerOn.readRegister u 0x2007).2 =
      ({ powerOn with
        buffer := powerOn.peek u 0
        fault := powerOn.lacksByte u } : Ppu).advanceAddress := rfl
  refine ⟨powerOn.peek u 0, ?_⟩
  rw [hdata, ← hadvance]
  rfl

end Ppu

namespace Console

/-- The byte that a program of one access asks for is missing when the port has been read before. -/
theorem exists_missing_byte :
    ∃ m, ofCartridge (.ofBank (accessProgram 0xAD 0x07 0x20) #[0]) {} = .ok m ∧
      (m.read 0x2007).2.ppu.fault = false ∧ (m.read 0x2007).2.stepCpu.2.ppu.fault = true := by
  obtain ⟨m, hm, hboard, htiming, hpc, -⟩ :=
    ofCartridge_accessProgram 0xAD 0x07 0x20 (by decide) (by decide) #[0]
  have hchr : m.board.cartridge.chr = #[0] := by
    rw [hboard]
    rfl
  have hprg : m.board.cartridge.prg = Array.ofFn (accessProgram 0xAD 0x07 0x20) := by
    rw [hboard, Cartridge.prg_ofBank]
  -- the read from outside answers the only byte and moves the port on
  obtain ⟨buffer, hport⟩ := Ppu.snd_readRegister_powerOn m.board
  have hfound : Ppu.powerOn.lacksByte m.board = false := by
    show (m.board.cartridge.chr[0]?).isNone = false
    rw [hchr]
    rfl
  let read := (m.read 0x2007).2
  have hppu : read.ppu = { Ppu.powerOn with scroll := { v := 1 }, buffer := buffer } := by
    show (m.ppu.readRegister m.board 0x2007).2 = _
    rw [ppu_ofCartridge hm, hport, hfound]
    rfl
  -- the CPU asks for the byte behind it
  have hnext : read.wired.next = ⟨0xAD, ⟨wordOf 0x07 0x20, false⟩, 0x8003⟩ :=
    Wired.next_accessProgram (by decide) (by decide) hprg
      (congrArg Cpu.Timing.interrupt htiming) hpc
  have hloads : read.Loads 0x2007 Cpu.setA := loads_of_next hnext
  have hfetch : read.wired.FetchesFromMemory := fetchesFromMemory_of_next hpc hnext (by decide)
  have hagrees := Machine.loadAgrees (m := read) (CpuMemory.quiet _)
    (congrArg Cpu.Timing.stall htiming) (congrArg Cpu.Timing.interrupt htiming) hfetch hloads
  refine ⟨m, hm, ?_, ?_⟩
  · show read.ppu.fault = false
    rw [hppu]
    rfl
  · show read.stepCpu.2.ppu.fault = true
    have hone : read.ppu.scroll.v = 1 := by rw [hppu]
    have hlacks : read.ppu.lacksByte m.board = true := by
      apply Ppu.lacksByte_of_size
      · rw [hone]
        decide
      · rw [hone, hchr]
        decide
    have hport : Register.at? 0x2007 = some .data := by decide
    obtain ⟨_, _, hread⟩ := read.ppu.snd_readRegister_data m.board hport
    rw [hagrees.ppu]
    show (read.ppu.readRegister m.board 0x2007).2.fault = true
    rw [hread]
    dsimp only
    rw [hlacks, Bool.or_true]

end Console

end Nes
