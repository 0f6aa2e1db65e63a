import Nes.Proofs.Checked.Picture
import Nes.Proofs.Cpu.Simulation
import Nes.Proofs.Machine.Rom

/-!
# Checked accesses of the CPU

The accesses to everything the CPU reaches, with every operation checked, and a bus on which the
CPU runs with them: a guarded memory is gone after the first access that fails. On a sound memory no
access fails and the memory stays sound, so the CPU does on the guarded bus what it does on the
plain one (`Guarded.holds_simulation`).
-/

set_option autoImplicit false

namespace Nes

namespace CpuMemory

/-- A read by the CPU. -/
def readChecked (m : CpuMemory UxRom) (addr : UInt16) : Option (UInt8 × CpuMemory UxRom) :=
  if addr < 0x2000 then (m.ram.cells[addr.toNat % ramSize]?).map fun value => (value, m)
  else if addr < 0x4000 then do
    let register ← Checked.add 16 0x2000 (addr.toNat % 8)
    let r ← m.ppu.readRegisterChecked m.board (UInt16.ofNat register)
    some (r.1, { m with ppu := r.2 })
  else if addr < 0x6000 then some (0, m)
  else (m.board.cpuByteChecked addr).map fun value => (value, m)

/-- Reads as many consecutive addresses as the number says, one after the other. -/
def readRangeChecked :
    Nat → CpuMemory UxRom → UInt16 → Array UInt8 → Option (Array UInt8 × CpuMemory UxRom)
  | 0, m, _, acc => some (acc, m)
  | n + 1, m, addr, acc => do
      let r ← m.readChecked addr
      readRangeChecked n r.2 (addr + 1) (acc.push r.1)

/-- Copies a page into sprite memory. -/
def copyPageChecked (m : CpuMemory UxRom) (page : UInt8) : Option (CpuMemory UxRom) := do
  let r ← readRangeChecked dmaTransferSize m (pageStart page) #[]
  let ppu ← r.2.ppu.writeOamPageChecked page r.1
  let m := { r.2 with ppu, oamDma := true }
  some (m.note .debug fun _ => "oam dma from page $" ++ Hex.byte page)

/-- A write by the CPU. -/
def writeChecked (m : CpuMemory UxRom) (addr : UInt16) (value : UInt8) :
    Option (CpuMemory UxRom) :=
  if addr < 0x2000 then do
    let cells ← Checked.store m.ram.cells (addr.toNat % ramSize) value
    some { m with ram := ⟨cells⟩ }
  else if addr < 0x4000 then do
    let register ← Checked.add 16 0x2000 (addr.toNat % 8)
    let r ← m.ppu.writeRegisterChecked m.board (UInt16.ofNat register) value
    some { m with ppu := r.1, board := r.2 }
  else if addr = oamDmaAddress then m.copyPageChecked value
  else if addr < 0x6000 then some (m.write addr value)
  else (m.board.cpuWriteChecked addr value).map fun board => { m with board }

/-! ## Sound memories -/

/-- The picture unit is in a sound state, and the cartridge has all bytes of picture memory. -/
structure Sound (m : CpuMemory UxRom) : Prop where
  ppu : m.ppu.Sound
  chr : 0x2000 ≤ m.board.cartridge.chr.size

/-- What happens to a memory without a reset of its picture unit leads from a sound one to a sound
one. -/
theorem Sound.follows {m m' : CpuMemory UxRom} (h : m.Sound) {es : List (Ppu.Event UxRom)}
    (hes : Ppu.Event.reset ∉ es) (hppu : m'.ppu = Ppu.run es m.ppu)
    (hstored : Cartridge.Stored (Ppu.runStores es m.ppu) m.board.cartridge m'.board.cartridge) :
    m'.Sound := by
  refine ⟨hppu ▸ h.ppu.run hes, ?_⟩
  rw [hstored.chr, size_storePatterns]
  exact h.chr

theorem reset_notMem_of_isAccess {es : List (Ppu.Event UxRom)} (h : ∀ e ∈ es, e.isAccess) :
    Ppu.Event.reset ∉ es := fun hmem => by simpa [Ppu.Event.isAccess] using h _ hmem

theorem Sound.read {m : CpuMemory UxRom} (h : m.Sound) (addr : UInt16) : (m.read addr).2.Sound :=
  h.follows (reset_notMem_of_isAccess (m.isAccess_readEvents addr)) (m.ppu_read addr)
    (m.stored_read addr)

theorem Sound.write {m : CpuMemory UxRom} (h : m.Sound) (addr : UInt16) (value : UInt8) :
    (m.write addr value).Sound :=
  h.follows (reset_notMem_of_isAccess (m.isAccess_writeEvents addr value)) (m.ppu_write addr value)
    (m.stored_write addr value)

/-! ## Accesses -/

theorem registerAddressChecked_eq (addr : UInt16) :
    Checked.add 16 0x2000 (addr.toNat % 8) = some (registerAddress addr).toNat := by
  have hoffset : addr.toNat % 8 < 8 := Nat.mod_lt _ (by decide)
  rw [Checked.add_eq (by omega), registerAddress, UInt16.toNat_add, UInt16.toNat_mod]
  exact congrArg some (Nat.mod_eq_of_lt (by show 0x2000 + addr.toNat % 8 < 65536; omega)).symm

theorem readChecked_eq {m : CpuMemory UxRom} (h : m.Sound) (addr : UInt16) :
    m.readChecked addr = some (m.read addr) := by
  have hcell : addr.toNat % ramSize < ramSize := (Ram.index addr).isLt
  unfold readChecked read
  split
  · rw [Vector.getElem?_eq_getElem hcell]
    rfl
  · split
    · simp only [registerAddressChecked_eq, UInt16.ofNat_toNat, Option.bind_eq_bind,
        Option.bind_some, m.ppu.readRegisterChecked_eq h.chr]
    · split
      · rfl
      · rw [UxRom.cpuByteChecked_eq]
        rfl

theorem readRangeChecked_eq (n : Nat) {m : CpuMemory UxRom} (h : m.Sound) (addr : UInt16)
    (acc : Array UInt8) :
    readRangeChecked n m addr acc = some (readRange CpuMemory.read n m addr acc) := by
  induction n generalizing m addr acc with
  | zero => rfl
  | succ n ih =>
      rw [readRangeChecked, readChecked_eq h]
      exact ih (h.read addr) (addr + 1) (acc.push (m.read addr).1)

theorem copyPageChecked_eq {m : CpuMemory UxRom} (h : m.Sound) (page : UInt8) :
    m.copyPageChecked page = some (m.copyPage page) := by
  rw [copyPageChecked, readRangeChecked_eq dmaTransferSize h, copyPage, readPage]
  generalize readRange CpuMemory.read dmaTransferSize m (pageStart page) #[] = r
  simp only [Option.bind_eq_bind, Option.bind_some, Ppu.writeOamPageChecked_eq]

theorem writeChecked_eq {m : CpuMemory UxRom} (h : m.Sound) (addr : UInt16) (value : UInt8) :
    m.writeChecked addr value = some (m.write addr value) := by
  have hcell : addr.toNat % ramSize < ramSize := (Ram.index addr).isLt
  unfold writeChecked write
  split
  · rw [Checked.store_eq m.ram.cells hcell value]
    rfl
  · split
    · simp only [registerAddressChecked_eq, UInt16.ofNat_toNat, Option.bind_eq_bind,
        Option.bind_some, m.ppu.writeRegisterChecked_eq h.chr]
    · split
      · exact copyPageChecked_eq h value
      · split
        · rfl
        · rw [UxRom.cpuWriteChecked_eq]
          rfl

end CpuMemory

/-! ## The guarded bus -/

/-- What the CPU reaches, as long as no access has failed. -/
structure Guarded where
  memory : Option (CpuMemory UxRom)

instance : Bus Guarded where
  read g addr :=
    match g.memory.bind fun m => m.readChecked addr with
    | none => (0, ⟨none⟩)
    | some r => (r.1, ⟨some r.2⟩)
  write g addr value := ⟨g.memory.bind fun m => m.writeChecked addr value⟩
  takeOamDma g :=
    match g.memory with
    | none => (false, ⟨none⟩)
    | some m =>
        let r := Bus.takeOamDma m
        (r.1, ⟨some r.2⟩)

/-- No access has failed, and the memory is sound. -/
structure Guarded.Holds (m : CpuMemory UxRom) (g : Guarded) : Prop where
  memory : g = ⟨some m⟩
  sound : m.Sound

/-- **No access fails on the guarded bus**, and all of them do what they do on the plain one. -/
theorem Guarded.holds_simulation : Bus.Simulation Holds where
  read {m g} h addr := by
    obtain ⟨rfl, hs⟩ := h
    have hread : Bus.read (⟨some m⟩ : Guarded) addr =
        ((m.read addr).1, ⟨some (m.read addr).2⟩) := by
      show (match (some m).bind fun m => m.readChecked addr with
        | none => ((0 : UInt8), (⟨none⟩ : Guarded))
        | some r => (r.1, ⟨some r.2⟩)) = _
      rw [Option.bind_some, CpuMemory.readChecked_eq hs]
    rw [hread]
    exact ⟨rfl, rfl, hs.read addr⟩
  write {m g} h addr value := by
    obtain ⟨rfl, hs⟩ := h
    exact ⟨congrArg Guarded.mk (CpuMemory.writeChecked_eq hs addr value), hs.write addr value⟩
  takeOamDma {m g} h := by
    obtain ⟨rfl, hs⟩ := h
    exact ⟨rfl, rfl, hs.ppu, hs.chr⟩

end Nes
