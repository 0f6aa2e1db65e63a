import Nes.Machine.Basic
import Nes.Proofs.Cpu.Flags
import Nes.Proofs.Ppu.Fault

/-!
# Undocumented families and their halves

Seven undocumented families do the work of two documented ones at one address (`Mnemonic.halves?`).
The halves access memory twice, so the address has to be ordinary memory there
(`Bus.OrdinaryAt`): what the first half writes is what the second one reads. Two more families work
on a byte of the program, read once by either side.

The flags that the first half leaves behind are the point. Zero and negative are set again by the
second half, whatever they were (`Cpu.updateZN_updateZN`); the carry is not, where the second half
adds or subtracts.
-/

set_option autoImplicit false

namespace Nes

/-! ## Flags that are set again -/

namespace Cpu

variable (c : Cpu) {mask other : UInt8}

/-- Setting flags changes the status byte only, so the CPUs agree if its bits do. -/
theorem eq_of_getElem_p {c d : Cpu} (h : { c with p := d.p } = d)
    (hbits : ∀ (i : Nat) (hi : i < 8), c.p.toBitVec[i] = d.p.toBitVec[i]) : c = d := by
  have hp : c.p = d.p := UInt8.toBitVec_inj.mp (BitVec.eq_of_getElem_eq hbits)
  rw [← hp] at h
  exact h

/-- Setting a flag again leaves nothing of the first time. -/
theorem setFlag_setFlag (on on' : Bool) :
    (c.setFlag mask on).setFlag mask on' = c.setFlag mask on' := by
  refine eq_of_getElem_p rfl fun i hi => ?_
  simp only [getElem_setFlag _ _ _ hi]
  cases mask.toBitVec[i] <;> simp

/-- Different flags can be set in either order. -/
theorem setFlag_comm (h : other &&& mask = 0) (on on' : Bool) :
    (c.setFlag mask on).setFlag other on' = (c.setFlag other on').setFlag mask on := by
  refine eq_of_getElem_p rfl fun i hi => ?_
  have hbit := getElem_and_eq_false h hi
  simp only [getElem_setFlag _ _ _ hi]
  cases hmask : mask.toBitVec[i] <;> simp_all

/-- The flags of a result replace those of the result before. -/
theorem updateZN_updateZN (value value' : UInt8) :
    (c.updateZN value).updateZN value' = c.updateZN value' := by
  unfold updateZN
  rw [setFlag_comm _ (show Status.zero &&& Status.negative = 0 by decide), setFlag_setFlag,
    setFlag_setFlag]

theorem setFlag_carry_updateZN (value : UInt8) (on : Bool) :
    (c.updateZN value).setFlag Status.carry on = (c.setFlag Status.carry on).updateZN value := by
  unfold updateZN
  rw [setFlag_comm _ (show Status.carry &&& Status.negative = 0 by decide),
    setFlag_comm _ (show Status.carry &&& Status.zero = 0 by decide)]

/-! ## Halves -/

theorem compareA_updateZN (value value' : UInt8) :
    (c.updateZN value).compareA value' = c.compareA value' := by
  show ((c.updateZN value).updateZN _).setFlag Status.carry _ = _
  rw [updateZN_updateZN]
  rfl

theorem subtractWithCarry_updateZN (value value' : UInt8) :
    (c.updateZN value).subtractWithCarry value' = c.subtractWithCarry value' := by
  have hcarry : (c.updateZN value).carry = c.carry := by
    show (c.updateZN value).bits Status.carry = c.bits Status.carry
    rw [updateZN, bits_setFlag _ (by decide), bits_setFlag _ (by decide)]
  have ha : (c.updateZN value).a = c.a := rfl
  have hresult : ∀ result : UInt8, ({ c.updateZN value with a := result } : Cpu).updateZN result =
      ({ c with a := result } : Cpu).updateZN result := fun result =>
    ({ c with a := result } : Cpu).updateZN_updateZN value result
  unfold subtractWithCarry
  rw [hcarry, ha]
  simp only [hresult]

/-- Loading both registers sets the flags once. -/
theorem setX_setA (value : UInt8) : (c.setA value).setX value = c.loadAX value :=
  ({ c with a := value, x := value } : Cpu).updateZN_updateZN value value

/-- What is shifted has set flags before, and the shift sets them all again. -/
theorem andShift_eq (value : UInt8) :
    c.andShift value =
      { ((c.andA value).shiftRight (c.andA value).a).2 with
        a := ((c.andA value).shiftRight (c.andA value).a).1 } := by
  have hflags := ({ c with a := c.a &&& value } : Cpu).setFlag_carry_updateZN (c.a &&& value)
    (decide ((c.a &&& value) &&& 0x01 ≠ 0))
  have hshift : ((c.andA value).shiftRight (c.a &&& value)).2 =
      (({ c with a := c.a &&& value } : Cpu).setFlag Status.carry
        (decide ((c.a &&& value) &&& 0x01 ≠ 0))).updateZN ((c.a &&& value) >>> 1) := by
    show ((({ c with a := c.a &&& value } : Cpu).updateZN _).setFlag Status.carry _).updateZN _ = _
    rw [hflags, updateZN_updateZN]
  have ha : (c.andA value).a = c.a &&& value := rfl
  rw [ha, hshift]
  rfl

end Cpu

/-- The documented families that an undocumented one combines, in their order. -/
def Mnemonic.halves? : Mnemonic → Option (Mnemonic × Mnemonic)
  | slo => some (asl, ora)
  | rla => some (rol, and)
  | sre => some (lsr, eor)
  | rra => some (ror, adc)
  | dcp => some (dec, cmp)
  | isc => some (inc, sbc)
  | lax => some (lda, ldx)
  | _ => none

/-- An effect does to the registers and a byte what two others do one after the other. -/
inductive Effect.Combines : Effect → Effect → Effect → Prop
  | modify {whole first : Cpu → UInt8 → UInt8 × Cpu} {second : Cpu → UInt8 → Cpu}
      (h : ∀ c value, whole c value = Cpu.modifyThen first second c value) :
      Combines (.modify whole) (.modify first) (.load second)
  | load {whole first second : Cpu → UInt8 → Cpu}
      (h : ∀ c value, whole c value = second (first c value) value) :
      Combines (.load whole) (.load first) (.load second)

theorem Mnemonic.combines_effect {m first second : Mnemonic} (h : m.halves? = some (first, second)) :
    m.effect.Combines first.effect second.effect := by
  cases m <;> cases h
  case slo | rla | sre | rra => exact .modify fun _ _ => rfl
  case dcp =>
    exact .modify fun c value => congrArg (value - 1, ·) (c.compareA_updateZN _ _).symm
  case isc =>
    exact .modify fun c value => congrArg (value + 1, ·) (c.subtractWithCarry_updateZN _ _).symm
  case lax => exact .load fun c value => (c.setX_setA value).symm

/-- Only documented families work on the accumulator. -/
theorem Opcode.mode_ne_accumulator {b : UInt8} (h : (Opcode.ofByte b).mnemonic.halves? ≠ none) :
    (Opcode.ofByte b).mode ≠ .accumulator := by
  have hfields : ∀ (group : Fin 4) (column row : Fin 8),
      (Mnemonic.line group column)[row].halves? ≠ none →
        Mode.ofFields group column row ≠ .accumulator := by
    decide
  exact hfields _ _ _ h

/-! ## On a bus -/

/-- An address is ordinary memory: reading it changes nothing, and what is written is read. -/
structure Bus.OrdinaryAt {β : Type} [Bus β] (b : β) (addr : UInt16) : Prop where
  quiet : (Bus.read b addr).2 = b
  written : ∀ value, Bus.read (Bus.write b addr value) addr = (value, Bus.write b addr value)

namespace Bus.OrdinaryAt

variable {β : Type} [Bus β] {b : β} {addr : UInt16} (h : OrdinaryAt b addr)
include h

theorem read_eq (c : Cpu) :
    (⟨c, b⟩ : Wired β).read addr = ((Bus.read b addr).1, ⟨c, b⟩) := by
  show (_, (⟨c, (Bus.read b addr).2⟩ : Wired β)) = _
  rw [h.quiet]

theorem read_write_eq (c : Cpu) (value : UInt8) :
    (⟨c, Bus.write b addr value⟩ : Wired β).read addr =
      (value, ⟨c, Bus.write b addr value⟩) := by
  show ((Bus.read (Bus.write b addr value) addr).1,
    (⟨c, (Bus.read (Bus.write b addr value) addr).2⟩ : Wired β)) = _
  rw [h.written]

end Bus.OrdinaryAt

/-- Work RAM is ordinary memory. -/
theorem CpuMemory.ordinaryAt_of_ram {μ : Type} [Board μ] (m : CpuMemory μ) {addr : UInt16}
    (h : addr < 0x2000) : Bus.OrdinaryAt m addr where
  quiet := by
    show (m.read addr).2 = m
    rw [read, if_pos h]
  written value := by
    show (m.write addr value).read addr = (value, m.write addr value)
    rw [write, if_pos h, read, if_pos h]
    exact congrArg (·, _) (m.ram.read_write_of_eq value rfl)

variable {β : Type} [Bus β]

/-- Carries out an instruction that has been fetched. -/
def Instruction.carryOut (i : Instruction) (s : Wired β) : Wired β :=
  i.opcode.mnemonic.effect.run i s

/-- Effects that combine do so on a bus, at an address that is ordinary memory. -/
theorem Effect.Combines.run {whole first second : Effect} (h : whole.Combines first second)
    {i j k : Instruction} {s : Wired β} (hi : i.opcode.mode ≠ .accumulator)
    (hj : j.opcode.mode ≠ .accumulator) (haddr : j.operand.address = i.operand.address)
    (haddr' : k.operand.address = i.operand.address)
    (hmemory : Bus.OrdinaryAt s.bus i.operand.address) :
    whole.run i s = second.run k (first.run j s) := by
  obtain ⟨c, b⟩ := s
  have hread := hmemory.read_eq c
  cases h with
  | @modify whole first second h =>
      have hfirst : (Effect.modify first).run j ⟨c, b⟩ =
          ⟨(first c (Bus.read b i.operand.address).1).2, Bus.write b i.operand.address
            (first c (Bus.read b i.operand.address).1).1⟩ := by
        simp only [Effect.run, if_neg hj, haddr, hread]
        rfl
      -- the second half reads what the first one has written
      rw [hfirst]
      simp only [Effect.run, if_neg hi, haddr', hread, hmemory.read_write_eq, h]
      rfl
  | @load whole first second h =>
      have hfirst : (Effect.load first).run j ⟨c, b⟩ =
          ⟨first c (Bus.read b i.operand.address).1, b⟩ := by
        simp only [Effect.run, haddr, hread]
        rfl
      -- the second half reads the same byte again
      rw [hfirst]
      simp only [Effect.run, haddr', hmemory.read_eq, h]
      rfl

/-- **Combined families are their halves.** At ordinary memory the documented families that an
undocumented one combines leave the CPU and the bus as it does, in all its modes. Two more families
work on a byte of the program: they keep in A what it shares with A, and then shift A, or copy the
sign into the carry. -/
theorem carryOut_combined (i : Instruction) (s : Wired β) :
    (∀ j k : Instruction,
      i.opcode.mnemonic.halves? = some (j.opcode.mnemonic, k.opcode.mnemonic) →
      j.opcode.mode ≠ .accumulator → j.operand.address = i.operand.address →
      k.operand.address = i.operand.address → Bus.OrdinaryAt s.bus i.operand.address →
      i.carryOut s = k.carryOut (j.carryOut s)) ∧
    (∀ j k : Instruction, i.opcode.mnemonic = .alr → j.opcode.mnemonic = .and →
      k.opcode = ⟨.lsr, .accumulator⟩ → j.operand.address = i.operand.address →
      i.carryOut s = k.carryOut (j.carryOut s)) ∧
    ∀ j : Instruction, i.opcode.mnemonic = .anc → j.opcode.mnemonic = .and →
      j.operand.address = i.operand.address →
      i.carryOut s =
        (j.carryOut s).mapCpu fun c => c.setFlag Status.carry (c.flag Status.negative) := by
  refine ⟨fun j k hhalves hj haddr haddr' hmemory => ?halves, fun j k hi hj hk haddr => ?shift,
    fun j hi hj haddr => ?sign⟩
  case halves =>
    have hi : i.opcode.mode ≠ .accumulator :=
      Opcode.mode_ne_accumulator (by rw [← Instruction.opcode, hhalves]; exact Option.some_ne_none _)
    exact (Mnemonic.combines_effect hhalves).run hi hj haddr haddr' hmemory
  case shift =>
    have hmode : k.opcode.mode = .accumulator := by rw [hk]
    rw [Instruction.carryOut, Instruction.carryOut, Instruction.carryOut, hi, hj, hk]
    simp only [Mnemonic.effect, Effect.run, if_pos hmode, haddr]
    exact congrArg (fun c => (⟨c, (s.read i.operand.address).2.bus⟩ : Wired β))
      (Cpu.andShift_eq _ _)
  case sign =>
    rw [Instruction.carryOut, Instruction.carryOut, hi, hj]
    simp only [Mnemonic.effect, Effect.run, haddr]
    rfl

/-- In work RAM, a byte is rotated right and added with the bit that has been rotated out of it. On
the same byte the two families of the program. -/
theorem carryOut_combined_ram :
    let s : Wired (CpuMemory UxRom) :=
      ⟨{ Cpu.powerOn with a := 0x90 },
        { ram := Ram.blank.write 0x0010 0x81, ppu := .powerOn, board := UxRom.blank }⟩
    let onByte (opcode : UInt8) : Instruction := ⟨opcode, .direct 0x0010, 0⟩
    (onByte 0x67).opcode.mnemonic.halves? =
        some ((onByte 0x66).opcode.mnemonic, (onByte 0x65).opcode.mnemonic) ∧
      (onByte 0x66).opcode.mode ≠ .accumulator ∧ Bus.OrdinaryAt s.bus 0x0010 ∧
      (onByte 0x67).carryOut s = (onByte 0x65).carryOut ((onByte 0x66).carryOut s) ∧
      ((onByte 0x67).carryOut s).cpu.a = 0xD1 ∧
      (onByte 0x4B).carryOut s = (onByte 0x4A).carryOut ((onByte 0x29).carryOut s) ∧
      (onByte 0x0B).carryOut s =
        ((onByte 0x29).carryOut s).mapCpu fun c =>
          c.setFlag Status.carry (c.flag Status.negative) := by
  intro s onByte
  have hmemory : Bus.OrdinaryAt s.bus 0x0010 := CpuMemory.ordinaryAt_of_ram _ (by decide)
  exact ⟨by decide, by decide, hmemory,
    (carryOut_combined (onByte 0x67) s).1 (onByte 0x66) (onByte 0x65) (by decide) (by decide) rfl rfl
      hmemory,
    by decide +kernel,
    (carryOut_combined (onByte 0x4B) s).2.1 (onByte 0x29) (onByte 0x4A) (by decide) (by decide)
      (by decide) rfl,
    (carryOut_combined (onByte 0x0B) s).2.2 (onByte 0x29) (by decide) (by decide) rfl⟩

end Nes
