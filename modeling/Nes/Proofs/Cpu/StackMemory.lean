import Mathlib.Logic.Function.Basic
import Nes.Memory.Map
import Nes.Proofs.Cpu.Accesses
import Nes.Proofs.Ppu.Fields

/-!
# The stack as memory

A bus can be anything, and some of its addresses memory all the same: they hold bytes, which reads
find there and a write replaces one at a time (`Bus.Memory`). Accesses elsewhere may have effects of
their own, as long as reads spare these bytes.

Where the page of the stack is memory, it can be followed what a push stores and a pull finds. The
stack pointer wraps within the page, so this needs no bounds: three cells in a row are always three
different cells.
-/

set_option autoImplicit false

namespace Nes

open Wired (stackCell)

/-! ## Memory on a bus -/

/-- The addresses of a region are memory, where `Holds b m` says that the bus `b` holds the bytes `m`
there. No read changes them, and no transfer into sprite memory starts there. -/
structure Bus.Memory {β : Type} [Bus β] (region : UInt16 → Prop)
    (Holds : β → (UInt16 → UInt8) → Prop) : Prop where
  read {b : β} {m : UInt16 → UInt8} (h : Holds b m) {addr : UInt16} (hregion : region addr) :
    (Bus.read b addr).1 = m addr
  kept {b : β} {m : UInt16 → UInt8} (h : Holds b m) (addr : UInt16) : Holds (Bus.read b addr).2 m
  write {b : β} {m : UInt16 → UInt8} (h : Holds b m) {addr : UInt16} (hregion : region addr)
    (value : UInt8) : Holds (Bus.write b addr value) (Function.update m addr value)
  idle {b : β} {m : UInt16 → UInt8} (h : Holds b m) :
    (Bus.takeOamDma b).1 = false ∧ Holds (Bus.takeOamDma b).2 m

/-- Work RAM below its first mirror is memory, while no transfer waits to be reported. -/
theorem CpuMemory.memory_ram {μ : Type} [Board μ] :
    Bus.Memory (fun addr => addr < 0x0800) fun (c : CpuMemory μ) (m : UInt16 → UInt8) =>
      c.oamDma = false ∧ ∀ addr < (0x0800 : UInt16), c.ram.read addr = m addr where
  read {c m} h addr haddr := by
    have hlow : addr < 0x2000 := UInt16.lt_trans haddr (by decide)
    show (c.read addr).1 = m addr
    rw [CpuMemory.read, if_pos hlow]
    exact h.2 addr haddr
  kept {c m} h addr := by
    show (c.read addr).2.oamDma = false ∧ ∀ a < (0x0800 : UInt16), (c.read addr).2.ram.read a = m a
    unfold CpuMemory.read
    split
    · exact h
    · split
      · exact h
      · split <;> exact h
  write {c m} h addr haddr value := by
    have hlow : addr < 0x2000 := UInt16.lt_trans haddr (by decide)
    show (c.write addr value).oamDma = false ∧
      ∀ a < (0x0800 : UInt16), (c.write addr value).ram.read a = Function.update m addr value a
    rw [CpuMemory.write, if_pos hlow]
    refine ⟨h.1, fun a ha => ?_⟩
    by_cases hsame : a = addr
    · rw [hsame, Function.update_self]
      exact c.ram.read_write_of_eq value rfl
    · -- below the first mirror, other addresses are other cells
      have hindex : Ram.index addr ≠ Ram.index a := by
        intro heq
        have hmod : addr.toNat % 0x0800 = a.toNat % 0x0800 := congrArg Fin.val heq
        have haddr' : addr.toNat < 0x0800 := UInt16.lt_iff_toNat_lt.mp haddr
        have ha' : a.toNat < 0x0800 := UInt16.lt_iff_toNat_lt.mp ha
        exact hsame (UInt16.toNat_inj.mp (by omega))
      rw [Function.update_of_ne hsame]
      exact (c.ram.read_write_of_ne value hindex).trans (h.2 a ha)
  idle h := ⟨h.1, rfl, h.2⟩

/-! ## Cells of the stack -/

theorem Wired.stackCell_inj {sp sp' : UInt8} : stackCell sp = stackCell sp' ↔ sp = sp' := by
  refine ⟨fun h => UInt8.toNat_inj.mp ?_, congrArg stackCell⟩
  have hnat := congrArg UInt16.toNat h
  rw [toNat_stackCell, toNat_stackCell] at hnat
  omega

/-- Three cells in a row are different. -/
theorem Wired.stackCell_ne (sp : UInt8) :
    stackCell sp ≠ stackCell (sp - 1) ∧ stackCell sp ≠ stackCell (sp - 1 - 1) ∧
      stackCell (sp - 1) ≠ stackCell (sp - 1 - 1) := by
  simp only [Ne, stackCell_inj]
  have hone : (1 : UInt8).toNat = 1 := rfl
  have hsp := sp.toNat_lt
  refine ⟨?_, ?_, ?_⟩ <;>
    · intro h
      have hnat := congrArg UInt8.toNat h
      simp only [UInt8.toNat_sub, hone] at hnat
      omega

namespace Bus.Memory

variable {β : Type} [Bus β] {region : UInt16 → Prop} {Holds : β → (UInt16 → UInt8) → Prop}
  (hmemory : Bus.Memory region Holds) {m : UInt16 → UInt8}
include hmemory

/-! ## Reads anywhere -/

theorem kept_readWord {b : β} (h : Holds b m) (addr : UInt16) : Holds (Bus.readWord b addr).2 m :=
  hmemory.kept (hmemory.kept h addr) (addr + 1)

theorem kept_readPointer {b : β} (h : Holds b m) (addr : UInt16) :
    Holds (Bus.readPointer b addr).2 m :=
  hmemory.kept (hmemory.kept h addr) (nextInPage addr)

theorem kept_find {b : β} (h : Holds b m) (c : Cpu) (mode : Mode) :
    Holds (Operand.find c b mode).2 m := by
  cases mode with
  | implied | accumulator | immediate => exact h
  | zeroPage | zeroPageX | zeroPageY | relative => exact hmemory.kept h _
  | absolute | absoluteX | absoluteY => exact hmemory.kept_readWord h _
  | indirect => exact hmemory.kept_readPointer (hmemory.kept_readWord h _) _
  | indexedIndirect | indirectIndexed => exact hmemory.kept_readPointer (hmemory.kept h _) _

theorem kept_fetch {s : Wired β} (h : Holds s.bus m) : Holds s.fetch.2.bus m :=
  hmemory.kept_find (hmemory.kept h s.cpu.pc) _ _

theorem kept_jumpThrough {s : Wired β} (h : Holds s.bus m) (vector : UInt16) :
    Holds (s.jumpThrough vector).bus m :=
  hmemory.kept_readWord h vector

/-- Where no transfer starts, none is charged. -/
theorem chargeOamDma {s : Wired β} (h : Holds s.bus m) :
    s.chargeOamDma.cpu = s.cpu ∧ Holds s.chargeOamDma.bus m := by
  obtain ⟨hnone, hbus⟩ := hmemory.idle h
  unfold Wired.chargeOamDma
  dsimp only
  rw [if_neg (by rw [hnone]; exact Bool.false_ne_true)]
  exact ⟨rfl, hbus⟩

/-! ## Pushes and pulls -/

variable (hstack : ∀ sp, region (stackCell sp))
include hstack

theorem push {s : Wired β} (h : Holds s.bus m) (value : UInt8) :
    Holds (s.push value).bus (Function.update m (stackCell s.cpu.sp) value) :=
  hmemory.write h (hstack s.cpu.sp) value

theorem pull {s : Wired β} (h : Holds s.bus m) :
    s.pull.1 = m (stackCell (s.cpu.sp + 1)) ∧ Holds s.pull.2.bus m :=
  ⟨hmemory.read h (hstack _), hmemory.kept h _⟩

theorem pullWord {s : Wired β} (h : Holds s.bus m) :
    s.pullWord.1 = wordOf (m (stackCell (s.cpu.sp + 1))) (m (stackCell (s.cpu.sp + 1 + 1))) ∧
      Holds s.pullWord.2.bus m := by
  obtain ⟨hlow, hrest⟩ := hmemory.pull hstack h
  obtain ⟨hhigh, hend⟩ := hmemory.pull hstack hrest
  refine ⟨?_, hend⟩
  show wordOf s.pull.1 s.pull.2.pull.1 = _
  rw [hlow, hhigh]
  rfl

end Bus.Memory

end Nes
