import Mathlib.Data.List.Rotate
import Nes.Memory.Flat
import Nes.Proofs.Cpu.Account
import Nes.Proofs.Cpu.StackMemory

/-!
# The order of the stack

The stack pointer goes around its page. Seen from there, the page is a ring of 256 bytes, the top of
the stack first: a push takes the place of the bottom byte, and a pull leaves the top byte behind as
the bottom one. So any session of pushes and pulls is one on such a ring (`Bus.StackPage.session`),
and on a ring it is seen what comes back (`Wired.LastInFirstOut`).

Only the page itself has to be memory (`Bus.StackPage`), with some addresses apart from it where
anything may be written in between.
-/

set_option autoImplicit false

namespace Nes

open Wired (stackCell)

/-! ## The page of the stack -/

/-- The page of the stack is memory, where `Holds b cells` says that the bus `b` holds the bytes
`cells` there, each named by the stack pointer of its cell. They do not change when they are read,
nor when something is written at an address apart from them. -/
structure Bus.StackPage {β : Type} [Bus β] (apart : UInt16 → Prop)
    (Holds : β → (UInt8 → UInt8) → Prop) : Prop where
  read {b : β} {cells : UInt8 → UInt8} (h : Holds b cells) (sp : UInt8) :
    (Bus.read b (stackCell sp)).1 = cells sp
  kept {b : β} {cells : UInt8 → UInt8} (h : Holds b cells) (sp : UInt8) :
    Holds (Bus.read b (stackCell sp)).2 cells
  write {b : β} {cells : UInt8 → UInt8} (h : Holds b cells) (sp value : UInt8) :
    Holds (Bus.write b (stackCell sp) value) (Function.update cells sp value)
  elsewhere {b : β} {cells : UInt8 → UInt8} (h : Holds b cells) {addr : UInt16}
    (hapart : apart addr) (value : UInt8) : Holds (Bus.write b addr value) cells

/-- In flat memory every address outside the page is apart from it. -/
theorem Flat.stackPage :
    Bus.StackPage OffStack fun (m : Flat) cells => ∀ sp, m.get (stackCell sp) = cells sp where
  read h := h
  kept h _ := h
  write {m cells} h sp value sp' := by
    rw [get_write]
    by_cases hsame : sp' = sp
    · rw [hsame, if_pos rfl, Function.update_self]
    · rw [if_neg fun hcell => hsame (Wired.stackCell_inj.mp hcell).symm,
        Function.update_of_ne hsame, h]
  elsewhere h _ hapart value sp := by
    rw [get_write, if_neg fun hcell => hapart sp hcell.symm, h]

/-! On the console the page is in work RAM. -/

theorem Wired.stackCell_lt (sp : UInt8) : stackCell sp < 0x2000 :=
  UInt16.lt_of_le_of_lt (stackCell_mem_page sp).2 (by decide)

theorem Wired.index_stackCell_inj {sp sp' : UInt8} :
    Ram.index (stackCell sp) = Ram.index (stackCell sp') ↔ sp = sp' := by
  refine ⟨fun h => UInt8.toNat_inj.mp ?_, fun h => congrArg _ (congrArg stackCell h)⟩
  have hmod : (stackCell sp).toNat % 0x0800 = (stackCell sp').toNat % 0x0800 := congrArg Fin.val h
  have hsp := sp.toNat_lt
  have hsp' := sp'.toNat_lt
  rw [toNat_stackCell, toNat_stackCell] at hmod
  omega

theorem CpuMemory.ram_read {μ : Type} [Board μ] (m : CpuMemory μ) (addr : UInt16) :
    (m.read addr).2.ram = m.ram := by
  unfold read
  split
  · rfl
  · split
    · rfl
    · split <;> rfl

theorem CpuMemory.ram_readRange {μ : Type} [Board μ] (n : Nat) (m : CpuMemory μ) (addr : UInt16)
    (acc : Array UInt8) : (readRange read n m addr acc).2.ram = m.ram := by
  induction n generalizing m addr acc with
  | zero => rfl
  | succ n ih => exact (ih _ _ _).trans (m.ram_read addr)

/-- Behind work RAM, a write leaves work RAM alone. -/
theorem CpuMemory.ram_write {μ : Type} [Board μ] (m : CpuMemory μ) {addr : UInt16}
    (haddr : ¬ addr < 0x2000) (value : UInt8) : (m.write addr value).ram = m.ram := by
  have hnote : ∀ (m : CpuMemory μ) level text, (m.note level text).ram = m.ram := by
    intro m level text
    unfold note
    split <;> rfl
  have hpage : (readPage read m value).2.ram = m.ram := ram_readRange _ m _ _
  rw [write, if_neg haddr]
  split
  · rfl
  · split
    · rw [copyPage]
      generalize readPage read m value = r at hpage
      exact (hnote _ _ _).trans hpage
    · split
      · exact hnote _ _ _
      · rfl

/-- On the console, the addresses apart from the page are those behind work RAM and those of its
other cells. The page shows at some more addresses, in the mirrors of work RAM. -/
def CpuMemory.OffPage (addr : UInt16) : Prop :=
  ¬ addr < 0x2000 ∨ ∀ sp, Ram.index addr ≠ Ram.index (stackCell sp)

theorem CpuMemory.stackPage {μ : Type} [Board μ] :
    Bus.StackPage OffPage fun (m : CpuMemory μ) cells =>
      ∀ sp, m.ram.read (stackCell sp) = cells sp where
  read {m cells} h sp := by
    show (m.read (stackCell sp)).1 = cells sp
    rw [read, if_pos (Wired.stackCell_lt sp)]
    exact h sp
  kept {m cells} h sp sp' := by
    show (m.read (stackCell sp)).2.ram.read (stackCell sp') = cells sp'
    rw [ram_read]
    exact h sp'
  write {m cells} h sp value sp' := by
    show (m.write (stackCell sp) value).ram.read (stackCell sp') = _
    rw [write, if_pos (Wired.stackCell_lt sp)]
    by_cases hsame : sp' = sp
    · rw [hsame, Function.update_self]
      exact m.ram.read_write_of_eq value rfl
    · rw [Function.update_of_ne hsame, ← h sp']
      exact m.ram.read_write_of_ne value fun hindex =>
        hsame (Wired.index_stackCell_inj.mp hindex).symm
  elsewhere {m cells} h addr hapart value sp := by
    show (m.write addr value).ram.read (stackCell sp) = cells sp
    by_cases haddr : addr < 0x2000
    · obtain hbehind | hother := hapart
      · exact absurd haddr hbehind
      · rw [write, if_pos haddr, ← h sp]
        exact m.ram.read_write_of_ne value (hother sp)
    · rw [ram_write m haddr]
      exact h sp

/-! ## The page as a ring -/

/-- The bytes of the page from the top of the stack on. -/
def ringFrom (sp : UInt8) (cells : UInt8 → UInt8) : List UInt8 :=
  List.ofFn fun i : Fin 256 => cells (sp + 1 + UInt8.ofNat i)

@[simp] theorem length_ringFrom (sp : UInt8) (cells : UInt8 → UInt8) :
    (ringFrom sp cells).length = 256 := List.length_ofFn

theorem getElem_ringFrom (sp : UInt8) (cells : UInt8 → UInt8) {i : Nat}
    (h : i < (ringFrom sp cells).length) :
    (ringFrom sp cells)[i] = cells (sp + 1 + UInt8.ofNat i) := List.getElem_ofFn ..

theorem ringFrom_push (sp : UInt8) (cells : UInt8 → UInt8) (value : UInt8) :
    ringFrom (sp - 1) (Function.update cells sp value) =
      (value :: ringFrom sp cells).take 256 := by
  apply List.ext_getElem
  · simp
  intro i hi _
  rw [getElem_ringFrom, List.getElem_take, UInt8.sub_add_cancel]
  rw [length_ringFrom] at hi
  cases i with
  | zero =>
      rw [List.getElem_cons_zero]
      show Function.update cells sp value (sp + 0) = value
      rw [UInt8.add_zero, Function.update_self]
  | succ i =>
      -- fewer than 256 cells further on is another cell
      have hne : sp + UInt8.ofNat (i + 1) ≠ sp := by
        intro h
        have hnat := congrArg UInt8.toNat h
        have hsp := sp.toNat_lt
        rw [UInt8.toNat_add, UInt8.toNat_ofNat'] at hnat
        omega
      have hcell : sp + UInt8.ofNat (i + 1) = sp + 1 + UInt8.ofNat i := by
        rw [UInt8.ofNat_add, UInt8.add_assoc, UInt8.add_comm (UInt8.ofNat i)]
        rfl
      rw [Function.update_of_ne hne, List.getElem_cons_succ, getElem_ringFrom, hcell]

theorem ringFrom_pull (sp : UInt8) (cells : UInt8 → UInt8) :
    ringFrom (sp + 1) cells = (ringFrom sp cells).rotate 1 := by
  apply List.ext_getElem
  · simp
  intro i hi _
  rw [getElem_ringFrom, List.getElem_rotate, getElem_ringFrom]
  congr 1
  apply UInt8.toNat_inj.mp
  rw [length_ringFrom] at hi ⊢
  simp only [UInt8.toNat_add, UInt8.toNat_ofNat', UInt8.toNat_one]
  omega

theorem take_ringFrom (sp : UInt8) (cells : UInt8 → UInt8) :
    (ringFrom sp cells).take 1 = [cells (sp + 1)] := by
  have hpos : 0 < (ringFrom sp cells).length := by simp
  rw [List.take_one, List.head?_eq_getElem?, List.getElem?_eq_getElem hpos, getElem_ringFrom]
  exact congrArg (fun sp => [cells sp]) (UInt8.add_zero _)

/-- Putting bytes on what fits is putting them on everything, for what fits then. -/
theorem take_append_take (first rest : List UInt8) (n : Nat) :
    (first ++ rest.take n).take n = (first ++ rest).take n := by
  rw [List.take_append, List.take_append, List.take_take, Nat.min_eq_left (Nat.sub_le _ _)]

theorem take_add_rotate {ring : List UInt8} {m n : Nat} (h : m + n ≤ ring.length) :
    ring.take m ++ (ring.rotate m).take n = ring.take (m + n) := by
  have hrest : n ≤ (ring.drop m).length := by
    rw [List.length_drop]
    omega
  rw [List.rotate_eq_drop_append_take (by omega), List.take_append_of_le_length hrest,
    List.take_add]

/-! ## Sessions -/

/-- A use of the stack, or a write somewhere in between. -/
inductive StackUse
  | push (value : UInt8)
  | pushWord (value : UInt16)
  | pull
  | pullWord
  | write (addr : UInt16) (value : UInt8)
  deriving DecidableEq, Repr

namespace StackUse

/-- The bytes that are pushed, in their order. -/
def pushed : StackUse → List UInt8
  | push value => [value]
  | pushWord value => [(value >>> 8).toUInt8, value.toUInt8]
  | pull | pullWord | write _ _ => []

/-- The number of bytes that are pulled. -/
def pulls : StackUse → Nat
  | pull => 1
  | pullWord => 2
  | push _ | pushWord _ | write _ _ => 0

/-- A write has to be at an address of this kind. -/
def Spares (apart : UInt16 → Prop) : StackUse → Prop
  | write addr _ => apart addr
  | push _ | pushWord _ | pull | pullWord => True

/-- A push, or a write in between. -/
def Pushes (apart : UInt16 → Prop) (u : StackUse) : Prop := u.pulls = 0 ∧ u.Spares apart

/-- A pull, or a write in between. -/
def Pulls (apart : UInt16 → Prop) (u : StackUse) : Prop := u.pushed = [] ∧ u.Spares apart

/-- What the CPU does, with the bytes that it is answered in their order. -/
def perform {β : Type} [Bus β] : StackUse → Wired β → List UInt8 × Wired β
  | push value, s => ([], s.push value)
  | pushWord value, s => ([], s.pushWord value)
  | pull, s => ([s.pull.1], s.pull.2)
  | pullWord, s => ([s.pullWord.1.toUInt8, (s.pullWord.1 >>> 8).toUInt8], s.pullWord.2)
  | write addr value, s => ([], s.write addr value)

/-- The same on a ring of 256 bytes. -/
def onRing (u : StackUse) (ring : List UInt8) : List UInt8 × List UInt8 :=
  (ring.take u.pulls, (u.pushed.reverse ++ ring.rotate u.pulls).take 256)

/-- Some uses one after the other, with everything that is answered. -/
def each {σ : Type} (act : StackUse → σ → List UInt8 × σ) : List StackUse → σ → List UInt8 × σ
  | [], s => ([], s)
  | u :: uses, s =>
      let r := act u s
      let rest := each act uses r.2
      (r.1 ++ rest.1, rest.2)

/-- The bytes that some uses push. -/
def allPushed (uses : List StackUse) : List UInt8 := uses.flatMap pushed

/-- The number of bytes that some uses pull. -/
def allPulls : List StackUse → Nat
  | [] => 0
  | u :: uses => u.pulls + allPulls uses

theorem each_append {σ : Type} (act : StackUse → σ → List UInt8 × σ) (uses uses' : List StackUse)
    (s : σ) :
    each act (uses ++ uses') s =
      ((each act uses s).1 ++ (each act uses' (each act uses s).2).1,
        (each act uses' (each act uses s).2).2) := by
  induction uses generalizing s with
  | nil => rfl
  | cons u uses ih => rw [List.cons_append, each, ih, each, List.append_assoc]

/-! ### On a ring -/

/-- Pushes leave the last bytes on the ring, as many as fit. -/
theorem each_onRing_of_pushes {uses : List StackUse} (huses : ∀ u ∈ uses, u.pulls = 0)
    {ring : List UInt8} (hring : ring.length = 256) :
    each onRing uses ring = ([], ((allPushed uses).reverse ++ ring).take 256) := by
  induction uses generalizing ring with
  | nil => rw [each, allPushed, List.flatMap_nil, List.reverse_nil, List.nil_append,
      List.take_of_length_le (Nat.le_of_eq hring)]
  | cons u uses ih =>
      obtain ⟨hu, hrest⟩ := List.forall_mem_cons.mp huses
      have hnext : u.onRing ring = ([], (u.pushed.reverse ++ ring).take 256) := by
        rw [onRing, hu, List.rotate_zero, List.take_zero]
      have hlength : ((u.pushed.reverse ++ ring).take 256).length = 256 := by
        rw [List.length_take, List.length_append, hring]
        omega
      rw [each, hnext]
      dsimp only
      rw [ih hrest hlength, take_append_take, allPushed, allPushed, List.flatMap_cons,
        List.reverse_append, List.append_assoc, List.nil_append]

/-- Pulls answer the ring from the top on. -/
theorem each_onRing_of_pulls {uses : List StackUse} (huses : ∀ u ∈ uses, u.pushed = [])
    {ring : List UInt8} (hring : ring.length = 256) (hcount : allPulls uses ≤ 256) :
    (each onRing uses ring).1 = ring.take (allPulls uses) := by
  induction uses generalizing ring with
  | nil => rfl
  | cons u uses ih =>
      obtain ⟨hu, hrest⟩ := List.forall_mem_cons.mp huses
      have hlength : (ring.rotate u.pulls).length = 256 := by rw [List.length_rotate, hring]
      have hnext : u.onRing ring = (ring.take u.pulls, ring.rotate u.pulls) := by
        rw [onRing, hu, List.reverse_nil, List.nil_append,
          List.take_of_length_le (Nat.le_of_eq hlength)]
      rw [allPulls] at hcount ⊢
      rw [each, hnext]
      dsimp only
      rw [ih hrest hlength (by omega), take_add_rotate (by omega)]

end StackUse

/-! ## The stack of the CPU -/

open StackUse

/-- The page of the stack holds this ring, from the stack pointer of the CPU on. -/
def Wired.HasRing {β : Type} (Holds : β → (UInt8 → UInt8) → Prop) (s : Wired β)
    (ring : List UInt8) : Prop :=
  ∃ cells, Holds s.bus cells ∧ ringFrom s.cpu.sp cells = ring

theorem Wired.HasRing.length_eq {β : Type} {Holds : β → (UInt8 → UInt8) → Prop} {s : Wired β}
    {ring : List UInt8} (h : s.HasRing Holds ring) : ring.length = 256 := by
  obtain ⟨cells, -, rfl⟩ := h
  exact length_ringFrom _ _

namespace Bus.StackPage

variable {β : Type} [Bus β] {apart : UInt16 → Prop} {Holds : β → (UInt8 → UInt8) → Prop}
  (hpage : Bus.StackPage apart Holds) {s : Wired β} {ring : List UInt8}
include hpage

theorem push (h : s.HasRing Holds ring) (value : UInt8) :
    (s.push value).HasRing Holds ((value :: ring).take 256) := by
  obtain ⟨cells, hcells, rfl⟩ := h
  exact ⟨_, hpage.write hcells s.cpu.sp value, ringFrom_push s.cpu.sp cells value⟩

theorem pull (h : s.HasRing Holds ring) :
    ring.take 1 = [s.pull.1] ∧ s.pull.2.HasRing Holds (ring.rotate 1) := by
  obtain ⟨cells, hcells, rfl⟩ := h
  have hanswer : s.pull.1 = cells (s.cpu.sp + 1) := hpage.read hcells _
  refine ⟨?_, cells, hpage.kept hcells _, ringFrom_pull s.cpu.sp cells⟩
  rw [take_ringFrom, hanswer]

/-- Every use does to the stack what it does to a ring. -/
theorem step (h : s.HasRing Holds ring) {u : StackUse} (hu : u.Spares apart) :
    (u.perform s).1 = (u.onRing ring).1 ∧ (u.perform s).2.HasRing Holds (u.onRing ring).2 := by
  have hlength := h.length_eq
  cases u with
  | push value =>
      refine ⟨rfl, ?_⟩
      show (s.push value).HasRing Holds (([value] ++ ring.rotate 0).take 256)
      rw [List.rotate_zero]
      exact hpage.push h value
  | pushWord value =>
      refine ⟨rfl, ?_⟩
      show (s.pushWord value).HasRing Holds
        (([value.toUInt8, (value >>> 8).toUInt8] ++ ring.rotate 0).take 256)
      have hword := hpage.push (hpage.push h (value >>> 8).toUInt8) value.toUInt8
      rw [← List.singleton_append, take_append_take] at hword
      rw [List.rotate_zero]
      exact hword
  | pull =>
      obtain ⟨hanswer, hrest⟩ := hpage.pull h
      refine ⟨hanswer.symm, ?_⟩
      show s.pull.2.HasRing Holds ((ring.rotate 1).take 256)
      rw [List.take_of_length_le (by rw [List.length_rotate, hlength])]
      exact hrest
  | pullWord =>
      obtain ⟨hlow, hnext⟩ := hpage.pull h
      obtain ⟨hhigh, hrest⟩ := hpage.pull hnext
      have htwo : ring.take 2 = [s.pull.1, s.pull.2.pull.1] := by
        rw [← take_add_rotate (m := 1) (n := 1) (by omega), hlow, hhigh]
        rfl
      refine ⟨?_, ?_⟩
      · show [(wordOf _ _).toUInt8, (wordOf _ _ >>> 8).toUInt8] = ring.take 2
        rw [toUInt8_wordOf, toUInt8_wordOf_shiftRight, htwo]
      · show s.pull.2.pull.2.HasRing Holds ((ring.rotate 2).take 256)
        rw [List.take_of_length_le (by rw [List.length_rotate, hlength])]
        rw [List.rotate_rotate] at hrest
        exact hrest
  | write addr value =>
      refine ⟨rfl, ?_⟩
      show (s.write addr value).HasRing Holds (([] ++ ring.rotate 0).take 256)
      rw [List.rotate_zero, List.nil_append, List.take_of_length_le (Nat.le_of_eq hlength)]
      obtain ⟨cells, hcells, rfl⟩ := h
      exact ⟨cells, hpage.elsewhere hcells hu value, rfl⟩

/-- And so does every session. -/
theorem session (h : s.HasRing Holds ring) {uses : List StackUse}
    (huses : ∀ u ∈ uses, u.Spares apart) :
    (each StackUse.perform uses s).1 = (each onRing uses ring).1 ∧
      (each StackUse.perform uses s).2.HasRing Holds (each onRing uses ring).2 := by
  induction uses generalizing s ring with
  | nil => exact ⟨rfl, h⟩
  | cons u uses ih =>
      obtain ⟨hu, hrest⟩ := List.forall_mem_cons.mp huses
      obtain ⟨hanswer, hnext⟩ := hpage.step h hu
      obtain ⟨hanswers, hend⟩ := ih hnext hrest
      exact ⟨congrArg₂ (· ++ ·) hanswer hanswers, hend⟩

end Bus.StackPage

/-! ## On every bus -/

section

variable {β : Type} [Bus β]

namespace StackUse

/-- Uses of the stack change nothing in the CPU but the stack pointer. -/
theorem cpu_perform (u : StackUse) (s : Wired β) :
    (u.perform s).2.cpu = { s.cpu with
      sp := s.cpu.sp + UInt8.ofNat u.pulls - UInt8.ofNat u.pushed.length } := by
  have hsp : (u.perform s).2.cpu.sp =
      s.cpu.sp + UInt8.ofNat u.pulls - UInt8.ofNat u.pushed.length := by
    cases u with
    | push | pushWord | pull | pullWord | write =>
        dsimp only [perform, pulls, pushed, Wired.push, Wired.pushWord, Wired.pull, Wired.pullWord,
          Wired.read, Wired.write, Wired.mapCpu, List.length_cons, List.length_nil]
        grind
  calc (u.perform s).2.cpu
      = { s.cpu with sp := (u.perform s).2.cpu.sp } := by cases u <;> rfl
    _ = _ := by rw [hsp]

theorem cpu_each_perform (uses : List StackUse) (s : Wired β) :
    (each perform uses s).2.cpu = { s.cpu with
      sp := s.cpu.sp + UInt8.ofNat (allPulls uses) - UInt8.ofNat (allPushed uses).length } := by
  induction uses generalizing s with
  | nil =>
      show s.cpu = { s.cpu with sp := s.cpu.sp + 0 - 0 }
      rw [UInt8.add_zero, UInt8.sub_zero]
  | cons u uses ih =>
      have hpulls : UInt8.ofNat (allPulls (u :: uses)) =
          UInt8.ofNat u.pulls + UInt8.ofNat (allPulls uses) := UInt8.ofNat_add ..
      have hpushed : UInt8.ofNat (allPushed (u :: uses)).length =
          UInt8.ofNat u.pushed.length + UInt8.ofNat (allPushed uses).length := by
        rw [allPushed, List.flatMap_cons, List.length_append, UInt8.ofNat_add, allPushed]
      rw [each]
      dsimp only
      rw [ih, cpu_perform, hpulls, hpushed]
      dsimp only
      congr 1
      grind

/-- A use of the stack accesses cells of the stack, and a write its own address. -/
theorem exchanges_perform (u : StackUse) (s : Wired (Transcribed β)) :
    ∃ made, (u.perform s).2.bus.exchanges = s.bus.exchanges ++ made ∧
      ∀ e ∈ made, (∃ sp, e.addr = stackCell sp) ∨
        ∃ addr value, u = write addr value ∧ e = .write addr value := by
  have hcell : ∀ (sp : UInt8) (e : Exchange), e.addr = stackCell sp →
      (∃ sp, e.addr = stackCell sp) ∨ ∃ addr value, u = write addr value ∧ e = .write addr value :=
    fun sp e he => .inl ⟨sp, he⟩
  cases u with
  | push value => exact ⟨[_], rfl, List.forall_mem_singleton.mpr (hcell _ _ rfl)⟩
  | pushWord value =>
      exact ⟨[_, _], List.append_assoc .., List.forall_mem_cons.mpr
        ⟨hcell _ _ rfl, List.forall_mem_singleton.mpr (hcell _ _ rfl)⟩⟩
  | pull => exact ⟨[_], rfl, List.forall_mem_singleton.mpr (hcell _ _ rfl)⟩
  | pullWord =>
      exact ⟨[_, _], List.append_assoc .., List.forall_mem_cons.mpr
        ⟨hcell _ _ rfl, List.forall_mem_singleton.mpr (hcell _ _ rfl)⟩⟩
  | write addr value =>
      exact ⟨[_], rfl, List.forall_mem_singleton.mpr (.inr ⟨addr, value, rfl, rfl⟩)⟩

theorem exchanges_each_perform (uses : List StackUse) (s : Wired (Transcribed β)) :
    ∃ made, (each perform uses s).2.bus.exchanges = s.bus.exchanges ++ made ∧
      ∀ e ∈ made, (∃ sp, e.addr = stackCell sp) ∨
        ∃ addr value, write addr value ∈ uses ∧ e = .write addr value := by
  induction uses generalizing s with
  | nil => exact ⟨[], (List.append_nil _).symm, fun e he => absurd he List.not_mem_nil⟩
  | cons u uses ih =>
      obtain ⟨first, hfirst, hone⟩ := u.exchanges_perform s
      obtain ⟨rest, hrest, hothers⟩ := ih (u.perform s).2
      refine ⟨first ++ rest, ?_, fun e he => ?_⟩
      · rw [each]
        dsimp only
        rw [hrest, hfirst, List.append_assoc]
      · obtain he | he := List.mem_append.mp he
        · obtain hcell | ⟨addr, value, rfl, hwrite⟩ := hone e he
          · exact .inl hcell
          · exact .inr ⟨addr, value, List.mem_cons_self, hwrite⟩
        · obtain hcell | ⟨addr, value, hmem, hwrite⟩ := hothers e he
          · exact .inl hcell
          · exact .inr ⟨addr, value, List.mem_cons_of_mem u hmem, hwrite⟩

end StackUse

/-! ## Last in, first out -/

/-- What the stack of a CPU does, where its bus has memory in the page of the stack. -/
structure Wired.LastInFirstOut (apart : UInt16 → Prop) (Holds : β → (UInt8 → UInt8) → Prop)
    (s : Wired β) (ring : List UInt8) : Prop where
  /-- Any session of pushes, pulls and writes elsewhere is one on a ring of 256 bytes. -/
  session {uses : List StackUse} (huses : ∀ u ∈ uses, u.Spares apart) :
    (each perform uses s).1 = (each onRing uses ring).1 ∧
      (each perform uses s).2.HasRing Holds (each onRing uses ring).2
  /-- Pulling as many bytes as are pushed restores the CPU, in whatever order. -/
  restored {uses : List StackUse} (hcount : allPulls uses = (allPushed uses).length) :
    (each perform uses s).2.cpu = s.cpu
  /-- Up to 256 bytes come back in reverse. -/
  reversed {pushes pulls : List StackUse} (hpushes : ∀ u ∈ pushes, u.Pushes apart)
    (hpulls : ∀ u ∈ pulls, u.Pulls apart) (hcount : allPulls pulls = (allPushed pushes).length)
    (hfit : (allPushed pushes).length ≤ 256) :
    (each perform (pushes ++ pulls) s).1 = (allPushed pushes).reverse
  /-- Of more bytes the last 256 fill the page. -/
  survivors {pushes : List StackUse} (hpushes : ∀ u ∈ pushes, u.Pushes apart)
    (hmany : 256 ≤ (allPushed pushes).length) :
    (each perform pushes s).2.HasRing Holds ((allPushed pushes).reverse.take 256)
  /-- So many of them come back in reverse. -/
  survivorsReversed {pushes pulls : List StackUse} (hpushes : ∀ u ∈ pushes, u.Pushes apart)
    (hpulls : ∀ u ∈ pulls, u.Pulls apart) (hmany : 256 ≤ (allPushed pushes).length)
    (hfit : allPulls pulls ≤ 256) :
    (each perform (pushes ++ pulls) s).1 = (allPushed pushes).reverse.take (allPulls pulls)
  /-- A word comes back as it was pushed. -/
  word (value : UInt16) {writes : List StackUse}
    (hwrites : ∀ u ∈ writes, u.Pushes apart ∧ u.Pulls apart) :
    (each perform writes (s.pushWord value)).2.pullWord.1 = value

namespace Bus.StackPage

variable {apart : UInt16 → Prop} {Holds : β → (UInt8 → UInt8) → Prop}
  (hpage : Bus.StackPage apart Holds) {s : Wired β} {ring : List UInt8}
include hpage

theorem hasRing_of_pushes (h : s.HasRing Holds ring) {pushes : List StackUse}
    (hpushes : ∀ u ∈ pushes, u.Pushes apart) :
    (each perform pushes s).1 = [] ∧
      (each perform pushes s).2.HasRing Holds (((allPushed pushes).reverse ++ ring).take 256) := by
  have hsession := hpage.session h fun u hu => (hpushes u hu).2
  rw [each_onRing_of_pushes (fun u hu => (hpushes u hu).1) h.length_eq] at hsession
  exact hsession

/-- Pulls after pushes answer what was pushed, the last byte first, and what lay below then. -/
theorem answers_of_pulls (h : s.HasRing Holds ring) {pushes pulls : List StackUse}
    (hpushes : ∀ u ∈ pushes, u.Pushes apart) (hpulls : ∀ u ∈ pulls, u.Pulls apart)
    (hfit : allPulls pulls ≤ 256) :
    (each perform (pushes ++ pulls) s).1 =
      ((allPushed pushes).reverse ++ ring).take (allPulls pulls) := by
  obtain ⟨hnothing, hring⟩ := hpage.hasRing_of_pushes h hpushes
  obtain ⟨hanswers, -⟩ := hpage.session hring fun u hu => (hpulls u hu).2
  rw [each_append, hnothing, List.nil_append, hanswers,
    each_onRing_of_pulls (fun u hu => (hpulls u hu).1) hring.length_eq hfit, List.take_take,
    Nat.min_eq_left hfit]

theorem lastInFirstOut (h : s.HasRing Holds ring) : s.LastInFirstOut apart Holds ring := by
  have hreversed : ∀ {pushes pulls : List StackUse}, (∀ u ∈ pushes, u.Pushes apart) →
      (∀ u ∈ pulls, u.Pulls apart) → allPulls pulls ≤ (allPushed pushes).length →
      allPulls pulls ≤ 256 → (each perform (pushes ++ pulls) s).1 =
        (allPushed pushes).reverse.take (allPulls pulls) := by
    intro pushes pulls hpushes hpulls hcount hfit
    rw [hpage.answers_of_pulls h hpushes hpulls hfit,
      List.take_append_of_le_length (by rwa [List.length_reverse])]
  constructor
  case session => exact hpage.session h
  case restored =>
    intro uses hcount
    rw [cpu_each_perform, hcount, UInt8.add_sub_cancel]
  case reversed =>
    intro pushes pulls hpushes hpulls hcount hfit
    rw [hreversed hpushes hpulls (Nat.le_of_eq hcount) (hcount ▸ hfit), hcount,
      List.take_of_length_le (Nat.le_of_eq List.length_reverse)]
  case survivors =>
    intro pushes hpushes hmany
    have hring := (hpage.hasRing_of_pushes h hpushes).2
    rwa [List.take_append_of_le_length (by rwa [List.length_reverse])] at hring
  case survivorsReversed =>
    intro pushes pulls hpushes hpulls hmany hfit
    exact hreversed hpushes hpulls (Nat.le_trans hfit hmany) hfit
  case word =>
    intro value writes hwrites
    have hpushed : allPushed (.pushWord value :: writes) =
        [(value >>> 8).toUInt8, value.toUInt8] := by
      have hnothing : allPushed writes = [] :=
        List.flatMap_eq_nil_iff.mpr fun u hu => (hwrites u hu).2.1
      rw [allPushed] at hnothing
      rw [allPushed, List.flatMap_cons, hnothing, List.append_nil, pushed]
    have hpushes : ∀ u ∈ StackUse.pushWord value :: writes, u.Pushes apart :=
      List.forall_mem_cons.mpr ⟨⟨rfl, trivial⟩, fun u hu => (hwrites u hu).1⟩
    obtain ⟨-, hring⟩ := hpage.hasRing_of_pushes h hpushes
    obtain ⟨hanswer, -⟩ := hpage.step hring (u := .pullWord) trivial
    rw [hpushed] at hanswer
    generalize hend : (each perform (.pushWord value :: writes) s).2 = t at hanswer
    have hbytes : [t.pullWord.1.toUInt8, (t.pullWord.1 >>> 8).toUInt8] =
        [value.toUInt8, (value >>> 8).toUInt8] := hanswer
    obtain ⟨hlow, hhigh⟩ := List.cons_eq_cons.mp hbytes
    show (each perform (.pushWord value :: writes) s).2.pullWord.1 = value
    rw [hend, ← wordOf_bytes t.pullWord.1, hlow, List.singleton_inj.mp hhigh, wordOf_bytes]

end Bus.StackPage

/-- **The stack is last in, first out, and has 256 places.** On every bus it is accessed in its page
only. Where the page is memory, up to 256 bytes come back in reverse, of more only the last 256, and
the CPU is restored. -/
theorem stack_lastInFirstOut (s : Wired β) :
    (∀ uses, ∀ e ∈ (each perform uses s.transcribed).2.bus.exchanges,
      (0x0100 ≤ e.addr ∧ e.addr ≤ 0x01FF) ∨
        ∃ addr value, StackUse.write addr value ∈ uses ∧ e = .write addr value) ∧
    ∀ {apart : UInt16 → Prop} {Holds : β → (UInt8 → UInt8) → Prop} {cells : UInt8 → UInt8},
      Bus.StackPage apart Holds → Holds s.bus cells →
        s.LastInFirstOut apart Holds (ringFrom s.cpu.sp cells) := by
  refine ⟨fun uses e he => ?_, fun hpage h => hpage.lastInFirstOut ⟨_, h, rfl⟩⟩
  obtain ⟨made, hmade, hplaces⟩ := exchanges_each_perform uses s.transcribed
  rw [hmade] at he
  obtain ⟨sp, hsp⟩ | hwrite := hplaces e he
  · rw [hsp]
    exact .inl (Wired.stackCell_mem_page sp)
  · exact .inr hwrite

/-- With the stack pointer at 01, three bytes are pushed around the end of the page. After 300 bytes
the last two are on top. -/
theorem stack_lastInFirstOut_wrapping :
    let s : Wired Flat := ⟨{ sp := 0x01 }, .filled 0⟩
    let three : List StackUse := [.push 0x11, .write 0x0200 0xFF, .pushWord 0x2233]
    let back : List StackUse := [.pullWord, .write 0x00FF 0xEE, .pull]
    let many : List StackUse := (List.range 300).map fun i => .push (UInt8.ofNat i)
    (each perform (three ++ back) s).1 = [0x33, 0x22, 0x11] ∧
      (each perform (three ++ back) s).2.cpu = s.cpu ∧
      (each perform (many ++ [.pullWord]) s).1 = [43, 42] := by
  intro s three back many
  have hcells : ∀ sp, s.bus.get (stackCell sp) = 0 := fun sp => Flat.get_filled 0 _
  obtain ⟨-, hstack⟩ := stack_lastInFirstOut s
  have hlast := hstack Flat.stackPage hcells
  have hthree : ∀ u ∈ three, u.Pushes OffStack :=
    List.forall_mem_cons.mpr ⟨⟨rfl, trivial⟩, List.forall_mem_cons.mpr
      ⟨⟨rfl, offStack_iff.mpr (by decide)⟩, List.forall_mem_singleton.mpr ⟨rfl, trivial⟩⟩⟩
  have hback : ∀ u ∈ back, u.Pulls OffStack :=
    List.forall_mem_cons.mpr ⟨⟨rfl, trivial⟩, List.forall_mem_cons.mpr
      ⟨⟨rfl, offStack_iff.mpr (by decide)⟩, List.forall_mem_singleton.mpr ⟨rfl, trivial⟩⟩⟩
  have hmany : ∀ u ∈ many, u.Pushes OffStack := by
    intro u hu
    obtain ⟨i, -, rfl⟩ := List.mem_map.mp hu
    exact ⟨rfl, trivial⟩
  refine ⟨hlast.reversed hthree hback (by decide) (by decide), hlast.restored (by decide), ?_⟩
  have hword : ∀ u ∈ [StackUse.pullWord], u.Pulls OffStack :=
    List.forall_mem_singleton.mpr ⟨rfl, trivial⟩
  rw [hlast.survivorsReversed hmany hword (by decide +kernel) (by decide)]
  decide +kernel

/-- So it is on the console, in work RAM. -/
theorem CpuMemory.lastInFirstOut {μ : Type} [Board μ] (s : Wired (CpuMemory μ)) :
    s.LastInFirstOut OffPage (fun m cells => ∀ sp, m.ram.read (stackCell sp) = cells sp)
      (ringFrom s.cpu.sp fun sp => s.bus.ram.read (stackCell sp)) :=
  CpuMemory.stackPage.lastInFirstOut ⟨_, fun _ => rfl, rfl⟩

end

end Nes
