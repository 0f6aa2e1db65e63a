import Mathlib.Data.List.DropRight
import Nes.Proofs.Checked.Console

/-!
# The board as a function of what was written to it

A board keeps a bank number, save memory and picture memory, and all three are known from the
operations on it so far. The bank is the one last selected since the last reset, and a byte of save
memory or picture memory is the one last written there. The last bank of program memory is always
behind the second window, whatever happened.

`BoardOp` are the operations, `lastOf` picks out the last of them that says something, and
`answersFrom_performAll` is the law. Each part of it is followed through one operation first, and
then through all of them from the end of the list.

With one or two banks the same board serves the cartridges of the simplest board, which has no bank
number. How far it can stand in for that one is a case of the same facts
(`cpuRead_performAll_boardFor`).
-/

set_option autoImplicit false

namespace Nes

/-! ## The last of a list -/

/-- The last value that a function finds in a list. -/
def lastOf {α β : Type} (find : α → Option β) (l : List α) : Option β :=
  (l.filterMap find).getLast?

theorem lastOf_concat {α β : Type} (find : α → Option β) (l : List α) (a : α) :
    lastOf find (l ++ [a]) = (find a).or (lastOf find l) := by
  rw [lastOf, List.filterMap_append, List.getLast?_append]
  cases h : find a with
  | none => simp [lastOf, h]
  | some b => simp [h]

/-! ## Operations -/

/-- What happens to a board that can change it. -/
inductive BoardOp
  | cpuRead (addr : UInt16)
  | cpuWrite (addr : UInt16) (value : UInt8)
  | ppuWrite (addr : UInt16) (value : UInt8)
  | reset
  deriving DecidableEq, Repr

namespace BoardOp

/-- The value that an operation writes to the bank register. -/
def bank? : BoardOp → Option UInt8
  | cpuWrite addr value => if 0x8000 ≤ addr then some value else none
  | _ => none

/-- The value that the CPU writes to an address. -/
def cpuByte? (addr : UInt16) : BoardOp → Option UInt8
  | cpuWrite addr' value => if addr' = addr then some value else none
  | _ => none

/-- The value that the picture unit writes to an address. -/
def ppuByte? (addr : UInt16) : BoardOp → Option UInt8
  | ppuWrite addr' value => if addr' = addr then some value else none
  | _ => none

/-- The operations since the last reset. -/
def sinceReset (ops : List BoardOp) : List BoardOp := ops.rtakeWhile (fun op => op ≠ .reset)

/-- The value in the bank register: the last one written since the last reset, 0 if there is none. -/
def selected (ops : List BoardOp) : UInt8 := (lastOf bank? (sinceReset ops)).getD 0

theorem selected_concat_reset (ops : List BoardOp) : selected (ops ++ [.reset]) = 0 := by
  rw [selected, sinceReset, List.rtakeWhile_concat, if_neg (by decide)]
  rfl

theorem selected_concat {op : BoardOp} (h : op ≠ .reset) (ops : List BoardOp) :
    selected (ops ++ [op]) = op.bank?.getD (selected ops) := by
  rw [selected, sinceReset, List.rtakeWhile_concat, if_pos (decide_eq_true h), lastOf_concat]
  cases op.bank? <;> rfl

end BoardOp

namespace UxRom

/-- Carries out an operation. What it answers is not looked at. -/
def perform (u : UxRom) : BoardOp → UxRom
  | .cpuRead addr => (Board.cpuRead u addr).2
  | .cpuWrite addr value => Board.cpuWrite u addr value
  | .ppuWrite addr value => Board.ppuWrite u addr value
  | .reset => Board.reset u

/-- Carries out operations, one after the other. -/
def performAll (u : UxRom) (ops : List BoardOp) : UxRom := ops.foldl perform u

theorem performAll_concat (u : UxRom) (ops : List BoardOp) (op : BoardOp) :
    u.performAll (ops ++ [op]) = (u.performAll ops).perform op :=
  List.foldl_concat ..

/-! ## Accesses -/

/-- The second window shows the last whole bank. -/
theorem getElem?_prg_of_fixed (u : UxRom) {addr : UInt16} (h : 0xC000 ≤ addr) :
    u.cartridge.prg[(u.bankCount - 1) * prgBankSize + (addr.toNat - 0xC000)]? =
      some (u.cpuByte addr) := by
  have hlt := addr.toNat_lt
  have hle : 0xC000 ≤ addr.toNat := UInt16.le_iff_toNat_le.mp h
  have hoffset : addr.toNat - 0xC000 = addr.toNat % prgBankSize :=
    offset_eq hle (by simp only [prgBankSize]; omega) (by decide)
  rw [hoffset, cpuByte, if_pos h]
  exact u.prgByteChecked_eq _ _

/-- The first window shows the selected bank. -/
theorem getElem?_prg_of_switched (u : UxRom) {addr : UInt16} (hlow : 0x8000 ≤ addr)
    (hhigh : addr < 0xC000) :
    u.cartridge.prg[u.bank * prgBankSize + (addr.toNat - 0x8000)]? = some (u.cpuByte addr) := by
  have hle : 0x8000 ≤ addr.toNat := UInt16.le_iff_toNat_le.mp hlow
  have hlt : addr.toNat < 0xC000 := UInt16.lt_iff_toNat_lt.mp hhigh
  have hoffset : addr.toNat - 0x8000 = addr.toNat % prgBankSize :=
    offset_eq hle (by simp only [prgBankSize]; omega) (by decide)
  rw [hoffset, cpuByte, if_neg (UInt16.not_le.mpr hhigh), if_pos hlow]
  exact u.prgByteChecked_eq _ _

/-- The window of save memory shows each of its bytes once. -/
theorem val_sramIndex {addr : UInt16} (hlow : 0x6000 ≤ addr) (hhigh : addr < 0x8000) :
    (sramIndex addr).val = addr.toNat - 0x6000 := by
  have hle : 0x6000 ≤ addr.toNat := UInt16.le_iff_toNat_le.mp hlow
  have hlt : addr.toNat < 0x8000 := UInt16.lt_iff_toNat_lt.mp hhigh
  exact (offset_eq hle (by simp only [sramSize]; omega) (by decide)).symm

theorem cpuByte_of_unanswered (u : UxRom) {addr : UInt16} (h : addr < 0x6000) :
    u.cpuByte addr = 0 := by
  have hnot : ∀ bound : UInt16, 0x6000 ≤ bound → ¬ bound ≤ addr := fun bound hbound =>
    UInt16.not_le.mpr (UInt16.lt_of_lt_of_le h hbound)
  rw [cpuByte, if_neg (hnot 0xC000 (by decide)), if_neg (hnot 0x8000 (by decide)),
    if_neg (hnot 0x6000 (by decide))]

/-- After a write by the CPU a byte of save memory is the one written there, or what it was. -/
theorem cpuByte_cpuWrite_of_saved (u : UxRom) {addr : UInt16} (addr' : UInt16) (value : UInt8)
    (hlow : 0x6000 ≤ addr) (hhigh : addr < 0x8000) :
    (u.cpuWrite addr' value).cpuByte addr = if addr' = addr then value else u.cpuByte addr := by
  rw [cpuByte_of_saved _ hlow hhigh, cpuByte_of_saved _ hlow hhigh]
  by_cases hsame : addr' = addr
  · subst hsame
    rw [if_pos rfl, cpuWrite, if_neg (UInt16.not_le.mpr hhigh), if_pos hlow]
    exact Vector.getElem_set_self _
  · rw [if_neg hsame]
    unfold cpuWrite
    split
    · rfl
    · next hselect =>
        split
        · next hsave =>
            -- two addresses of the window are two bytes
            have hhigh' : addr' < 0x8000 := UInt16.not_le.mp hselect
            have hle : 0x6000 ≤ addr.toNat := UInt16.le_iff_toNat_le.mp hlow
            have hle' : 0x6000 ≤ addr'.toNat := UInt16.le_iff_toNat_le.mp hsave
            have hindex : (sramIndex addr').val ≠ (sramIndex addr).val := by
              rw [val_sramIndex hlow hhigh, val_sramIndex hsave hhigh']
              intro heq
              exact hsame (UInt16.toNat_inj.mp (by omega))
            exact Vector.getElem_set_ne (sramIndex addr').isLt (sramIndex addr).isLt hindex
        · rfl

/-- After a write by the picture unit a byte of picture memory is the one written there, or what it
was. -/
theorem ppuRead_ppuWrite {u : UxRom} (hchr : 0x2000 ≤ u.cartridge.chr.size) {addr : UInt16}
    (h : addr < 0x2000) (addr' : UInt16) (value : UInt8) :
    (u.ppuWrite addr' value).ppuRead addr = if addr' = addr then some value else u.ppuRead addr := by
  have hlt : addr.toNat < 0x2000 := UInt16.lt_iff_toNat_lt.mp h
  rw [ppuRead, ppuRead, if_pos h, if_pos h]
  by_cases hsame : addr' = addr
  · subst hsame
    rw [if_pos rfl, ppuWrite, if_pos h]
    exact Array.getElem?_setIfInBounds_self_of_lt (Nat.lt_of_lt_of_le hlt hchr)
  · rw [if_neg hsame]
    unfold ppuWrite
    split
    · exact Array.getElem?_setIfInBounds_ne fun heq => hsame (UInt16.toNat_inj.mp heq)
    · rfl

/-! ## One operation -/

variable (u : UxRom) (op : BoardOp)

theorem prg_perform : (u.perform op).cartridge.prg = u.cartridge.prg := by
  cases op with
  | cpuRead addr => rfl
  | cpuWrite addr value => exact u.prg_cpuWrite addr value
  | ppuWrite addr value =>
      show (u.ppuWrite addr value).cartridge.prg = _
      unfold ppuWrite
      split <;> rfl
  | reset => rfl

theorem size_chr_perform : (u.perform op).cartridge.chr.size = u.cartridge.chr.size := by
  cases op with
  | cpuRead addr => rfl
  | cpuWrite addr value =>
      show (u.cpuWrite addr value).cartridge.chr.size = _
      rw [(u.stored_cpuWrite addr value).chr, size_storePatterns]
  | ppuWrite addr value =>
      show (u.ppuWrite addr value).cartridge.chr.size = _
      unfold ppuWrite
      split
      · exact Array.size_setIfInBounds
      · rfl
  | reset => rfl

/-- The bank is the one selected, the first one after a reset, or what it was. -/
theorem bank_perform {op : BoardOp} (h : op ≠ .reset) :
    (u.perform op).bank = (op.bank?.map fun value => value.toNat % u.bankCount).getD u.bank := by
  cases op with
  | cpuRead addr => rfl
  | cpuWrite addr value =>
      show (u.cpuWrite addr value).bank = _
      by_cases hselect : 0x8000 ≤ addr
      · rw [cpuWrite, if_pos hselect, BoardOp.bank?, if_pos hselect]
        rfl
      · rw [cpuWrite, if_neg hselect, BoardOp.bank?, if_neg hselect]
        split <;> rfl
  | ppuWrite addr value =>
      show (u.ppuWrite addr value).bank = _
      unfold ppuWrite
      split <;> rfl
  | reset => exact absurd rfl h

theorem cpuByte_perform_of_saved {addr : UInt16} (hlow : 0x6000 ≤ addr) (hhigh : addr < 0x8000) :
    (u.perform op).cpuByte addr = (op.cpuByte? addr).getD (u.cpuByte addr) := by
  cases op with
  | cpuRead addr' => rfl
  | cpuWrite addr' value =>
      rw [BoardOp.cpuByte?, apply_ite (Option.getD · (u.cpuByte addr))]
      exact u.cpuByte_cpuWrite_of_saved addr' value hlow hhigh
  | ppuWrite addr' value =>
      show (u.ppuWrite addr' value).cpuByte addr = _
      rw [cpuByte_of_saved _ hlow hhigh, cpuByte_of_saved _ hlow hhigh]
      unfold ppuWrite
      split <;> rfl
  | reset =>
      show u.reset.cpuByte addr = _
      rw [cpuByte_of_saved _ hlow hhigh, cpuByte_of_saved _ hlow hhigh]
      rfl

variable {u} in
theorem ppuRead_perform (hchr : 0x2000 ≤ u.cartridge.chr.size) {addr : UInt16} (h : addr < 0x2000) :
    (u.perform op).ppuRead addr = (op.ppuByte? addr).or (u.ppuRead addr) := by
  cases op with
  | cpuRead addr' => rfl
  | cpuWrite addr' value =>
      show (u.cpuWrite addr' value).ppuRead addr = _
      rw [ppuRead, (u.stored_cpuWrite addr' value).chr]
      rfl
  | ppuWrite addr' value =>
      rw [BoardOp.ppuByte?, apply_ite (Option.or · (u.ppuRead addr))]
      exact ppuRead_ppuWrite hchr h addr' value
  | reset => rfl

/-! ## Operations -/

variable (ops : List BoardOp)

theorem prg_performAll : (u.performAll ops).cartridge.prg = u.cartridge.prg := by
  induction ops using List.reverseRecOn with
  | nil => rfl
  | append_singleton ops op ih => rw [performAll_concat, prg_perform, ih]

theorem bankCount_performAll : (u.performAll ops).bankCount = u.bankCount := by
  rw [bankCount, prg_performAll]
  rfl

theorem size_chr_performAll : (u.performAll ops).cartridge.chr.size = u.cartridge.chr.size := by
  induction ops using List.reverseRecOn with
  | nil => rfl
  | append_singleton ops op ih => rw [performAll_concat, size_chr_perform, ih]

variable {u}

/-- The bank of a board that was new is the number in its register, counted modulo the banks. -/
theorem bank_performAll (h : u.bank = 0) :
    (u.performAll ops).bank = (BoardOp.selected ops).toNat % u.bankCount := by
  induction ops using List.reverseRecOn with
  | nil => exact h.trans (Nat.zero_mod _).symm
  | append_singleton ops op ih =>
      rw [performAll_concat]
      by_cases hreset : op = .reset
      · subst hreset
        rw [BoardOp.selected_concat_reset]
        exact (Nat.zero_mod _).symm
      · rw [bank_perform _ hreset, BoardOp.selected_concat hreset, ih, bankCount_performAll]
        cases op.bank? <;> rfl

/-- The first window shows the bank in the register. -/
theorem getElem?_prg_performAll_of_switched (h : u.bank = 0) {addr : UInt16} (hlow : 0x8000 ≤ addr)
    (hhigh : addr < 0xC000) :
    u.cartridge.prg[(BoardOp.selected ops).toNat % u.bankCount * prgBankSize +
      (addr.toNat - 0x8000)]? = some (Board.cpuRead (u.performAll ops) addr).1 := by
  have hread := (u.performAll ops).getElem?_prg_of_switched hlow hhigh
  rw [prg_performAll, bank_performAll ops h] at hread
  exact hread

variable (u) in
/-- The second window shows the last whole bank, whatever happened. -/
theorem getElem?_prg_performAll_of_fixed {addr : UInt16} (h : 0xC000 ≤ addr) :
    u.cartridge.prg[(u.bankCount - 1) * prgBankSize + (addr.toNat - 0xC000)]? =
      some (Board.cpuRead (u.performAll ops) addr).1 := by
  have hread := (u.performAll ops).getElem?_prg_of_fixed h
  rw [prg_performAll, bankCount_performAll] at hread
  exact hread

variable (u) in
theorem cpuByte_performAll_of_saved {addr : UInt16} (hlow : 0x6000 ≤ addr)
    (hhigh : addr < 0x8000) :
    (u.performAll ops).cpuByte addr =
      (lastOf (BoardOp.cpuByte? addr) ops).getD (u.cpuByte addr) := by
  induction ops using List.reverseRecOn with
  | nil => rfl
  | append_singleton ops op ih =>
      rw [performAll_concat, cpuByte_perform_of_saved _ _ hlow hhigh, ih, lastOf_concat]
      cases op.cpuByte? addr <;> rfl

theorem ppuRead_performAll (hchr : 0x2000 ≤ u.cartridge.chr.size) {addr : UInt16}
    (h : addr < 0x2000) :
    (u.performAll ops).ppuRead addr =
      (lastOf (BoardOp.ppuByte? addr) ops).or (u.ppuRead addr) := by
  induction ops using List.reverseRecOn with
  | nil => rfl
  | append_singleton ops op ih =>
      have hchr' : 0x2000 ≤ (u.performAll ops).cartridge.chr.size := by
        rw [size_chr_performAll]
        exact hchr
      rw [performAll_concat, ppuRead_perform _ hchr' h, ih, lastOf_concat, Option.or_assoc]

/-! ## The law -/

/-- A cartridge with a whole bank has a board, with the first bank selected. -/
theorem ofCartridge_eq_ok {c : Cartridge} (h : prgBankSize ≤ c.prg.size) :
    ∃ u, ofCartridge c = .ok u ∧ u.cartridge = c ∧ u.bank = 0 :=
  ⟨_, dif_pos (Nat.div_pos h (by decide)), rfl, rfl⟩

/-- Before anything is stored, save memory shows the image that was put into it, and zeros behind
its end. -/
theorem cpuByte_of_withSram {c : Cartridge} {image : Array UInt8}
    (h : u.cartridge = c.withSram image) {addr : UInt16} (hlow : 0x6000 ≤ addr)
    (hhigh : addr < 0x8000) : u.cpuByte addr = image.getD (addr.toNat - 0x6000) 0 := by
  rw [u.cpuByte_of_saved hlow hhigh, h, ← val_sramIndex hlow hhigh]
  exact c.getElem_withSram image _ (sramIndex addr).isLt

/-- Another cartridge with the save memory of a board reads the same there. -/
theorem exists_handedOn {c : Cartridge} (h : prgBankSize ≤ c.prg.size) (u : UxRom) :
    ∃ u', ofCartridge (c.withSram (Board.cartridge u).sram.toArray) = .ok u' ∧
      ∀ addr : UInt16, 0x6000 ≤ addr → addr < 0x8000 →
        (Board.cpuRead u' addr).1 = (Board.cpuRead u addr).1 := by
  have hprg : prgBankSize ≤ (c.withSram u.cartridge.sram.toArray).prg.size := by
    rw [Cartridge.prg_withSram]
    exact h
  obtain ⟨u', hboard, hcartridge, -⟩ := ofCartridge_eq_ok hprg
  refine ⟨u', hboard, fun addr hlow hhigh => ?_⟩
  show u'.cpuByte addr = u.cpuByte addr
  rw [cpuByte_of_saved _ hlow hhigh, cpuByte_of_saved _ hlow hhigh, hcartridge]
  have hread := c.getElem_withSram u.cartridge.sram.toArray _ (sramIndex addr).isLt
  rw [Array.getD_eq_getD_getElem?, Vector.getElem?_toArray,
    Vector.getElem?_eq_getElem (sramIndex addr).isLt] at hread
  exact hread

/-- What a board answers after some operations, said with its cartridge, the image that was put into
its save memory, and what the operations wrote. -/
structure AnswersFrom (c : Cartridge) (image : Array UInt8) (ops : List BoardOp) (u : UxRom) :
    Prop where
  /-- The second window shows the last whole bank. -/
  fixed (addr : UInt16) : 0xC000 ≤ addr →
    c.prg[(c.prg.size / prgBankSize - 1) * prgBankSize + (addr.toNat - 0xC000)]? =
      some (Board.cpuRead u addr).1
  /-- The first window shows the bank in the register, counted modulo the whole banks. -/
  switched (addr : UInt16) : 0x8000 ≤ addr → addr < 0xC000 →
    c.prg[(BoardOp.selected ops).toNat % (c.prg.size / prgBankSize) * prgBankSize +
      (addr.toNat - 0x8000)]? = some (Board.cpuRead u addr).1
  /-- A byte of save memory is the last one written there, else that of the image, else 0. -/
  saved (addr : UInt16) : 0x6000 ≤ addr → addr < 0x8000 →
    (Board.cpuRead u addr).1 =
      (lastOf (BoardOp.cpuByte? addr) ops).getD (image.getD (addr.toNat - 0x6000) 0)
  /-- Nothing answers below. -/
  unanswered (addr : UInt16) : addr < 0x6000 → (Board.cpuRead u addr).1 = 0
  /-- A byte of picture memory is the last one written there, else that of the cartridge. -/
  patterns (addr : UInt16) : addr < 0x2000 →
    Board.ppuRead u addr =
      some ((lastOf (BoardOp.ppuByte? addr) ops).getD (c.chr.getD addr.toNat 0))
  /-- A reset keeps save memory. -/
  sram_reset : (Board.cartridge (Board.reset u)).sram = (Board.cartridge u).sram
  /-- A reset keeps picture memory. -/
  chr_reset : (Board.cartridge (Board.reset u)).chr = (Board.cartridge u).chr
  /-- The image that can be taken of save memory has its size. -/
  size_image : (Board.cartridge u).sram.toArray.size = 0x2000
  /-- Put into another cartridge, the image reads the same. -/
  handedOn (c' : Cartridge) : prgBankSize ≤ c'.prg.size →
    ∃ u', ofCartridge (c'.withSram (Board.cartridge u).sram.toArray) = .ok u' ∧
      ∀ addr : UInt16, 0x6000 ≤ addr → addr < 0x8000 →
        (Board.cpuRead u' addr).1 = (Board.cpuRead u addr).1

/-- **A board is a function of what was written to it.** -/
theorem answersFrom_performAll {c : Cartridge} (hbuilt : c.Built) (hprg : prgBankSize ≤ c.prg.size)
    (image : Array UInt8) :
    ∃ u, ofCartridge (c.withSram image) = .ok u ∧
      ∀ ops, AnswersFrom c image ops (u.performAll ops) := by
  have hprg' : prgBankSize ≤ (c.withSram image).prg.size := by
    rw [Cartridge.prg_withSram]
    exact hprg
  obtain ⟨u, hboard, hcartridge, hbank⟩ := ofCartridge_eq_ok hprg'
  refine ⟨u, hboard, fun ops => ?_⟩
  have hsame : u.cartridge.prg = c.prg := by rw [hcartridge, Cartridge.prg_withSram]
  constructor
  case fixed =>
    intro addr h
    rw [← hsame]
    exact u.getElem?_prg_performAll_of_fixed ops h
  case switched =>
    intro addr hlow hhigh
    rw [← hsame]
    exact getElem?_prg_performAll_of_switched ops hbank hlow hhigh
  case saved =>
    intro addr hlow hhigh
    rw [← cpuByte_of_withSram hcartridge hlow hhigh]
    exact u.cpuByte_performAll_of_saved ops hlow hhigh
  case unanswered => exact fun addr h => (u.performAll ops).cpuByte_of_unanswered h
  case patterns =>
    intro addr h
    have hchr : u.cartridge.chr = c.chr := by
      rw [hcartridge, Cartridge.chr_withSram]
    have hsize : 0x2000 ≤ u.cartridge.chr.size := by
      rw [hchr]
      exact hbuilt.le_size_chr
    have hlt : addr.toNat < c.chr.size :=
      Nat.lt_of_lt_of_le (UInt16.lt_iff_toNat_lt.mp h) hbuilt.le_size_chr
    have hfirst : u.ppuRead addr = some (c.chr.getD addr.toNat 0) := by
      rw [ppuRead, if_pos h, hchr, Array.getD_eq_getD_getElem?, Array.getElem?_eq_getElem hlt]
      rfl
    show (u.performAll ops).ppuRead addr = _
    rw [ppuRead_performAll ops hsize h, hfirst]
    cases lastOf (BoardOp.ppuByte? addr) ops <;> rfl
  case sram_reset => rfl
  case chr_reset => rfl
  case size_image => exact Vector.size_toArray _
  case handedOn =>
    exact fun c' hother => exists_handedOn hother _

end UxRom

/-! ## Banks that can be told apart -/

/-- A cartridge in whose program memory every byte is the number of its bank. -/
def Cartridge.numbered (size : Nat) (mapper : UInt8) : Cartridge :=
  .ofParts (Array.ofFn fun i : Fin size => UInt8.ofNat (i.val / prgBankSize)) #[] mapper .horizontal
    false

theorem Cartridge.size_prg_numbered (size : Nat) (mapper : UInt8) :
    (numbered size mapper).prg.size = size := by
  rw [numbered, prg_ofParts, Array.size_ofFn]

theorem Cartridge.getElem?_prg_numbered {size i : Nat} (mapper : UInt8) (h : i < size) :
    (numbered size mapper).prg[i]? = some (UInt8.ofNat (i / prgBankSize)) := by
  rw [numbered, prg_ofParts, Array.getElem?_ofFn, dif_pos h]

/-- Two banks and a half, an image of two bytes, and writes to all that can be written. -/
theorem UxRom.answersFrom_performAll_numbered :
    let c := Cartridge.numbered 0xA000 2
    let ops : List BoardOp := [.cpuWrite 0x8000 2, .reset, .cpuWrite 0xFFFF 5, .cpuWrite 0x6001 9,
      .cpuRead 0x6001, .ppuWrite 0x0010 3]
    c.Built ∧ prgBankSize ≤ c.prg.size ∧
      ∃ u, ofCartridge (c.withSram #[7, 8]) = .ok u ∧
        (Board.cpuRead (u.performAll ops) 0x8123).1 = 1 ∧
        (Board.cpuRead (u.performAll ops) 0xFFFF).1 = 1 ∧
        (Board.cpuRead (u.performAll ops) 0x6000).1 = 7 ∧
        (Board.cpuRead (u.performAll ops) 0x6001).1 = 9 ∧
        (Board.cpuRead (u.performAll ops) 0x6002).1 = 0 ∧
        (Board.cpuRead (u.performAll ops) 0x5FFF).1 = 0 ∧
        Board.ppuRead (u.performAll ops) 0x0010 = some 3 := by
  intro c ops
  have hbuilt : c.Built := .ofParts _ #[] 2 .horizontal false (.inl rfl)
  have hsize : c.prg.size = 0xA000 := Cartridge.size_prg_numbered 0xA000 2
  have hprg : prgBankSize ≤ c.prg.size := by
    rw [hsize]
    decide
  obtain ⟨u, hu, hlaw⟩ := answersFrom_performAll hbuilt hprg #[7, 8]
  have h := hlaw ops
  have hselected : BoardOp.selected ops = 5 := rfl
  have hswitched := h.switched 0x8123 (by decide) (by decide)
  rw [hsize, hselected, Cartridge.getElem?_prg_numbered 2 (by decide)] at hswitched
  have hfixed := h.fixed 0xFFFF (by decide)
  rw [hsize, Cartridge.getElem?_prg_numbered 2 (by decide)] at hfixed
  have hpatterns := h.patterns 0x0010 (by decide)
  have hstored : lastOf (BoardOp.ppuByte? 0x0010) ops = some 3 := rfl
  rw [hstored, Option.getD_some] at hpatterns
  exact ⟨hbuilt, hprg, u, hu, (Option.some.inj hswitched).symm, (Option.some.inj hfixed).symm,
    (h.saved 0x6000 (by decide) (by decide)).trans (by decide),
    (h.saved 0x6001 (by decide) (by decide)).trans (by decide),
    (h.saved 0x6002 (by decide) (by decide)).trans (by decide), h.unanswered 0x5FFF (by decide),
    hpatterns⟩

/-! ## In place of the simplest board -/

namespace UxRom

/-- A cartridge for the simplest board gets this one. -/
theorem boardFor_eq_ok {c : Cartridge} (hmapper : c.mapper = 0) (h : prgBankSize ≤ c.prg.size) :
    ∃ u, boardFor c = .ok u ∧ u.cartridge = c ∧ u.bank = 0 := by
  rw [boardFor, if_pos (.inl hmapper)]
  exact ofCartridge_eq_ok h

section OneOrTwoBanks

variable {c : Cartridge} (hprg : c.prg.size = prgBankSize ∨ c.prg.size = 2 * prgBankSize)
include hprg

/-- The last of one or two banks lies where program memory gets to when it is repeated. -/
theorem getElem?_prg_repeated_of_fixed {addr : UInt16} (h : 0xC000 ≤ addr) :
    c.prg[(c.prg.size / prgBankSize - 1) * prgBankSize + (addr.toNat - 0xC000)]? =
      c.prg[(addr.toNat - 0x8000) % c.prg.size]? := by
  have hlt := addr.toNat_lt
  have hle : 0xC000 ≤ addr.toNat := UInt16.le_iff_toNat_le.mp h
  apply congrArg (c.prg[·]?)
  rcases hprg with hone | htwo
  · rw [hone, Nat.div_self (by decide)]
    simp only [prgBankSize]
    omega
  · rw [htwo, Nat.mul_div_cancel _ (by decide)]
    simp only [prgBankSize]
    omega

/-- An odd number selects the second of two banks. Every other number selects the first one, and so
does every number where there is only one. -/
theorem getElem?_prg_repeated_of_switched {addr : UInt16} (hlow : 0x8000 ≤ addr)
    (hhigh : addr < 0xC000) (number : Nat) :
    c.prg[number % (c.prg.size / prgBankSize) * prgBankSize + (addr.toNat - 0x8000)]? =
      if c.prg.size = 2 * prgBankSize ∧ number % 2 = 1 then
        c.prg[addr.toNat - 0x8000 + prgBankSize]?
      else c.prg[(addr.toNat - 0x8000) % c.prg.size]? := by
  have hle : 0x8000 ≤ addr.toNat := UInt16.le_iff_toNat_le.mp hlow
  have hlt : addr.toNat < 0xC000 := UInt16.lt_iff_toNat_lt.mp hhigh
  rcases hprg with hone | htwo
  · have hne : c.prg.size ≠ 2 * prgBankSize := by
      rw [hone]
      decide
    rw [if_neg fun h => hne h.1, hone, Nat.div_self (by decide), Nat.mod_one]
    apply congrArg (c.prg[·]?)
    simp only [prgBankSize]
    omega
  · rw [htwo, Nat.mul_div_cancel _ (by decide)]
    rcases Nat.mod_two_eq_zero_or_one number with heven | hodd
    · rw [if_neg fun h => Nat.zero_ne_one (heven.symm.trans h.2), heven]
      apply congrArg (c.prg[·]?)
      simp only [prgBankSize]
      omega
    · rw [if_pos ⟨rfl, hodd⟩, hodd, Nat.one_mul, Nat.add_comm]

end OneOrTwoBanks

/-- **Two banks lie where the simplest board has them unless an odd number was selected.** After any
operations, a board for one or two banks shows program memory from its start on, over and over. The
one exception is the first window of a board with two banks while the number in the bank register is
odd: there the second bank lies too. -/
theorem cpuRead_performAll_boardFor {c : Cartridge} (hmapper : c.mapper = 0)
    (hprg : c.prg.size = prgBankSize ∨ c.prg.size = 2 * prgBankSize) :
    ∃ u, boardFor c = .ok u ∧
      ∀ (ops : List BoardOp) (addr : UInt16), 0x8000 ≤ addr →
        some (Board.cpuRead (u.performAll ops) addr).1 =
          if c.prg.size = 2 * prgBankSize ∧ addr < 0xC000 ∧
              (BoardOp.selected ops).toNat % 2 = 1 then
            c.prg[addr.toNat - 0x8000 + prgBankSize]?
          else c.prg[(addr.toNat - 0x8000) % c.prg.size]? := by
  obtain ⟨u, hboard, hcartridge, hbank⟩ := boardFor_eq_ok hmapper (by omega)
  refine ⟨u, hboard, ?_⟩
  intro ops addr hlow
  by_cases hfixed : 0xC000 ≤ addr
  · have hread := u.getElem?_prg_performAll_of_fixed ops hfixed
    rw [bankCount, hcartridge] at hread
    rw [← hread, getElem?_prg_repeated_of_fixed hprg hfixed,
      if_neg fun h => UInt16.not_lt.mpr hfixed h.2.1]
  · have hhigh : addr < 0xC000 := UInt16.not_le.mp hfixed
    have hread := getElem?_prg_performAll_of_switched ops hbank hlow hhigh
    rw [bankCount, hcartridge] at hread
    rw [← hread, getElem?_prg_repeated_of_switched hprg hlow hhigh]
    simp only [hhigh, true_and]

/-- Two banks, the last one selected: they lie in both windows. -/
theorem cpuRead_performAll_boardFor_numbered :
    let c := Cartridge.numbered 0x8000 0
    c.mapper = 0 ∧ c.prg.size = 2 * prgBankSize ∧
      ∃ u, boardFor c = .ok u ∧
        (Board.cpuRead (u.performAll [.cpuWrite 0xC000 3, .cpuWrite 0x8000 2]) 0xBFFF).1 = 0 ∧
        (Board.cpuRead (u.performAll [.cpuWrite 0xC000 3, .cpuWrite 0x8000 2]) 0xFFFF).1 = 1 ∧
        (Board.cpuRead (u.performAll [.cpuWrite 0xC000 3]) 0xBFFF).1 = 1 := by
  intro c
  have hmapper : c.mapper = 0 := rfl
  have hsize : c.prg.size = 0x8000 := Cartridge.size_prg_numbered 0x8000 0
  obtain ⟨u, hu, hreads⟩ := cpuRead_performAll_boardFor hmapper (.inr hsize)
  have heven : (BoardOp.selected [.cpuWrite 0xC000 3, .cpuWrite 0x8000 2]).toNat % 2 = 0 := rfl
  have hodd : (BoardOp.selected [.cpuWrite 0xC000 3]).toNat % 2 = 1 := rfl
  have hlow := hreads [.cpuWrite 0xC000 3, .cpuWrite 0x8000 2] 0xBFFF (by decide)
  have hhigh := hreads [.cpuWrite 0xC000 3, .cpuWrite 0x8000 2] 0xFFFF (by decide)
  have hlow' := hreads [.cpuWrite 0xC000 3] 0xBFFF (by decide)
  rw [heven, if_neg fun h => Nat.zero_ne_one h.2.2, hsize,
    Cartridge.getElem?_prg_numbered 0 (by decide)] at hlow
  rw [heven, if_neg fun h => Nat.zero_ne_one h.2.2, hsize,
    Cartridge.getElem?_prg_numbered 0 (by decide)] at hhigh
  rw [hodd, if_pos ⟨hsize, by decide, rfl⟩, Cartridge.getElem?_prg_numbered 0 (by decide)] at hlow'
  exact ⟨hmapper, hsize, u, hu, Option.some.inj hlow, Option.some.inj hhigh, Option.some.inj hlow'⟩

/-- **The simplest board has no bank register, but this one has.** With two banks and a 1 written to
program memory, the start of the first window no longer shows the start of program memory. -/
theorem cpuRead_boardFor_numbered_ne :
    let c := Cartridge.numbered 0x8000 0
    c.mapper = 0 ∧ c.prg.size = 2 * prgBankSize ∧
      ∃ u, boardFor c = .ok u ∧
        some (Board.cpuRead (u.performAll [.cpuWrite 0x8000 1]) 0x8000).1 ≠
          c.prg[(0x8000 - 0x8000) % c.prg.size]? := by
  intro c
  have hsize : c.prg.size = 0x8000 := Cartridge.size_prg_numbered 0x8000 0
  obtain ⟨u, hboard, hcartridge, hbank⟩ := boardFor_eq_ok (show c.mapper = 0 from rfl)
    (show prgBankSize ≤ c.prg.size by rw [hsize]; decide)
  refine ⟨rfl, hsize, u, hboard, ?_⟩
  have hread := getElem?_prg_performAll_of_switched [.cpuWrite 0x8000 1] hbank
    (show 0x8000 ≤ (0x8000 : UInt16) by decide) (by decide)
  have hselected : BoardOp.selected [.cpuWrite 0x8000 1] = 1 := rfl
  rw [bankCount, hcartridge, hsize, hselected, Cartridge.getElem?_prg_numbered 0 (by decide)] at hread
  rw [← hread, hsize, Cartridge.getElem?_prg_numbered 0 (by decide)]
  decide

end UxRom

end Nes
