import Nes.Proofs.Board.WriteHistory

/-!
# Picture memory as memory with mirrors

The picture unit reaches the same byte at many addresses. Which addresses stand for the same byte is
said by `Aliases`, with the fourteen bits that count of an address. Below 2000 an address stands for
itself. Up to 3EFF it stands for a place in one of the physical tables, which the layout picks by
one bit of the address or not at all. From 3F00 on it stands for an entry of the palette.

A `Cell` is the byte an address stands for. Reads and writes fold addresses on their own, and both
find the same cell (`read_eq_content`, `content_write`). So picture memory is memory modulo its
mirrors: a byte read is the last one that was written to any address that stands for the same byte
(`read_applyAll`).
-/

set_option autoImplicit false

namespace Nes

theorem UxRom.mirroring_ppuWrite (u : UxRom) (addr : UInt16) (value : UInt8) :
    (u.ppuWrite addr value).cartridge.mirroring = u.cartridge.mirroring := by
  unfold ppuWrite
  split <;> rfl

/-! ## Addresses that stand for the same byte -/

namespace Mirroring

/-- The physical table behind an address, by a bit of the address. -/
def tableAt (m : Mirroring) (a : Nat) : Nat :=
  match m with
  | horizontal => (a.testBit 11).toNat
  | vertical => (a.testBit 10).toNat
  | fourScreen => (a.testBit 10).toNat
  | singleScreen0 => 0
  | singleScreen1 => 1

/-- The console has memory for two tables, so of four tables two are the other two. -/
theorem toNat_physicalTable (m : Mirroring) {offset : UInt16} (h : offset.toNat < 0x1000) :
    (m.physicalTable (offset / 0x0400)).toNat ≤ 3 ∧
      (m.physicalTable (offset / 0x0400)).toNat % 2 = m.tableAt offset.toNat := by
  have hdiv : (offset / 0x0400).toNat = offset.toNat / 0x0400 := UInt16.toNat_div ..
  cases m with
  | horizontal =>
      have htable : (offset / 0x0400 / 2).toNat = offset.toNat / 0x0400 / 2 := by
        rw [UInt16.toNat_div, hdiv]
        rfl
      simp only [physicalTable, tableAt, htable, Nat.toNat_testBit]
      omega
  | vertical =>
      have htable : (offset / 0x0400 % 2).toNat = offset.toNat / 0x0400 % 2 := by
        rw [UInt16.toNat_mod, hdiv]
        rfl
      simp only [physicalTable, tableAt, htable, Nat.toNat_testBit]
      omega
  | singleScreen0 => exact ⟨Nat.zero_le 3, rfl⟩
  | singleScreen1 => exact ⟨Nat.le_add_right 1 2, rfl⟩
  | fourScreen =>
      simp only [physicalTable, tableAt, hdiv, Nat.toNat_testBit, and_true]
      omega

/-- The bits that pick a table are the same in every mirror of the tables. -/
theorem tableAt_congr (m : Mirroring) {a b : Nat} (h : a % 0x1000 = b % 0x1000) :
    m.tableAt a = m.tableAt b := by
  cases m with
  | horizontal => simp only [tableAt, Nat.toNat_testBit]; omega
  | vertical => simp only [tableAt, Nat.toNat_testBit]; omega
  | fourScreen => simp only [tableAt, Nat.toNat_testBit]; omega
  | singleScreen0 => rfl
  | singleScreen1 => rfl

theorem tableAt_le (m : Mirroring) (a : Nat) : m.tableAt a ≤ 1 := by
  cases m with
  | horizontal => exact Bool.toNat_le _
  | vertical => exact Bool.toNat_le _
  | fourScreen => exact Bool.toNat_le _
  | singleScreen0 => exact Nat.zero_le 1
  | singleScreen1 => exact Nat.le_refl 1

end Mirroring

namespace Vram

/-- Four entries of the palette are other entries. -/
def foldEntry : Nat → Nat
  | 0x10 => 0x00
  | 0x14 => 0x04
  | 0x18 => 0x08
  | 0x1C => 0x0C
  | i => i

/-- Two addresses stand for the same byte. -/
def Aliases (m : Mirroring) (a b : Nat) : Prop :=
  (a < 0x2000 ∧ a = b) ∨
  ((0x2000 ≤ a ∧ a < 0x3F00) ∧ (0x2000 ≤ b ∧ b < 0x3F00) ∧ a % 0x0400 = b % 0x0400 ∧
    m.tableAt a = m.tableAt b) ∨
  (0x3F00 ≤ a ∧ 0x3F00 ≤ b ∧ foldEntry (a % 32) = foldEntry (b % 32))

instance (m : Mirroring) (a b : Nat) : Decidable (Aliases m a b) :=
  inferInstanceAs (Decidable (_ ∨ _))

/-- The places where bytes are kept. -/
inductive Cell
  | pattern (i : Nat)
  | nametable (i : Nat)
  | palette (i : Nat)
  deriving DecidableEq, Repr

/-- The place that an address stands for. -/
def cellAt (m : Mirroring) (a : Nat) : Cell :=
  if a < 0x2000 then .pattern a
  else if a < 0x3F00 then .nametable (0x0400 * m.tableAt a + a % 0x0400)
  else .palette (foldEntry (a % 32))

theorem cellAt_eq_iff (m : Mirroring) (a b : Nat) : cellAt m a = cellAt m b ↔ Aliases m a b := by
  unfold cellAt Aliases
  -- one case for each pair of regions; cells of two regions differ in kind
  split_ifs <;>
    simp only [Cell.pattern.injEq, Cell.nametable.injEq, Cell.palette.injEq, false_iff] <;>
    omega

theorem Aliases.refl (m : Mirroring) (a : Nat) : Aliases m a a :=
  (cellAt_eq_iff m a a).mp rfl

theorem Aliases.symm {m : Mirroring} {a b : Nat} (h : Aliases m a b) : Aliases m b a :=
  (cellAt_eq_iff m b a).mp ((cellAt_eq_iff m a b).mpr h).symm

/-! ## What is kept in a cell -/

/-- The byte in a cell. -/
def content (s : Vram) (u : UxRom) : Cell → Option UInt8
  | .pattern i => u.cartridge.chr[i]?
  | .nametable i => s.nametable[i]?
  | .palette i => s.palette[i]?

theorem val_nametableIndex (m : Mirroring) {addr : UInt16} (h : 0x2000 ≤ addr.toNat) :
    (nametableIndex m addr).val = 0x0400 * m.tableAt addr.toNat + addr.toNat % 0x0400 := by
  have hsub : (addr - 0x2000).toNat = addr.toNat - 0x2000 :=
    UInt16.toNat_sub_of_le _ _ (UInt16.le_iff_toNat_le.mpr h)
  have hoffset : ((addr - 0x2000) % 0x1000).toNat = (addr.toNat - 0x2000) % 0x1000 := by
    rw [UInt16.toNat_mod, hsub]
    rfl
  show (m.fold addr).toNat % 0x0800 = _
  unfold Mirroring.fold
  dsimp only
  generalize (addr - 0x2000) % 0x1000 = offset at hoffset ⊢
  obtain ⟨hle, htable⟩ := m.toNat_physicalTable (show offset.toNat < 0x1000 by omega)
  have hmirror : addr.toNat % 0x1000 = offset.toNat % 0x1000 := by omega
  rw [m.tableAt_congr hmirror, ← htable]
  generalize m.physicalTable (offset / 0x0400) = table at hle ⊢
  simp only [UInt16.toNat_add, UInt16.toNat_mul, UInt16.toNat_mod, UInt16.toNat_ofNat,
    Nat.reducePow, Nat.reduceMod]
  omega

theorem foldEntry_eq : ∀ i : Fin 32,
    foldEntry i = if 16 ≤ i.val ∧ i.val % 4 = 0 then i.val - 16 else i.val := by
  decide

theorem foldEntry_lt : ∀ i : Fin 32, foldEntry i < 32 := by decide

theorem val_paletteIndex (n : UInt16) : (paletteIndex n).val = foldEntry (n.toNat % 32) :=
  (foldEntry_eq ⟨n.toNat % 32, Nat.mod_lt _ (by decide)⟩).symm

/-! ## One access -/

theorem toNat_bus (addr : UInt16) : (addr % 0x4000).toNat = addr.toNat % 0x4000 :=
  UInt16.toNat_mod ..

/-- A read finds the cell of its address. -/
theorem read_eq_content (s : Vram) (u : UxRom) (addr : UInt16) :
    s.read u addr = content s u (cellAt (Board.mirroring u) (addr.toNat % 0x4000)) := by
  rw [← toNat_bus, read, cellAt]
  generalize addr % 0x4000 = a
  by_cases hpattern : a < 0x2000
  · have hlt : a.toNat < 0x2000 := UInt16.lt_iff_toNat_lt.mp hpattern
    rw [if_pos hpattern, if_pos hlt]
    exact if_pos hpattern
  · have hle : 0x2000 ≤ a.toNat := UInt16.le_iff_toNat_le.mp (UInt16.not_lt.mp hpattern)
    rw [if_neg hpattern, if_neg (Nat.not_lt.mpr hle)]
    by_cases hnametable : a < 0x3F00
    · have hlt : a.toNat < 0x3F00 := UInt16.lt_iff_toNat_lt.mp hnametable
      rw [if_pos hnametable, if_pos hlt, ← val_nametableIndex _ hle]
      exact (Vector.getElem?_eq_getElem _).symm
    · have hle' : 0x3F00 ≤ a.toNat := UInt16.le_iff_toNat_le.mp (UInt16.not_lt.mp hnametable)
      rw [if_neg hnametable, if_neg (Nat.not_lt.mpr hle'), ← val_paletteIndex]
      exact (Vector.getElem?_eq_getElem _).symm

theorem read_of_nametable (s : Vram) (u : UxRom) {addr : UInt16} (hlow : 0x2000 ≤ addr.toNat)
    (hhigh : addr.toNat < 0x3F00) :
    s.read u addr = some (s.readNametable (Board.mirroring u) addr) := by
  have hbus : addr % 0x4000 = addr := by
    refine UInt16.toNat_inj.mp ?_
    rw [toNat_bus]
    omega
  have hpattern : ¬ addr < 0x2000 := UInt16.not_lt.mpr (UInt16.le_iff_toNat_le.mpr hlow)
  rw [read, hbus, if_neg hpattern, if_pos (UInt16.lt_iff_toNat_lt.mpr hhigh)]

/-- The number of an entry stands for the address of the entry. -/
theorem cellAt_entry (m : Mirroring) (number : UInt16) :
    cellAt m (0x3F00 + number.toNat % 32) = .palette (paletteIndex number).val := by
  have hmod : (0x3F00 + number.toNat % 32) % 32 = number.toNat % 32 := by omega
  rw [cellAt, if_neg (by omega), if_neg (by omega), hmod, val_paletteIndex]

theorem readPalette_eq_content (s : Vram) (u : UxRom) (m : Mirroring) (number : UInt16) :
    some (s.readPalette number) = content s u (cellAt m (0x3F00 + number.toNat % 32)) := by
  rw [cellAt_entry]
  exact (Vector.getElem?_eq_getElem _).symm

/-- A write by way of the cartridge changes one cell of picture memory. -/
theorem content_ppuWrite (s : Vram) {u : UxRom} (hchr : 0x2000 ≤ u.cartridge.chr.size)
    {a : UInt16} (h : a < 0x2000) (value : UInt8) (c : Cell) :
    content s (u.ppuWrite a value) c =
      if .pattern a.toNat = c then some value else content s u c := by
  have hlt : a.toNat < u.cartridge.chr.size :=
    Nat.lt_of_lt_of_le (UInt16.lt_iff_toNat_lt.mp h) hchr
  rw [UxRom.ppuWrite, if_pos h]
  cases c with
  | pattern i =>
      show (u.cartridge.chr.setIfInBounds a.toNat value)[i]? = _
      by_cases hsame : a.toNat = i
      · subst hsame
        rw [if_pos rfl]
        exact Array.getElem?_setIfInBounds_self_of_lt hlt
      · rw [if_neg fun hc => hsame (Cell.pattern.inj hc)]
        exact Array.getElem?_setIfInBounds_ne hsame
  | nametable i => exact (if_neg Cell.noConfusion).symm
  | palette i => exact (if_neg Cell.noConfusion).symm

theorem content_writeNametable (s : Vram) (u : UxRom) (m : Mirroring) (a : UInt16) (value : UInt8)
    (c : Cell) :
    content (s.writeNametable m a value) u c =
      if .nametable (nametableIndex m a).val = c then some value else content s u c := by
  cases c with
  | pattern i => exact (if_neg Cell.noConfusion).symm
  | nametable i =>
      show (s.nametable.set (nametableIndex m a) value)[i]? = _
      simp only [Vector.getElem?_set, Cell.nametable.injEq]
      rfl
  | palette i => exact (if_neg Cell.noConfusion).symm

theorem content_writePalette (s : Vram) (u : UxRom) (a : UInt16) (value : UInt8) (c : Cell) :
    content (s.writePalette a value) u c =
      if .palette (paletteIndex a).val = c then some value else content s u c := by
  cases c with
  | pattern i => exact (if_neg Cell.noConfusion).symm
  | nametable i => exact (if_neg Cell.noConfusion).symm
  | palette i =>
      show (s.palette.set (paletteIndex a) value)[i]? = _
      simp only [Vector.getElem?_set, Cell.palette.injEq]
      rfl

/-- A write changes the cell of its address and no other. -/
theorem content_write (s : Vram) {u : UxRom} (hchr : 0x2000 ≤ u.cartridge.chr.size)
    (addr : UInt16) (value : UInt8) (c : Cell) :
    content (s.write u addr value).1 (s.write u addr value).2 c =
      if cellAt (Board.mirroring u) (addr.toNat % 0x4000) = c then some value
      else content s u c := by
  rw [← toNat_bus, write, cellAt]
  generalize addr % 0x4000 = a
  by_cases hpattern : a < 0x2000
  · have hlt : a.toNat < 0x2000 := UInt16.lt_iff_toNat_lt.mp hpattern
    simp only [if_pos hpattern, if_pos hlt]
    exact content_ppuWrite s hchr hpattern value c
  · have hle : 0x2000 ≤ a.toNat := UInt16.le_iff_toNat_le.mp (UInt16.not_lt.mp hpattern)
    simp only [if_neg hpattern, if_neg (Nat.not_lt.mpr hle)]
    by_cases hnametable : a < 0x3F00
    · have hlt : a.toNat < 0x3F00 := UInt16.lt_iff_toNat_lt.mp hnametable
      simp only [if_pos hnametable, if_pos hlt, ← val_nametableIndex _ hle]
      exact content_writeNametable s u _ a value c
    · have hle' : 0x3F00 ≤ a.toNat := UInt16.le_iff_toNat_le.mp (UInt16.not_lt.mp hnametable)
      simp only [if_neg hnametable, if_neg (Nat.not_lt.mpr hle'), ← val_paletteIndex]
      exact content_writePalette s u a value c

/-! ## Writes -/

/-- A write by the picture unit: to an address, or to an entry of the palette. -/
inductive Write
  | byte (addr : UInt16) (value : UInt8)
  | entry (number : UInt16) (value : UInt8)
  deriving DecidableEq, Repr

namespace Write

/-- The fourteen bits of the address that is written to. -/
def addr : Write → Nat
  | byte addr _ => addr.toNat % 0x4000
  | entry number _ => 0x3F00 + number.toNat % 32

/-- The byte that is written. -/
def value : Write → UInt8
  | byte _ value => value
  | entry _ value => value

/-- The byte that is written to an address, under any of its names. -/
def byteFor? (m : Mirroring) (b : Nat) (w : Write) : Option UInt8 :=
  if Aliases m w.addr b then some w.value else none

end Write

/-- Carries out a write. -/
def apply (s : Vram × UxRom) : Write → Vram × UxRom
  | .byte addr value => s.1.write s.2 addr value
  | .entry number value => (s.1.writePalette number value, s.2)

/-- Carries out writes, one after the other. -/
def applyAll (s : Vram × UxRom) (ws : List Write) : Vram × UxRom := ws.foldl apply s

theorem applyAll_concat (s : Vram × UxRom) (ws : List Write) (w : Write) :
    applyAll s (ws ++ [w]) = apply (applyAll s ws) w :=
  List.foldl_concat ..

/-- The layout, and how much picture memory there is, do not change. -/
theorem kept_apply (s : Vram × UxRom) (w : Write) :
    Board.mirroring (apply s w).2 = Board.mirroring s.2 ∧
      (apply s w).2.cartridge.chr.size = s.2.cartridge.chr.size := by
  cases w with
  | byte addr value =>
      show (s.1.write s.2 addr value).2.cartridge.mirroring = _ ∧
        (s.1.write s.2 addr value).2.cartridge.chr.size = _
      unfold write
      dsimp only
      split
      · exact ⟨s.2.mirroring_ppuWrite _ value, s.2.size_chr_perform (.ppuWrite _ value)⟩
      · split <;> exact ⟨rfl, rfl⟩
  | entry number value => exact ⟨rfl, rfl⟩

theorem kept_applyAll (s : Vram × UxRom) (ws : List Write) :
    Board.mirroring (applyAll s ws).2 = Board.mirroring s.2 ∧
      (applyAll s ws).2.cartridge.chr.size = s.2.cartridge.chr.size := by
  induction ws using List.reverseRecOn with
  | nil => exact ⟨rfl, rfl⟩
  | append_singleton ws w ih =>
      rw [applyAll_concat, (kept_apply _ w).1, (kept_apply _ w).2]
      exact ih

/-- A write changes the cell it names, and nothing else. -/
theorem content_apply {s : Vram × UxRom} (hchr : 0x2000 ≤ s.2.cartridge.chr.size) (w : Write)
    (c : Cell) :
    content (apply s w).1 (apply s w).2 c =
      if cellAt (Board.mirroring s.2) w.addr = c then some w.value else content s.1 s.2 c := by
  cases w with
  | byte addr value => exact content_write s.1 hchr addr value c
  | entry number value =>
      simp only [Write.addr, cellAt_entry]
      exact content_writePalette s.1 s.2 number value c

/-- After any writes a cell holds the last byte written to an address that stands for it, or what it
held before them. -/
theorem content_applyAll {s : Vram × UxRom} (hchr : 0x2000 ≤ s.2.cartridge.chr.size)
    (ws : List Write) (b : Nat) :
    content (applyAll s ws).1 (applyAll s ws).2 (cellAt (Board.mirroring s.2) b) =
      (lastOf (Write.byteFor? (Board.mirroring s.2) b) ws).or
        (content s.1 s.2 (cellAt (Board.mirroring s.2) b)) := by
  induction ws using List.reverseRecOn with
  | nil => rfl
  | append_singleton ws w ih =>
      obtain ⟨hmirroring, hsize⟩ := kept_applyAll s ws
      rw [applyAll_concat, content_apply (by rw [hsize]; exact hchr), hmirroring, ih, lastOf_concat,
        Option.or_assoc]
      simp only [cellAt_eq_iff, Write.byteFor?]
      split <;> rfl

/-- The byte behind an address while nothing is written: that of the cartridge, or 0. -/
def firstByte (u : UxRom) (b : Nat) : UInt8 :=
  if b < 0x2000 then u.cartridge.chr.getD b 0 else 0

theorem content_blank {u : UxRom} (hchr : 0x2000 ≤ u.cartridge.chr.size) (b : Nat) :
    content blank u (cellAt (Board.mirroring u) b) = some (firstByte u b) := by
  unfold cellAt firstByte
  split
  · next hpattern =>
      have hlt : b < u.cartridge.chr.size := Nat.lt_of_lt_of_le hpattern hchr
      rw [content, Array.getElem?_eq_getElem hlt, Array.getD_eq_getD_getElem?,
        Array.getElem?_eq_getElem hlt, Option.getD_some]
  · split
    · have htable := (Board.mirroring u).tableAt_le b
      show (Vector.replicate nametableSize (0 : UInt8))[_]? = some 0
      rw [Vector.getElem?_replicate, if_pos]
      show _ < 0x0800
      omega
    · have hentry : foldEntry (b % 32) < 32 :=
        foldEntry_lt ⟨b % 32, Nat.mod_lt _ (by decide)⟩
      show (Vector.replicate paletteSize (0 : UInt8))[_]? = some 0
      rw [Vector.getElem?_replicate]
      exact if_pos hentry

theorem content_applyAll_blank {u : UxRom} (hchr : 0x2000 ≤ u.cartridge.chr.size)
    (ws : List Write) (b : Nat) :
    content (applyAll (blank, u) ws).1 (applyAll (blank, u) ws).2 (cellAt (Board.mirroring u) b) =
      some ((lastOf (Write.byteFor? (Board.mirroring u) b) ws).getD (firstByte u b)) := by
  have hcontent := content_applyAll (s := (blank, u)) hchr ws b
  rw [content_blank hchr] at hcontent
  refine hcontent.trans ?_
  cases lastOf (Write.byteFor? (Board.mirroring u) b) ws <;> rfl

/-- **Picture memory is memory modulo its mirrors.** After any writes to picture memory that was
blank, every read has a result. It is the byte last written to an address that stands for the same
byte, or the first one behind the address. -/
theorem read_applyAll {u : UxRom} (hchr : 0x2000 ≤ u.cartridge.chr.size) (ws : List Write) :
    let m := Board.mirroring u
    let s := applyAll (blank, u) ws
    (∀ addr : UInt16, s.1.read s.2 addr =
      some ((lastOf (Write.byteFor? m (addr.toNat % 0x4000)) ws).getD
        (firstByte u (addr.toNat % 0x4000)))) ∧
    ∀ number : UInt16, s.1.readPalette number =
      (lastOf (Write.byteFor? m (0x3F00 + number.toNat % 32)) ws).getD 0 := by
  intro m s
  have hmirroring : Board.mirroring s.2 = m := (kept_applyAll (blank, u) ws).1
  constructor
  · intro addr
    rw [read_eq_content, hmirroring]
    exact content_applyAll_blank hchr ws _
  · intro number
    have hfirst : firstByte u (0x3F00 + number.toNat % 32) = 0 := if_neg (by omega)
    apply Option.some.inj
    rw [readPalette_eq_content s.1 s.2 m, ← hfirst]
    exact content_applyAll_blank hchr ws _

/-- Four tables on memory for two: the first and the third are one. Addresses 4000 apart are one too,
and entry 10 of the palette is entry 00. -/
theorem read_applyAll_fourScreen :
    let u : UxRom := { UxRom.blank with
      cartridge := { UxRom.blank.cartridge with mirroring := .fourScreen } }
    let ws : List Write := [.byte 0x2005 1, .byte 0x6805 2, .byte 0x2405 3, .entry 0x50 4,
      .byte 0x3F04 5, .byte 0x5FFF 6]
    let s := applyAll (blank, u) ws
    0x2000 ≤ u.cartridge.chr.size ∧ s.1.read s.2 0x3005 = some 2 ∧ s.1.read s.2 0x2C05 = some 3 ∧
      s.1.read s.2 0x2006 = some 0 ∧ s.1.read s.2 0xFF00 = some 4 ∧ s.1.readPalette 0x14 = 5 ∧
      s.1.read s.2 0x1FFF = some 6 := by
  intro u ws s
  have hbuilt : UxRom.blank.cartridge.Built := .ofParts _ #[] 0 .horizontal false (.inl rfl)
  have hchr : 0x2000 ≤ u.cartridge.chr.size := hbuilt.le_size_chr
  obtain ⟨hread, hentry⟩ := read_applyAll hchr ws
  exact ⟨hchr, (hread 0x3005).trans rfl, (hread 0x2C05).trans rfl, (hread 0x2006).trans rfl,
    (hread 0xFF00).trans rfl, (hentry 0x14).trans rfl, (hread 0x1FFF).trans rfl⟩

end Vram

end Nes
