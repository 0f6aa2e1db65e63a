import Nes.Board.UxRom
import Nes.Proofs.Machine.Trace

/-!
# Copying a page into sprite memory

A program can fill sprite memory byte by byte: it reads a page and writes each byte to the register
for sprite memory (`copyByHand`). Or it writes the number of the page to one address and has the
console do this at once. Both leave the same memory, whatever the reads themselves have done to the
picture unit (`pageCopy`); only the latch tells them apart, which holds the last byte that the
program has written itself.
-/

set_option autoImplicit false

namespace Nes

/-- The addresses of a page, in ascending order. -/
def pageAddresses (page : UInt8) : List UInt16 :=
  (List.range 256).map fun i => UInt16.ofNat (256 * page.toNat + i)

theorem toNat_pageAddress (page : UInt8) {i : Nat} (hi : i < 256) :
    (UInt16.ofNat (256 * page.toNat + i)).toNat = 256 * page.toNat + i := by
  have hpage := page.toNat_lt
  exact UInt16.toNat_ofNat_of_lt' (by simp only [UInt16.size]; omega)

theorem mem_pageAddresses {page : UInt8} {addr : UInt16} (h : addr ∈ pageAddresses page) :
    addr.toNat / 256 = page.toNat := by
  obtain ⟨i, hi, rfl⟩ := List.mem_map.mp h
  have hlt := List.mem_range.mp hi
  rw [toNat_pageAddress page hlt]
  omega

namespace CpuMemory

variable {μ : Type} [Board μ]

/-! ## Byte by byte -/

/-- Reads addresses one after the other. -/
def readEach : List UInt16 → CpuMemory μ → List UInt8 × CpuMemory μ
  | [], m => ([], m)
  | addr :: rest, m =>
      let r := m.read addr
      let others := readEach rest r.2
      (r.1 :: others.1, others.2)

/-- Reads a page, and writes what it has read to the register for sprite memory. -/
def copyByHand (m : CpuMemory μ) (page : UInt8) : CpuMemory μ :=
  let r := readEach (pageAddresses page) m
  r.1.foldl (fun m byte => m.write 0x2004 byte) r.2

theorem length_readEach (addrs : List UInt16) (m : CpuMemory μ) :
    (readEach addrs m).1.length = addrs.length := by
  induction addrs generalizing m with
  | nil => rfl
  | cons addr rest ih => rw [readEach, List.length_cons, ih, List.length_cons]

/-- Consecutive addresses are read one after the other. -/
theorem readRange_eq_readEach (n : Nat) (m : CpuMemory μ) (start : Nat) (acc : Array UInt8) :
    readRange read n m (UInt16.ofNat start) acc =
      let r := readEach ((List.range n).map fun i => UInt16.ofNat (start + i)) m
      (acc ++ r.1.toArray, r.2) := by
  induction n generalizing m start acc with
  | zero => simp [readRange, readEach]
  | succ n ih =>
      have hrest : (List.range (n + 1)).map (fun i => UInt16.ofNat (start + i)) =
          UInt16.ofNat start :: (List.range n).map fun i => UInt16.ofNat (start + 1 + i) := by
        rw [List.range_succ_eq_map, List.map_cons, List.map_map]
        simp only [Function.comp_def, Nat.succ_eq_add_one, Nat.add_zero, Nat.add_assoc,
          Nat.add_comm 1]
      have hnext : UInt16.ofNat start + 1 = UInt16.ofNat (start + 1) :=
        (UInt16.ofNat_add start 1).symm
      rw [readRange, hnext, ih, hrest, readEach]
      simp

theorem pageStart_eq (page : UInt8) : pageStart page = UInt16.ofNat (256 * page.toNat) := by
  apply UInt16.toNat.inj
  rw [pageStart, UInt16.toNat_shiftLeft, UInt8.toNat_toUInt16, UInt16.toNat_ofNat, Nat.shiftLeft_eq,
    Nat.mul_comm]
  rfl

theorem readPage_eq_readEach (m : CpuMemory μ) (page : UInt8) :
    readPage read m page =
      ((readEach (pageAddresses page) m).1.toArray, (readEach (pageAddresses page) m).2) := by
  rw [readPage, pageStart_eq, readRange_eq_readEach]
  simp [dmaTransferSize, pageAddresses]

/-- A byte written to the register for sprite memory is stored there, and stays in the latch. -/
theorem write_oamData (m : CpuMemory μ) (byte : UInt8) :
    m.write 0x2004 byte = { m with ppu := { m.ppu with latch := byte }.writeOam byte } := by
  have hregister : registerAddress 0x2004 = 0x2004 := by decide
  have hat : Register.at? 0x2004 = some .oamData := by decide
  rw [write, if_neg (by decide), if_pos (by decide), hregister, Ppu.writeRegister, hat]

/-- Writing bytes one by one does to memory what storing them as a page does, but for the latch. -/
theorem foldl_write_oamData (bytes : List UInt8) (m : CpuMemory μ) (page : UInt8) :
    { (bytes.foldl (fun m byte => m.write 0x2004 byte) m) with
        ppu := { (bytes.foldl (fun m byte => m.write 0x2004 byte) m).ppu with latch := page } } =
      { m with ppu := m.ppu.writeOamPage page bytes.toArray } := by
  rw [Ppu.writeOamPage, List.foldl_toArray]
  induction bytes generalizing m with
  | nil => rfl
  | cons byte rest ih =>
      rw [List.foldl_cons, ih, write_oamData]
      rfl

/-- A transfer reads the page, stores it, and leaves a report and a notice. -/
theorem write_oamDma (m : CpuMemory μ) (page : UInt8) :
    ∃ journal, m.write oamDmaAddress page =
      { (readEach (pageAddresses page) m).2 with
        ppu := (readEach (pageAddresses page) m).2.ppu.writeOamPage page
          (readEach (pageAddresses page) m).1.toArray
        oamDma := true
        journal := journal } := by
  obtain ⟨journal, hcopy⟩ := m.copyPage_shape page
  have hread := m.readPage_eq_readEach page
  generalize readEach (pageAddresses page) m = r at hread
  rw [hread] at hcopy
  exact ⟨journal, (m.write_oamDmaAddress page).trans hcopy⟩

/-- The two ways to copy a page leave the same memory, but for the latch, the report and the notice.
-/
theorem write_oamDma_eq_copyByHand (m : CpuMemory μ) (page : UInt8) :
    ∃ journal, m.write oamDmaAddress page =
      { m.copyByHand page with
        ppu := { (m.copyByHand page).ppu with latch := page }
        oamDma := true
        journal := journal } := by
  obtain ⟨journal, hwrite⟩ := m.write_oamDma page
  rw [copyByHand, hwrite]
  generalize readEach (pageAddresses page) m = r
  have hstore := foldl_write_oamData r.1 r.2 page
  refine ⟨journal, ?_⟩
  exact congrArg (fun c : CpuMemory μ => { c with oamDma := true, journal := journal }) hstore.symm

/-- Reads leave the address of sprite memory alone, reads of the registers too. -/
theorem oamAddr_readEach (addrs : List UInt16) (m : CpuMemory μ) :
    (readEach addrs m).2.ppu.oamAddr = m.ppu.oamAddr := by
  have hread : ∀ (m : CpuMemory μ) (addr : UInt16),
      (m.read addr).2.ppu.oamAddr = m.ppu.oamAddr := by
    intro m addr
    unfold read
    split
    · rfl
    · split
      · obtain ⟨_, _, _, _, _, h⟩ := m.ppu.readRegister_shape m.board (registerAddress addr)
        show (m.ppu.readRegister m.board (registerAddress addr)).2.oamAddr = m.ppu.oamAddr
        rw [h]
      · split <;> rfl
  induction addrs generalizing m with
  | nil => rfl
  | cons addr rest ih => rw [readEach, ih, hread]

/-- Outside the registers a read changes nothing on a console. -/
theorem snd_read_of_not_register {m : CpuMemory UxRom} {addr : UInt16}
    (h : addr.toNat < 0x2000 ∨ 0x4000 ≤ addr.toNat) : (m.read addr).2 = m := by
  unfold read
  split
  · rfl
  · next hlow =>
      split
      · next hhigh =>
          have hlow' : ¬ addr.toNat < 0x2000 := fun h' => hlow (UInt16.lt_iff_toNat_lt.mpr h')
          have hhigh' : addr.toNat < 0x4000 := UInt16.lt_iff_toNat_lt.mp hhigh
          omega
      · split <;> rfl

/-- Between the registers and save memory there is nothing to read. -/
theorem fst_read_of_unanswered {m : CpuMemory μ} {addr : UInt16} (hlow : 0x4000 ≤ addr.toNat)
    (hhigh : addr.toNat < 0x6000) : (m.read addr).1 = 0 := by
  have hnot : ∀ bound : UInt16, bound.toNat ≤ 0x4000 → ¬ addr < bound := by
    intro bound hbound hlt
    have hlt' := UInt16.lt_iff_toNat_lt.mp hlt
    omega
  rw [read, if_neg (hnot 0x2000 (by decide)), if_neg (hnot 0x4000 (by decide)),
    if_pos (UInt16.lt_iff_toNat_lt.mpr hhigh)]

theorem snd_readEach_of_not_register {addrs : List UInt16} {m : CpuMemory UxRom}
    (h : ∀ addr ∈ addrs, addr.toNat < 0x2000 ∨ 0x4000 ≤ addr.toNat) :
    (readEach addrs m).2 = m := by
  induction addrs with
  | nil => rfl
  | cons addr rest ih =>
      have hfirst : (m.read addr).2 = m := snd_read_of_not_register (h addr List.mem_cons_self)
      rw [readEach, hfirst]
      exact ih fun addr' h' => h addr' (List.mem_cons_of_mem addr h')

theorem fst_readEach_of_unanswered {addrs : List UInt16} {m : CpuMemory μ}
    (h : ∀ addr ∈ addrs, 0x4000 ≤ addr.toNat ∧ addr.toNat < 0x6000) :
    ∀ byte ∈ (readEach addrs m).1, byte = 0 := by
  induction addrs generalizing m with
  | nil => nofun
  | cons addr rest ih =>
      intro byte hbyte
      rcases List.mem_cons.mp hbyte with rfl | hrest
      · obtain ⟨hlow, hhigh⟩ := h addr List.mem_cons_self
        exact fst_read_of_unanswered hlow hhigh
      · exact ih (fun addr' h' => h addr' (List.mem_cons_of_mem addr h')) byte hrest

/-- Between the registers and save memory all bytes of a page are 0. -/
theorem fst_readEach_page (m : CpuMemory μ) (page : UInt8) (hlow : 0x40 ≤ page)
    (hhigh : page < 0x60) : ∀ byte ∈ (readEach (pageAddresses page) m).1, byte = 0 := by
  apply fst_readEach_of_unanswered
  intro addr haddr
  have hpage := mem_pageAddresses haddr
  have hlow' : 0x40 ≤ page.toNat := UInt8.le_iff_toNat_le.mp hlow
  have hhigh' : page.toNat < 0x60 := UInt8.lt_iff_toNat_lt.mp hhigh
  omega

/-- Reading a page that is not made of registers changes nothing. -/
theorem snd_readEach_page (m : CpuMemory UxRom) (page : UInt8) (hpage : page < 0x20 ∨ 0x40 ≤ page) :
    (readEach (pageAddresses page) m).2 = m := by
  apply snd_readEach_of_not_register
  intro addr haddr
  have hin := mem_pageAddresses haddr
  rcases hpage with hlow | hhigh
  · have hlow' : page.toNat < 0x20 := UInt8.lt_iff_toNat_lt.mp hlow
    omega
  · have hhigh' : 0x40 ≤ page.toNat := UInt8.le_iff_toNat_le.mp hhigh
    omega

end CpuMemory

/-! ## Sprite memory -/

namespace Ppu

/-- Storing bytes changes sprite memory and its address only. -/
theorem foldl_writeOam_shape (bytes : List UInt8) (p : Ppu) :
    ∃ oam, bytes.foldl writeOam p =
      { p with oam := oam, oamAddr := p.oamAddr + UInt8.ofNat bytes.length } := by
  induction bytes generalizing p with
  | nil => exact ⟨p.oam, by simp⟩
  | cons byte rest ih =>
      obtain ⟨oam, h⟩ := ih (p.writeOam byte)
      have haddr : p.oamAddr + 1 + UInt8.ofNat rest.length =
          p.oamAddr + UInt8.ofNat (byte :: rest).length := by
        rw [List.length_cons, Nat.add_comm, UInt8.ofNat_add, ← UInt8.add_assoc]
        rfl
      refine ⟨oam, ?_⟩
      rw [List.foldl_cons, h, ← haddr]
      rfl

/-- Up to a page of bytes lies in sprite memory from its address on, back to the start behind the
end. -/
theorem oam_foldl_writeOam {bytes : List UInt8} (hlength : bytes.length ≤ 256) (p : Ppu) {k : Nat}
    (hk : k < 256) :
    (bytes.foldl writeOam p).oam[k] =
      (bytes[(k + (256 - p.oamAddr.toNat)) % 256]?).getD p.oam[k] := by
  induction bytes generalizing p with
  | nil => rfl
  | cons byte rest ih =>
      have ha := p.oamAddr.toNat_lt
      have hlast : rest.length ≤ 255 := Nat.le_of_succ_le_succ hlength
      have haddr : (p.writeOam byte).oamAddr.toNat = (p.oamAddr.toNat + 1) % 256 := by
        rw [writeOam, UInt8.toNat_add]
        rfl
      rw [List.foldl_cons, ih (Nat.le_succ_of_le hlast), haddr]
      by_cases hka : k = p.oamAddr.toNat
      · -- this byte is stored here, and the others do not come round to it
        have hfirst : (k + (256 - p.oamAddr.toNat)) % 256 = 0 := by omega
        have hround : (k + (256 - (p.oamAddr.toNat + 1) % 256)) % 256 = 255 := by omega
        rw [hfirst, hround, List.getElem?_eq_none hlast, Option.getD_none, List.getElem?_cons_zero,
          Option.getD_some]
        simp [writeOam, hka]
      · have hnext : (k + (256 - p.oamAddr.toNat)) % 256 =
            (k + (256 - (p.oamAddr.toNat + 1) % 256)) % 256 + 1 := by omega
        have hkept : (p.writeOam byte).oam[k] = p.oam[k] := by
          rw [writeOam]
          exact Vector.getElem_set_ne p.oamAddr.toNat_lt hk (Ne.symm hka)
        rw [hnext, List.getElem?_cons_succ, hkept]

/-- A whole page fills sprite memory. -/
theorem oam_foldl_writeOam_page {bytes : List UInt8} (hlength : bytes.length = 256) (p : Ppu)
    {i : Nat} (hi : i < 256) :
    bytes[i]? =
      some ((bytes.foldl writeOam p).oam.get (Fin.ofNat 256 (p.oamAddr.toNat + i))) := by
  have ha := p.oamAddr.toNat_lt
  have hplace : ((p.oamAddr.toNat + i) % 256 + (256 - p.oamAddr.toNat)) % 256 = i := by omega
  have hk : (p.oamAddr.toNat + i) % 256 < 256 := Nat.mod_lt _ (Nat.succ_pos 255)
  obtain ⟨byte, hbyte⟩ : ∃ byte, bytes[i]? = some byte :=
    ⟨_, List.getElem?_eq_getElem (hlength ▸ hi)⟩
  have hstored := oam_foldl_writeOam (Nat.le_of_eq hlength) p hk
  rw [hplace, hbyte, Option.getD_some] at hstored
  rw [hbyte, ← hstored]
  rfl

end Ppu

/-! ## The copy -/

/-- What writing the number of a page to the address of the transfer does. -/
structure CopiesPage (m : CpuMemory UxRom) (page : UInt8) : Prop where
  /-- Work RAM is what reading the page and writing it byte by byte leaves. -/
  ram : (m.write oamDmaAddress page).ram = (m.copyByHand page).ram
  /-- So is the board. -/
  board : (m.write oamDmaAddress page).board = (m.copyByHand page).board
  /-- So is the picture unit, sprite memory included, but for the latch. -/
  ppu : (m.write oamDmaAddress page).ppu = { (m.copyByHand page).ppu with latch := page }
  /-- The transfer is reported once. -/
  reported : ∃ m', Bus.takeOamDma (m.write oamDmaAddress page) = (true, m') ∧
    (Bus.takeOamDma m').1 = false
  /-- The bytes of the page lie in sprite memory from its address on, back to the start behind the
  end. -/
  oam : ∀ i, i < 256 → (CpuMemory.readEach (pageAddresses page) m).1[i]? =
    some ((m.write oamDmaAddress page).ppu.oam.get (Fin.ofNat 256 (m.ppu.oamAddr.toNat + i)))
  /-- The address of sprite memory is back where it was. -/
  oamAddr : (m.write oamDmaAddress page).ppu.oamAddr = m.ppu.oamAddr
  /-- Where nothing answers, zeros are copied. -/
  unanswered : 0x40 ≤ page → page < 0x60 →
    ∀ byte ∈ (CpuMemory.readEach (pageAddresses page) m).1, byte = 0
  /-- Unless the page consists of registers, nothing else changes. -/
  kept : page < 0x20 ∨ 0x40 ≤ page →
    (m.write oamDmaAddress page).ram = m.ram ∧ (m.write oamDmaAddress page).board = m.board ∧
      ∃ oam, (m.write oamDmaAddress page).ppu = { m.ppu with oam := oam, latch := page }

/-- **A transfer copies a page as a program would do it byte by byte.** -/
theorem pageCopy (m : CpuMemory UxRom) (page : UInt8) : CopiesPage m page := by
  obtain ⟨_, hhand⟩ := m.write_oamDma_eq_copyByHand page
  obtain ⟨_, hcopy⟩ := m.write_oamDma page
  have hlength : (CpuMemory.readEach (pageAddresses page) m).1.length = 256 := by
    rw [CpuMemory.length_readEach, pageAddresses, List.length_map, List.length_range]
  have haddr := CpuMemory.oamAddr_readEach (pageAddresses page) m
  have hzero := m.fst_readEach_page page
  have hstill := m.snd_readEach_page page
  generalize hr : CpuMemory.readEach (pageAddresses page) m = r at hcopy hlength haddr hzero hstill
  have hppu : (m.write oamDmaAddress page).ppu =
      r.1.foldl Ppu.writeOam { r.2.ppu with latch := page } := by
    rw [hcopy]
    exact List.foldl_toArray ..
  obtain ⟨oam, hshape⟩ := Ppu.foldl_writeOam_shape r.1 { r.2.ppu with latch := page }
  have hround : r.2.ppu.oamAddr + UInt8.ofNat r.1.length = m.ppu.oamAddr := by
    rw [hlength, haddr]
    exact UInt8.add_zero _
  constructor
  case ram => rw [hhand]
  case board => rw [hhand]
  case ppu => rw [hhand]
  case reported =>
    rw [hhand]
    exact ⟨_, rfl, rfl⟩
  case oam =>
    intro i hi
    have hstored := Ppu.oam_foldl_writeOam_page hlength { r.2.ppu with latch := page } hi
    rw [hr, hppu, hstored, haddr]
  case oamAddr =>
    rw [hppu, hshape]
    exact hround
  case unanswered =>
    rw [hr]
    exact hzero
  case kept =>
    intro hpage
    have hsame : r.2 = m := hstill hpage
    refine ⟨?_, ?_, oam, ?_⟩
    · rw [hcopy, hsame]
    · rw [hcopy, hsame]
    · rw [hppu, hshape]
      dsimp only
      rw [hround, hsame]

end Nes
