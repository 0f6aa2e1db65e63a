import Nes.Proofs.Ppu.AddressSpace
import Nes.Proofs.Ppu.ScrollLatch
import Nes.Proofs.Ppu.Session

/-!
# Bytes written to picture memory and read back

A program sets an address, writes some bytes through the data register, sets the address again and
reads them back. The address moves on with every byte, by one column or by one row (`stride`). The
bytes are there if no two of the addresses stand for the same byte (`Vram.Apart`).

Below the palette a read hands over what the read before it has fetched, so the bytes come one read
late, behind the byte that was fetched last before they were written. A palette entry comes at once,
and the buffer takes the byte of the nametable under it.
-/

set_option autoImplicit false

namespace Nes

/-- No two of some addresses stand for the same byte. They start at an address and lie some steps
apart. -/
def Vram.Apart (m : Mirroring) (first step count : Nat) : Prop :=
  ∀ j < count, ∀ i < j, ¬ Aliases m (first + i * step) (first + j * step)

instance (m : Mirroring) (first step count : Nat) : Decidable (Vram.Apart m first step count) :=
  inferInstanceAs (Decidable (∀ _ < _, ∀ _ < _, ¬ _))

namespace Ppu

/-- How far an access moves the current address. -/
def stride (p : Ppu) : Nat := if p.incrementsBy32 then 32 else 1

theorem stride_le (p : Ppu) : p.stride ≤ 32 := by
  unfold stride
  split <;> omega

theorem toNat_advanceAddress {p : Ppu} (h : p.scroll.v.toNat < 0x4000) :
    p.advanceAddress.scroll.v.toNat = p.scroll.v.toNat + p.stride := by
  have hstride : (if p.incrementsBy32 then 32 else 1 : UInt16).toNat = p.stride := by
    unfold stride
    split <;> rfl
  have hle := p.stride_le
  show (p.scroll.advance _).v.toNat = _
  rw [Scroll.toNat_advance _ _ (by omega), hstride]

namespace Session

/-! ## Requests -/

/-- Sets the current address, its high byte first. -/
def pointAt (addr : UInt16) : List Request :=
  [.write 0x2006 (addr >>> 8).toUInt8, .write 0x2006 addr.toUInt8]

/-- Sets the current address after some reads of the status. -/
def locate (statusReads : Nat) (addr : UInt16) : List Request :=
  List.replicate statusReads (.read 0x2002) ++ pointAt addr

/-- Reads the status, sets the current address and writes bytes from it on. -/
def upload (addr : UInt16) (bytes : List UInt8) : List Request :=
  locate 1 addr ++ bytes.map (.write 0x2007)

/-- Reads some bytes from the current address on. -/
def fetches (count : Nat) : List Request := List.replicate count (.read 0x2007)

theorem performAll_pointAt {μ : Type} [Board μ] {s : Session μ} (h : s.ppu.scroll.Bounded)
    (hsecond : s.ppu.scroll.second = false) {addr : UInt16} (haddr : addr.toNat < 0x4000) :
    s.performAll (pointAt addr) =
      { s with ppu :=
        { s.ppu with
          scroll := { v := addr, t := addr, fineX := s.ppu.scroll.fineX, second := false }
          latch := addr.toUInt8 } } := by
  have hscroll := Scroll.eq_of_address h hsecond (addr >>> 8).toUInt8 addr.toUInt8
  rw [Scroll.ofBytes_bytes haddr] at hscroll
  rw [← hscroll]
  rfl

/-! ## Bytes in picture memory -/

/-- The byte of picture memory behind an address. -/
def byteAt (s : Session UxRom) (addr : Nat) : Option UInt8 :=
  s.ppu.vram.content s.board (Vram.cellAt (Board.mirroring s.board) addr)

/-- Some bytes are in picture memory, from an address on and some steps apart. -/
def Holds (s : Session UxRom) (first step : Nat) (bytes : List UInt8) : Prop :=
  ∀ (i : Nat) (h : i < bytes.length), s.byteAt (first + i * step) = some bytes[i]

/-! ## One access -/

variable {s : Session UxRom}

/-- What a read leaves in the buffer: the byte behind the current address, or that of the nametable
under a palette entry. -/
def fetched (s : Session UxRom) : UInt8 :=
  if s.ppu.scroll.v % 0x4000 < 0x3F00 then s.ppu.peek s.board s.ppu.scroll.v
  else s.ppu.peek s.board (s.ppu.scroll.v - 0x1000)

/-- A byte that is known to be there is what looking at its address gives. -/
theorem peek_eq {value : UInt8} (hv : s.ppu.scroll.v.toNat < 0x4000)
    (h : s.byteAt s.ppu.scroll.v.toNat = some value) :
    s.ppu.peek s.board s.ppu.scroll.v = value := by
  rw [peek, Vram.read_eq_content, Nat.mod_eq_of_lt hv]
  exact congrArg (·.getD 0) h

/-- The address is compared as the picture unit sees it. -/
theorem below_palette_iff (hv : s.ppu.scroll.v.toNat < 0x4000) :
    s.ppu.scroll.v % 0x4000 < 0x3F00 ↔ s.ppu.scroll.v.toNat < 0x3F00 := by
  rw [UInt16.lt_iff_toNat_lt, Vram.toNat_bus, Nat.mod_eq_of_lt hv]
  rfl

theorem byte?_readData_of_below (hv : s.ppu.scroll.v.toNat < 0x3F00) :
    s.byte? (.read 0x2007) = some s.ppu.buffer := by
  have hbelow := (below_palette_iff (s := s) (by omega)).mpr hv
  show some (s.ppu.readData s.board).1 = _
  unfold readData
  dsimp only
  rw [if_pos hbelow]

theorem byte?_readData_of_palette {value : UInt8} (hlow : 0x3F00 ≤ s.ppu.scroll.v.toNat)
    (hhigh : s.ppu.scroll.v.toNat ≤ 0x3FFF)
    (h : s.byteAt s.ppu.scroll.v.toNat = some value) :
    s.byte? (.read 0x2007) = some value := by
  have hpalette := mt (below_palette_iff (s := s) (by omega)).mp (Nat.not_lt.mpr hlow)
  show some (s.ppu.readData s.board).1 = _
  unfold readData
  dsimp only
  rw [if_neg hpalette, peek_eq (by omega) h]

variable (hchr : 0x2000 ≤ s.board.cartridge.chr.size)
include hchr

/-- Nothing is missing, so an access does not set the flag that tells of it. -/
theorem fault_or_lacksByte : (s.ppu.fault || s.ppu.lacksByte s.board) = s.ppu.fault := by
  rw [(UxRom.completeChr hchr).lacksByte_eq_false, Bool.or_false]

theorem perform_writeData (value : UInt8) :
    s.perform (.write 0x2007 value) =
      { ppu := { s.ppu.advanceAddress with
          latch := value
          vram := (s.ppu.vram.write s.board s.ppu.scroll.v value).1 }
        board := (s.ppu.vram.write s.board s.ppu.scroll.v value).2 } := by
  show (⟨{ s.ppu.advanceAddress with
      latch := value
      vram := (s.ppu.vram.write s.board s.ppu.scroll.v value).1
      fault := s.ppu.fault || s.ppu.lacksByte s.board }, _⟩ : Session UxRom) = _
  rw [fault_or_lacksByte hchr]
  rfl

/-- A write puts its byte behind the current address, and leaves alone what is behind others. -/
theorem byteAt_perform_writeData (hv : s.ppu.scroll.v.toNat < 0x4000) (value : UInt8) (addr : Nat) :
    (s.perform (.write 0x2007 value)).byteAt addr =
      if Vram.Aliases (Board.mirroring s.board) s.ppu.scroll.v.toNat addr then some value
      else s.byteAt addr := by
  have hkept := Vram.kept_apply (s.ppu.vram, s.board) (.byte s.ppu.scroll.v value)
  have hmirroring : Board.mirroring (s.ppu.vram.write s.board s.ppu.scroll.v value).2 =
      Board.mirroring s.board := hkept.1
  rw [perform_writeData hchr, byteAt, hmirroring]
  show Vram.content (s.ppu.vram.write s.board s.ppu.scroll.v value).1 _ _ = _
  rw [Vram.content_write _ hchr, Nat.mod_eq_of_lt hv]
  simp only [Vram.cellAt_eq_iff]
  rfl

theorem perform_readData :
    s.perform (.read 0x2007) =
      { s with ppu := { s.ppu.advanceAddress with buffer := s.fetched } } := by
  show ({ s with ppu := (s.ppu.readData s.board).2 } : Session UxRom) = _
  unfold readData fetched
  dsimp only
  rw [fault_or_lacksByte hchr]
  split <;> rfl

theorem buffer_readData_of_below {value : UInt8} (hv : s.ppu.scroll.v.toNat < 0x3F00)
    (h : s.byteAt s.ppu.scroll.v.toNat = some value) :
    (s.perform (.read 0x2007)).ppu.buffer = value := by
  have hv' : s.ppu.scroll.v.toNat < 0x4000 := by omega
  rw [perform_readData hchr]
  exact (if_pos ((below_palette_iff hv').mpr hv)).trans (peek_eq hv' h)

/-- Reading a palette entry leaves the byte of the nametable under it in the buffer. -/
theorem buffer_readData_of_palette (hlow : 0x3F00 ≤ s.ppu.scroll.v.toNat)
    (hhigh : s.ppu.scroll.v.toNat ≤ 0x3FFF) :
    (s.perform (.read 0x2007)).ppu.buffer =
      s.ppu.vram.readNametable (Board.mirroring s.board)
        (UInt16.ofNat (s.ppu.scroll.v.toNat - 0x1000)) := by
  have hpalette := mt (below_palette_iff (s := s) (by omega)).mp (Nat.not_lt.mpr hlow)
  have hunder : (UInt16.ofNat (s.ppu.scroll.v.toNat - 0x1000)).toNat =
      s.ppu.scroll.v.toNat - 0x1000 := UInt16.toNat_ofNat_of_lt' (show _ < 65536 by omega)
  have hsub : s.ppu.scroll.v - 0x1000 = UInt16.ofNat (s.ppu.scroll.v.toNat - 0x1000) := by
    refine UInt16.toNat_inj.mp ?_
    rw [hunder]
    exact UInt16.toNat_sub_of_le _ _ (UInt16.le_iff_toNat_le.mpr (Nat.le_trans (by decide) hlow))
  rw [perform_readData hchr]
  refine (if_neg hpalette).trans ?_
  rw [hsub, peek, Vram.read_of_nametable _ _ (by omega) (by omega), Option.getD_some]

end Session

/-! ## Many accesses -/

namespace Session

/-- The address is set to a place, and of the rest only what the registers need for that has
changed. -/
structure Located (s t : Session UxRom) (addr : UInt16) : Prop where
  v : t.ppu.scroll.v = addr
  bounded : t.ppu.scroll.Bounded
  second : t.ppu.scroll.second = false
  shape : t = { s with
    ppu := { s.ppu with scroll := t.ppu.scroll, latch := t.ppu.latch, nmi := t.ppu.nmi } }

/-- Reads of the status, however many, do not come between an address and its place. -/
theorem located_locate {s : Session UxRom} (hbounded : s.ppu.scroll.Bounded) {addr : UInt16}
    (haddr : addr.toNat < 0x4000) (statusReads : Nat)
    (hsecond : statusReads = 0 → s.ppu.scroll.second = false) :
    s.Located (s.performAll (locate statusReads addr)) addr := by
  induction statusReads generalizing s with
  | zero =>
      rw [locate, List.replicate_zero, List.nil_append,
        performAll_pointAt hbounded (hsecond rfl) haddr]
      have hlt : addr.toNat < 0x8000 := by omega
      exact ⟨rfl, ⟨hlt, hlt, hbounded.fineX_lt⟩, rfl, rfl⟩
  | succ statusReads ih =>
      have h := ih (s := s.perform (.read 0x2002)) hbounded.resetToggle fun _ => rfl
      exact ⟨h.v, h.bounded, h.second, h.shape⟩

/-- Some bytes have been stored: they are in picture memory, from an address on and a stride apart,
and what is behind other addresses is as it was. -/
structure Stored (s t : Session UxRom) (first : Nat) (bytes : List UInt8) : Prop where
  stride : t.ppu.stride = s.ppu.stride
  buffer : t.ppu.buffer = s.ppu.buffer
  fault : t.ppu.fault = s.ppu.fault
  mirroring : Board.mirroring t.board = Board.mirroring s.board
  size_chr : t.board.cartridge.chr.size = s.board.cartridge.chr.size
  holds : t.Holds first s.ppu.stride bytes
  others : ∀ addr, (∀ i < bytes.length, ¬ Vram.Aliases (Board.mirroring s.board)
    (first + i * s.ppu.stride) addr) → t.byteAt addr = s.byteAt addr

theorem Stored.of_located {s s' t t' : Session UxRom} {first : Nat} {bytes : List UInt8}
    {addr addr' : UInt16} (h : s'.Stored t first bytes) (hs : s.Located s' addr)
    (ht : t.Located t' addr') : s.Stored t' first bytes := by
  rw [hs.shape] at h
  rw [ht.shape]
  exact ⟨h.stride, h.buffer, h.fault, h.mirroring, h.size_chr, h.holds, h.others⟩

/-- Entries of the palette are behind addresses of the palette only, so storing them leaves the
nametables alone. -/
theorem Stored.readNametable {s t : Session UxRom} {first : Nat} {bytes : List UInt8}
    (h : s.Stored t first bytes)
    (hpalette : ∀ i < bytes.length, 0x3F00 ≤ first + i * s.ppu.stride) {addr : UInt16}
    (hlow : 0x2000 ≤ addr.toNat) (hhigh : addr.toNat < 0x3F00) :
    t.ppu.vram.readNametable (Board.mirroring t.board) addr =
      s.ppu.vram.readNametable (Board.mirroring s.board) addr := by
  have hbyteAt : ∀ s : Session UxRom, s.byteAt addr.toNat =
      some (s.ppu.vram.readNametable (Board.mirroring s.board) addr) := by
    intro s
    rw [← Vram.read_of_nametable _ _ hlow hhigh, Vram.read_eq_content, Nat.mod_eq_of_lt (by omega)]
    rfl
  have hsame := h.others addr.toNat fun i hi halias => by
    -- both are entries of the palette, or neither is
    have hi' := hpalette i hi
    unfold Vram.Aliases at halias
    omega
  rwa [hbyteAt, hbyteAt, Option.some.injEq] at hsame

/-- What writing some bytes has done to a session: they are stored from the address on that was
current before, and the address has moved on behind them. -/
structure Uploaded (s t : Session UxRom) (bytes : List UInt8) : Prop
    extends s.Stored t s.ppu.scroll.v.toNat bytes where
  v : t.ppu.scroll.v.toNat = s.ppu.scroll.v.toNat + bytes.length * s.ppu.stride
  bounded : t.ppu.scroll.Bounded
  second : t.ppu.scroll.second = s.ppu.scroll.second

/-- One byte more. -/
theorem Uploaded.writeData {s t : Session UxRom} {bytes : List UInt8} (h : s.Uploaded t bytes)
    (hchr : 0x2000 ≤ s.board.cartridge.chr.size)
    (hv : s.ppu.scroll.v.toNat + bytes.length * s.ppu.stride < 0x4000)
    (hapart : ∀ i < bytes.length, ¬ Vram.Aliases (Board.mirroring s.board)
      (s.ppu.scroll.v.toNat + i * s.ppu.stride)
      (s.ppu.scroll.v.toNat + bytes.length * s.ppu.stride)) (value : UInt8) :
    s.Uploaded (t.perform (.write 0x2007 value)) (bytes ++ [value]) := by
  have hchr' : 0x2000 ≤ t.board.cartridge.chr.size := by rw [h.size_chr]; exact hchr
  have hv' : t.ppu.scroll.v.toNat < 0x4000 := by rw [h.v]; exact hv
  have hkept := Vram.kept_apply (t.ppu.vram, t.board) (.byte t.ppu.scroll.v value)
  have hbyteAt := byteAt_perform_writeData hchr' hv' value
  rw [h.mirroring, h.v] at hbyteAt
  have hlength : (bytes ++ [value]).length = bytes.length + 1 := List.length_append
  rw [perform_writeData hchr'] at hbyteAt ⊢
  refine ⟨⟨h.stride, h.buffer, h.fault, hkept.1.trans h.mirroring, hkept.2.trans h.size_chr, ?holds,
    ?others⟩, ?v, h.bounded.advance _, h.second⟩
  case v =>
    show t.ppu.advanceAddress.scroll.v.toNat = _
    rw [toNat_advanceAddress hv', h.v, h.stride, hlength, Nat.add_mul]
    omega
  case holds =>
    intro i hi
    rw [hbyteAt]
    obtain hold | rfl : i < bytes.length ∨ i = bytes.length := by omega
    · rw [if_neg fun halias => hapart i hold (Vram.Aliases.symm halias), h.holds i hold,
        List.getElem_append_left hold]
    · rw [if_pos (Vram.Aliases.refl _ _), List.getElem_concat_length rfl]
  case others =>
    intro addr haddr
    rw [hlength] at haddr
    rw [hbyteAt, if_neg (haddr _ (Nat.lt_succ_self _))]
    exact h.others addr fun i hi => haddr i (Nat.lt_succ_of_lt hi)

theorem uploaded_writes {s : Session UxRom} (hchr : 0x2000 ≤ s.board.cartridge.chr.size)
    (hbounded : s.ppu.scroll.Bounded) (bytes : List UInt8)
    (hreach : ∀ i < bytes.length, s.ppu.scroll.v.toNat + i * s.ppu.stride < 0x4000)
    (hapart : Vram.Apart (Board.mirroring s.board) s.ppu.scroll.v.toNat s.ppu.stride
      bytes.length) :
    s.Uploaded (s.performAll (bytes.map (.write 0x2007))) bytes := by
  -- from the end, so that the bytes written before are known to be in their places
  induction bytes using List.reverseRecOn with
  | nil =>
      have hv : s.ppu.scroll.v.toNat = s.ppu.scroll.v.toNat + 0 * s.ppu.stride := by omega
      exact ⟨⟨rfl, rfl, rfl, rfl, rfl, fun _ h => absurd h (Nat.not_lt_zero _), fun _ _ => rfl⟩,
        hv, hbounded, rfl⟩
  | append_singleton bytes value ih =>
      have hlength : (bytes ++ [value]).length = bytes.length + 1 := List.length_append
      rw [hlength] at hreach hapart
      have hold := ih (fun i hi => hreach i (Nat.lt_succ_of_lt hi))
        fun j hj i hi => hapart j (Nat.lt_succ_of_lt hj) i hi
      rw [List.map_append, performAll_append]
      exact hold.writeData hchr (hreach _ (Nat.lt_succ_self _))
        (hapart _ (Nat.lt_succ_self _)) value

/-- What some reads have done to a session: the current address has moved on, and nothing but the
buffer has changed besides. -/
structure Fetched (s t : Session UxRom) (count : Nat) : Prop where
  v : t.ppu.scroll.v.toNat = s.ppu.scroll.v.toNat + count * s.ppu.stride
  shape : t = { s with ppu := { s.ppu with buffer := t.ppu.buffer, scroll := t.ppu.scroll } }

namespace Fetched

variable {s t : Session UxRom} {count : Nat} (h : s.Fetched t count)
include h

theorem stride : t.ppu.stride = s.ppu.stride := by
  rw [h.shape]
  rfl

theorem fault : t.ppu.fault = s.ppu.fault := by rw [h.shape]

theorem vram : t.ppu.vram = s.ppu.vram := by rw [h.shape]

theorem board : t.board = s.board := by rw [h.shape]

theorem holds {first step : Nat} {bytes : List UInt8} (hholds : s.Holds first step bytes) :
    t.Holds first step bytes := by
  rw [h.shape]
  exact hholds

/-- One read more. -/
theorem readData (hchr : 0x2000 ≤ s.board.cartridge.chr.size)
    (hv : s.ppu.scroll.v.toNat + count * s.ppu.stride < 0x4000) :
    s.Fetched (t.perform (.read 0x2007)) (count + 1) := by
  have hchr' : 0x2000 ≤ t.board.cartridge.chr.size := by rw [h.board]; exact hchr
  have hnext := toNat_advanceAddress (p := t.ppu) (by rw [h.v]; exact hv)
  rw [h.v, h.stride, Nat.add_assoc, ← Nat.succ_mul] at hnext
  rw [perform_readData hchr']
  refine ⟨hnext, ?_⟩
  rw [h.shape]
  rfl

end Fetched

theorem fetched_nil (s : Session UxRom) : s.Fetched s 0 := by
  refine ⟨?_, rfl⟩
  omega

theorem fetches_succ (count : Nat) : fetches (count + 1) = fetches count ++ [.read 0x2007] :=
  List.replicate_succ'

theorem fetched_fetches {s : Session UxRom} (hchr : 0x2000 ≤ s.board.cartridge.chr.size)
    (count : Nat) (hreach : ∀ i < count, s.ppu.scroll.v.toNat + i * s.ppu.stride < 0x4000) :
    s.Fetched (s.performAll (fetches count)) count := by
  induction count with
  | zero => exact s.fetched_nil
  | succ count ih =>
      have h := ih fun i hi => hreach i (Nat.lt_succ_of_lt hi)
      rw [fetches_succ, performAll_append]
      exact h.readData hchr (hreach count (Nat.lt_succ_self count))

theorem Holds.tail {s : Session UxRom} {first step : Nat} {value : UInt8} {bytes : List UInt8}
    (h : s.Holds first step (value :: bytes)) : s.Holds (first + step) step bytes := by
  intro i hi
  have hnext := h (i + 1) (Nat.succ_lt_succ hi)
  rw [Nat.succ_mul, Nat.add_comm (i * step), ← Nat.add_assoc] at hnext
  exact hnext

theorem Holds.head {s : Session UxRom} {first step : Nat} {value : UInt8} {bytes : List UInt8}
    (h : s.Holds first step (value :: bytes)) : s.byteAt first = some value := by
  have hfirst := h 0 (Nat.succ_pos _)
  rwa [Nat.zero_mul, Nat.add_zero] at hfirst

/-- **Below the palette the bytes come one read late**, behind what was in the buffer. -/
theorem bytes_fetches_of_below {s : Session UxRom} (hchr : 0x2000 ≤ s.board.cartridge.chr.size)
    {bytes : List UInt8}
    (hend : s.ppu.scroll.v.toNat + bytes.length * s.ppu.stride < 0x3F00)
    (hholds : s.Holds s.ppu.scroll.v.toNat s.ppu.stride bytes) :
    s.bytes (fetches (bytes.length + 1)) = s.ppu.buffer :: bytes := by
  induction bytes generalizing s with
  | nil =>
      have hbyte := byte?_readData_of_below (s := s) (by omega)
      show s.bytes [.read 0x2007] = _
      rw [bytes_cons, hbyte]
      rfl
  | cons value bytes ih =>
      have hbyte := byte?_readData_of_below (s := s) (by omega)
      have hnext := s.fetched_nil.readData hchr (by omega)
      have hlength : (value :: bytes).length = bytes.length + 1 := List.length_cons
      rw [hlength, Nat.succ_mul] at hend
      have hv := hnext.v
      rw [Nat.zero_add, Nat.one_mul] at hv
      have hfetched := buffer_readData_of_below hchr (by omega) hholds.head
      have hrest := ih (s := s.perform (.read 0x2007)) (by rw [hnext.board]; exact hchr)
        (by rw [hv, hnext.stride]; omega)
        (by rw [hv, hnext.stride]; exact hnext.holds hholds.tail)
      show s.bytes (.read 0x2007 :: fetches (bytes.length + 1)) = _
      rw [bytes_cons, hbyte, hrest, hfetched]
      rfl

/-- **The bytes of palette entries come at once.** -/
theorem bytes_fetches_of_palette {s : Session UxRom} (hchr : 0x2000 ≤ s.board.cartridge.chr.size)
    {bytes : List UInt8}
    (hreach : ∀ i < bytes.length, 0x3F00 ≤ s.ppu.scroll.v.toNat + i * s.ppu.stride ∧
      s.ppu.scroll.v.toNat + i * s.ppu.stride ≤ 0x3FFF)
    (hholds : s.Holds s.ppu.scroll.v.toNat s.ppu.stride bytes) :
    s.bytes (fetches bytes.length) = bytes := by
  induction bytes generalizing s with
  | nil => rfl
  | cons value bytes ih =>
      have hfirst := hreach 0 (Nat.succ_pos _)
      rw [Nat.zero_mul, Nat.add_zero] at hfirst
      have hbyte := byte?_readData_of_palette hfirst.1 hfirst.2 hholds.head
      have hnext := s.fetched_nil.readData hchr (by omega)
      have hv := hnext.v
      rw [Nat.zero_add, Nat.one_mul] at hv
      have hrest := ih (s := s.perform (.read 0x2007)) (by rw [hnext.board]; exact hchr)
        (by
          rw [hv, hnext.stride]
          intro i hi
          have hi' := hreach (i + 1) (Nat.succ_lt_succ hi)
          rw [Nat.succ_mul] at hi'
          omega)
        (by rw [hv, hnext.stride]; exact hnext.holds hholds.tail)
      show s.bytes (.read 0x2007 :: fetches bytes.length) = _
      rw [bytes_cons, hbyte, hrest]
      rfl

/-- An upload stores its bytes, and its address can be set again. -/
theorem stored_upload {s : Session UxRom} (hchr : 0x2000 ≤ s.board.cartridge.chr.size)
    (hbounded : s.ppu.scroll.Bounded) (addr : UInt16) (bytes : List UInt8)
    (haddr : addr.toNat < 0x4000)
    (hreach : ∀ i < bytes.length, addr.toNat + i * s.ppu.stride < 0x4000)
    (hapart : Vram.Apart (Board.mirroring s.board) addr.toNat s.ppu.stride bytes.length)
    (statusReads : Nat) :
    let t := (s.performAll (upload addr bytes)).performAll (locate statusReads addr)
    s.Stored t addr.toNat bytes ∧ t.ppu.scroll.v = addr := by
  have hstart := located_locate hbounded haddr 1 fun h => absurd h Nat.one_ne_zero
  rw [upload, performAll_append]
  generalize s.performAll (locate 1 addr) = start at hstart ⊢
  have hboard : start.board = s.board := by rw [hstart.shape]
  have hstride : start.ppu.stride = s.ppu.stride := by rw [hstart.shape]; rfl
  have hwritten := uploaded_writes (s := start) (by rw [hboard]; exact hchr) hstart.bounded bytes
    (by rw [hstart.v, hstride]; exact hreach) (by rw [hboard, hstart.v, hstride]; exact hapart)
  have hend := located_locate hwritten.bounded haddr statusReads fun _ =>
    hwritten.second.trans hstart.second
  have hstored := hwritten.toStored
  rw [hstart.v] at hstored
  exact ⟨hstored.of_located hstart hend, hend.v⟩

section Stored

variable {s t : Session UxRom} {bytes : List UInt8}
  (hchr : 0x2000 ≤ s.board.cartridge.chr.size)
  (h : s.Stored t t.ppu.scroll.v.toNat bytes)
include hchr h

/-- Stored bytes below the palette are read behind the byte that was in the buffer. -/
theorem Stored.fetches_of_below
    (hend : t.ppu.scroll.v.toNat + bytes.length * s.ppu.stride < 0x3F00) :
    t.bytes (fetches (bytes.length + 1)) = s.ppu.buffer :: bytes ∧
      (t.performAll (fetches (bytes.length + 1))).ppu.scroll.v.toNat =
        t.ppu.scroll.v.toNat + (bytes.length + 1) * s.ppu.stride ∧
      (t.performAll (fetches (bytes.length + 1))).ppu.fault = s.ppu.fault := by
  have hchr' : 0x2000 ≤ t.board.cartridge.chr.size := by rw [h.size_chr]; exact hchr
  have hholds := h.holds
  rw [← h.stride] at hend hholds
  have hfetched := fetched_fetches hchr' (bytes.length + 1) fun i hi => by
    have hle := Nat.mul_le_mul_right t.ppu.stride (Nat.le_of_lt_succ hi)
    omega
  refine ⟨?bytes, ?address, hfetched.fault.trans h.fault⟩
  case bytes => rw [bytes_fetches_of_below hchr' hend hholds, h.buffer]
  case address => rw [hfetched.v, h.stride]

/-- Stored palette entries are read at once, with the nametable under them in the buffer. -/
theorem Stored.fetches_of_palette
    (hpalette : ∀ i < bytes.length, 0x3F00 ≤ t.ppu.scroll.v.toNat + i * s.ppu.stride ∧
      t.ppu.scroll.v.toNat + i * s.ppu.stride ≤ 0x3FFF) :
    t.bytes (fetches bytes.length) = bytes ∧
      ∀ i < bytes.length,
        (t.performAll (fetches (i + 1))).ppu.buffer =
          s.ppu.vram.readNametable (Board.mirroring s.board)
            (UInt16.ofNat (t.ppu.scroll.v.toNat + i * s.ppu.stride - 0x1000)) ∧
        (t.performAll (fetches (i + 1))).ppu.fault = s.ppu.fault := by
  have hchr' : 0x2000 ≤ t.board.cartridge.chr.size := by rw [h.size_chr]; exact hchr
  have hholds := h.holds
  rw [← h.stride] at hholds
  constructor
  · exact bytes_fetches_of_palette hchr' (by rw [h.stride]; exact hpalette) hholds
  · intro i hi
    have hfetched := fetched_fetches hchr' i fun j hj => by
      rw [h.stride]
      exact Nat.lt_succ_of_le (hpalette j (Nat.lt_trans hj hi)).2
    have hplace := hpalette i hi
    rw [← h.stride, ← hfetched.v] at hplace ⊢
    have hmore := hfetched.readData hchr' (by
      rw [← hfetched.v]
      exact Nat.lt_succ_of_le hplace.2)
    have hunder : (UInt16.ofNat ((t.performAll (fetches i)).ppu.scroll.v.toNat - 0x1000)).toNat =
        (t.performAll (fetches i)).ppu.scroll.v.toNat - 0x1000 :=
      UInt16.toNat_ofNat_of_lt' (show _ < 65536 by omega)
    rw [fetches_succ, performAll_append]
    refine ⟨?_, hmore.fault.trans h.fault⟩
    rw [performAll_cons, performAll_nil,
      buffer_readData_of_palette (by rw [hfetched.board]; exact hchr') hplace.1 hplace.2,
      hfetched.vram, hfetched.board]
    exact h.readNametable (fun j hj => (hpalette j hj).1) (by omega) (by omega)

end Stored

end Session

/-- **Bytes written to picture memory are read back**, whatever state a run has led to, as long as no
two of their addresses stand for the same byte. Below the palette they come behind the byte that was
in the buffer before they were written, and the address ends one stride behind their end. Palette
entries come at once, each leaving the byte of the nametable under it in the buffer. The status may
be read again before the address is set for the second time. -/
theorem upload_fetches {μ : Type} [Board μ] (es : List (Event μ)) {u : UxRom}
    (hchr : 0x2000 ≤ u.cartridge.chr.size) (addr : UInt16) (bytes : List UInt8)
    (statusReads : Nat) :
    let p := run es powerOn
    let t := ((⟨p, u⟩ : Session UxRom).performAll (Session.upload addr bytes)).performAll
      (Session.locate statusReads addr)
    Vram.Apart (Board.mirroring u) addr.toNat p.stride bytes.length →
    (addr.toNat + bytes.length * p.stride < 0x3F00 →
      t.bytes (Session.fetches (bytes.length + 1)) = p.buffer :: bytes ∧
      (t.performAll (Session.fetches (bytes.length + 1))).ppu.scroll.v.toNat =
        addr.toNat + (bytes.length + 1) * p.stride ∧
      (t.performAll (Session.fetches (bytes.length + 1))).ppu.fault = p.fault) ∧
    ((∀ i < bytes.length, 0x3F00 ≤ addr.toNat + i * p.stride ∧
        addr.toNat + i * p.stride ≤ 0x3FFF) →
      t.bytes (Session.fetches bytes.length) = bytes ∧
      ∀ i < bytes.length,
        (t.performAll (Session.fetches (i + 1))).ppu.buffer =
          p.vram.readNametable (Board.mirroring u)
            (UInt16.ofNat (addr.toNat + i * p.stride - 0x1000)) ∧
        (t.performAll (Session.fetches (i + 1))).ppu.fault = p.fault) := by
  intro p t hapart
  have hbounded : p.scroll.Bounded := bounded_run es
  have hstored := fun haddr hreach => Session.stored_upload (s := ⟨p, u⟩) hchr hbounded addr bytes
    haddr hreach hapart statusReads
  change _ → _ → Session.Stored _ t _ _ ∧ t.ppu.scroll.v = addr at hstored
  constructor
  · intro hend
    have hreach : ∀ i < bytes.length, addr.toNat + i * p.stride < 0x4000 := by
      intro i hi
      have hle := Nat.mul_le_mul_right p.stride (Nat.le_of_lt hi)
      omega
    obtain ⟨h, hv⟩ := hstored (by omega) hreach
    rw [← hv] at h hend ⊢
    exact h.fetches_of_below hchr hend
  · intro hpalette
    obtain hnone | hsome := bytes.length.eq_zero_or_pos
    · obtain rfl := List.eq_nil_of_length_eq_zero hnone
      exact ⟨rfl, fun _ h => absurd h (Nat.not_lt_zero _)⟩
    have hfirst := hpalette 0 hsome
    obtain ⟨h, hv⟩ := hstored (by omega) fun i hi => Nat.lt_succ_of_le (hpalette i hi).2
    rw [← hv] at h hpalette ⊢
    exact h.fetches_of_palette hchr hpalette

/-- Two rows that end in the last row of shapes and begin the nametables, and three palette entries.
-/
theorem upload_fetches_seam :
    let rows : Ppu := run [.write UxRom.blank 0x2000 0x04] powerOn
    let t := ((⟨rows, UxRom.blank⟩ : Session UxRom).performAll
      (Session.upload 0x1FE5 [7, 8])).performAll (Session.locate 0 0x1FE5)
    let t' := ((⟨powerOn, UxRom.blank⟩ : Session UxRom).performAll
      (Session.upload 0x3F01 [1, 2, 3])).performAll (Session.locate 1 0x3F01)
    0x2000 ≤ UxRom.blank.cartridge.chr.size ∧
      Vram.Apart (Board.mirroring UxRom.blank) 0x1FE5 rows.stride 2 ∧
      t.bytes (Session.fetches 3) = [0, 7, 8] ∧
      Vram.Apart (Board.mirroring UxRom.blank) 0x3F01 powerOn.stride 3 ∧
      t'.bytes (Session.fetches 3) = [1, 2, 3] := by
  intro rows t t'
  have hbuilt : UxRom.blank.cartridge.Built := .ofParts _ #[] 0 .horizontal false (.inl rfl)
  have hchr : 0x2000 ≤ UxRom.blank.cartridge.chr.size := hbuilt.le_size_chr
  have hrows : Vram.Apart (Board.mirroring UxRom.blank) 0x1FE5 rows.stride 2 := by
    have hstride : rows.stride = 32 := by decide +kernel
    have hmirroring : Board.mirroring UxRom.blank = .horizontal := rfl
    rw [hstride, hmirroring]
    decide
  have hentries : Vram.Apart (Board.mirroring UxRom.blank) 0x3F01 powerOn.stride 3 := by
    have hstride : powerOn.stride = 1 := by decide
    have hmirroring : Board.mirroring UxRom.blank = .horizontal := rfl
    rw [hstride, hmirroring]
    decide
  exact ⟨hchr, hrows,
    ((upload_fetches [.write UxRom.blank 0x2000 0x04] hchr 0x1FE5 [7, 8] 0 hrows).1
      (by decide)).1,
    hentries,
    ((upload_fetches ([] : List (Event UxRom)) hchr 0x3F01 [1, 2, 3] 1 hentries).2
      (by decide)).1⟩

end Ppu

end Nes
