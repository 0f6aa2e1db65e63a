import Nes.Board.UxRom
import Nes.Proofs.Ppu.Run

/-!
# Cartridges that lack nothing

With a cartridge that has all bytes of picture memory, no run sets the fault flag: every address the
picture unit forms leads to a byte. Once the flag is set, no run clears it.
-/

set_option autoImplicit false

namespace Nes

variable {μ : Type} [Board μ]

/-- The cartridge has all bytes of picture memory. -/
def CompleteChr (board : μ) : Prop :=
  ∀ addr : UInt16, addr.toNat < 0x2000 → (Board.ppuRead board addr).isSome = true

theorem CompleteChr.isSome_read {board : μ} (h : CompleteChr board) (s : Vram) (addr : UInt16) :
    (s.read board addr).isSome = true := by
  unfold Vram.read
  dsimp only
  split
  · next hlt => exact h _ (UInt16.lt_iff_toNat_lt.mp hlt)
  · split <;> rfl

/-- The data port then finds a byte wherever it leads. -/
theorem CompleteChr.lacksByte_eq_false {board : μ} (h : CompleteChr board) (p : Ppu) :
    p.lacksByte board = false :=
  Option.isNone_eq_false_iff.mpr (h.isSome_read p.vram p.scroll.v)

/-- A board of this kind is complete with the usual amount of picture memory. -/
theorem UxRom.completeChr {u : UxRom} (h : 0x2000 ≤ u.cartridge.chr.size) : CompleteChr u := by
  intro addr haddr
  have hlt : addr.toNat < u.cartridge.chr.size := Nat.lt_of_lt_of_le haddr h
  show (if addr < 0x2000 then u.cartridge.chr[addr.toNat]? else some 0).isSome = true
  rw [if_pos (UInt16.lt_iff_toNat_lt.mpr haddr), Array.getElem?_eq_getElem hlt]
  rfl

/-- A board with one bank of program memory and blank picture memory. -/
def UxRom.blank : UxRom where
  cartridge := .ofParts (.replicate prgBankSize 0) #[] 0 .horizontal false
  bank := 0
  bank_lt := by
    rw [Cartridge.prg_ofParts, Array.size_replicate]
    decide

/-- A board with one bank of program memory, on which every byte of picture memory is the low byte
of its address. -/
def UxRom.numbered : UxRom where
  cartridge := .ofParts (.replicate prgBankSize 0) (.ofFn fun i : Fin chrBankSize => UInt8.ofNat i)
    0 .horizontal false
  bank := 0
  bank_lt := by
    rw [Cartridge.prg_ofParts, Array.size_replicate]
    decide

theorem UxRom.chr_numbered :
    numbered.cartridge.chr = .ofFn fun i : Fin chrBankSize => UInt8.ofNat i := by
  apply Cartridge.chr_ofParts_of_ne
  rw [Array.isEmpty, Array.size_ofFn]
  decide

theorem UxRom.completeChr_numbered : CompleteChr UxRom.numbered := by
  apply UxRom.completeChr
  rw [chr_numbered, Array.size_ofFn]
  decide

theorem UxRom.mirroring_numbered : Board.mirroring numbered = .horizontal := rfl

theorem UxRom.ppuRead_numbered {addr : UInt16} (h : addr.toNat < 0x2000) :
    Board.ppuRead numbered addr = some (UInt8.ofNat addr.toNat) := by
  show (if addr < 0x2000 then numbered.cartridge.chr[addr.toNat]? else some 0) = _
  rw [if_pos (UInt16.lt_iff_toNat_lt.mpr h), chr_numbered, Array.getElem?_ofFn]
  exact dif_pos h

theorem CompleteChr.isSome_fetchSprite {board : μ} (h : CompleteChr board) (vram : Vram)
    (shape : SpriteShape) (oam : Oam) (line : Nat) (entry : Fin 64) :
    (Sprite.fetch? vram board shape oam line entry).isSome = true := by
  have hread : ∀ addr, ∃ value, vram.read board addr = some value := fun addr =>
    Option.isSome_iff_exists.mp (h.isSome_read vram addr)
  rw [Sprite.fetch?, Option.isSome_map, Sprite.fetchRow?]
  generalize Sprite.rowAddress shape oam entry _ = address
  obtain ⟨low, hlow⟩ := hread address
  obtain ⟨high, hhigh⟩ := hread (address + 8)
  rw [hlow, hhigh]
  rfl

namespace Ppu

theorem fault_fetchPlane (p : Ppu) {board : μ} (h : CompleteChr board) (high : Bool) :
    (p.fetchPlane board high).fault = p.fault := by
  unfold fetchPlane
  dsimp only
  split
  · next hnone =>
      have hsome := h.isSome_read p.vram (if high then
        Background.patternAddress p.backgroundTable p.background.tile p.scroll.v + 8 else
        Background.patternAddress p.backgroundTable p.background.tile p.scroll.v)
      rw [hnone] at hsome
      cases hsome
  · split <;> rfl

theorem fault_fetch (p : Ppu) {board : μ} (h : CompleteChr board) :
    (p.fetch board).fault = p.fault := by
  unfold fetch
  dsimp only
  split
  · rfl
  · rfl
  · exact fault_fetchPlane _ h false
  · exact fault_fetchPlane _ h true
  · rfl
  · rfl

theorem fault_selectSprites (p : Ppu) {board : μ} (h : CompleteChr board) :
    (p.selectSprites board).fault = p.fault := by
  unfold selectSprites evaluateSprites
  split
  · split
    · dsimp only
      rw [List.any_eq_false.mpr, Bool.or_false]
      intro found hfound
      obtain ⟨entry, -, rfl⟩ := List.mem_map.mp hfound
      have hsome := h.isSome_fetchSprite p.vram p.spriteShape p.oam p.beam.scanline entry
      exact fun hnone => Option.isSome_iff_ne_none.mp hsome (Option.isNone_iff_eq_none.mp hnone)
    · rfl
  · rfl

theorem fault_step (p : Ppu) {board : μ} (h : CompleteChr board) :
    (p.step board).fault = p.fault := by
  obtain ⟨_, _, _, _, _, hu⟩ := (p.tick.renderDot board).updateVblank_shape
  rw [step_eq_stages, hu]
  by_cases hr : p.rendering = true
  · obtain ⟨_, hm⟩ := (p.tick.drawDot.fetchDot board).moveDot_shape
    obtain ⟨_, _, hd⟩ := p.tick.drawDot_shape
    rw [renderDot_tick_of_rendering hr, fault_selectSprites _ h, hm, fetchDot, apply_ite fault,
      fault_fetch _ h, ite_self, hd]
    rfl
  · rw [renderDot_tick_of_not_rendering hr]
    rfl

/-- The board that an event looks at, if any, is complete. -/
def Event.Complete : Event μ → Prop
  | .dot board | .read board _ | .write board _ _ => CompleteChr board
  | .storePage _ _ | .takeNmi | .reset => True

theorem fault_after (p : Ppu) {e : Event μ} (h : e.Complete) : (p.after e).fault = p.fault := by
  -- only the data port looks at the cartridge
  cases e with
  | dot board => exact p.fault_step h
  | read board addr =>
      rw [after, readRegister]
      split
      · rfl
      · rfl
      · unfold readData
        dsimp only
        rw [h.lacksByte_eq_false, Bool.or_false]
        split <;> rfl
      · rfl
  | write board addr value =>
      rw [after, writeRegister]
      dsimp only
      split
      case h_7 =>
        show (p.fault || p.lacksByte board) = p.fault
        rw [h.lacksByte_eq_false, Bool.or_false]
      all_goals rfl
  | storePage page bytes =>
      obtain ⟨_, _, hs⟩ := p.writeOamPage_shape page bytes
      rw [after, hs]
  | takeNmi => rfl
  | reset => rfl

/-- **A complete cartridge has every byte that is asked for**, whatever the CPU does. -/
theorem fault_run {es : List (Event μ)} (h : ∀ e ∈ es, e.Complete) {p : Ppu}
    (hp : p.fault = false) : (run es p).fault = false :=
  run_invariant (P := fun q => q.fault = false) hp fun e he q hq =>
    (q.fault_after (h e he)).trans hq

/-! ## Faults stay -/

theorem fault_fetch_of_fault {p : Ppu} (h : p.fault = true) (board : μ) :
    (p.fetch board).fault = true := by
  have hplane : ∀ {p : Ppu}, p.fault = true → ∀ high, (p.fetchPlane board high).fault = true := by
    intro p hp high
    unfold fetchPlane
    dsimp only
    split
    · rfl
    · split <;> exact hp
  unfold fetch
  dsimp only
  split
  · exact h
  · exact h
  · exact hplane (p := { p with background := p.background.shift }) h false
  · exact hplane (p := { p with background := p.background.shift }) h true
  · exact h
  · exact h

theorem fault_selectSprites_of_fault {p : Ppu} (h : p.fault = true) (board : μ) :
    (p.selectSprites board).fault = true := by
  unfold selectSprites evaluateSprites
  split
  · split
    · dsimp only
      rw [h, Bool.true_or]
    · exact h
  · exact h

theorem fault_step_of_fault {p : Ppu} (h : p.fault = true) (board : μ) :
    (p.step board).fault = true := by
  have hrendered : (p.tick.renderDot board).fault = true := by
    by_cases hr : p.rendering = true
    · have hdrawn : p.tick.drawDot.fault = true := by
        obtain ⟨_, _, hd⟩ := p.tick.drawDot_shape
        rw [hd]
        exact h
      have hfetched : (p.tick.drawDot.fetchDot board).fault = true := by
        rw [fetchDot, apply_ite fault, fault_fetch_of_fault hdrawn, hdrawn, ite_self]
      have hmoved : ((p.tick.drawDot.fetchDot board).moveDot).fault = true := by
        obtain ⟨_, hm⟩ := (p.tick.drawDot.fetchDot board).moveDot_shape
        rw [hm]
        exact hfetched
      rw [renderDot_tick_of_rendering hr]
      exact fault_selectSprites_of_fault hmoved board
    · rw [renderDot_tick_of_not_rendering hr]
      exact h
  obtain ⟨_, _, _, _, _, hu⟩ := (p.tick.renderDot board).updateVblank_shape
  rw [step_eq_stages, hu]
  exact hrendered

/-- Nothing clears the flag. -/
theorem fault_after_of_fault {p : Ppu} (h : p.fault = true) (e : Event μ) :
    (p.after e).fault = true := by
  cases e with
  | dot board => exact fault_step_of_fault h board
  | read board addr =>
      rw [after, readRegister]
      split
      · exact h
      · exact h
      · unfold readData
        dsimp only
        rw [h, Bool.true_or]
        split <;> rfl
      · exact h
  | write board addr value =>
      rw [after, writeRegister]
      dsimp only
      split
      case h_7 =>
        show (p.fault || p.lacksByte board) = true
        rw [h, Bool.true_or]
      all_goals exact h
  | storePage page bytes =>
      obtain ⟨_, _, hs⟩ := p.writeOamPage_shape page bytes
      rw [after, hs]
      exact h
  | takeNmi => exact h
  | reset => exact h

theorem fault_run_of_fault {p : Ppu} (h : p.fault = true) (es : List (Event μ)) :
    (run es p).fault = true :=
  run_invariant (P := fun q => q.fault = true) h fun e _ _ hq => fault_after_of_fault hq e

end Ppu

end Nes
