import Nes.Proofs.Ppu.Run
import Nes.Proofs.Ppu.Fields

/-!
# Bounds of the scroll registers

No write and no movement leaves the fifteen bits of an address, or gives the offset within a tile
more than its three bits. So in every state that a run leads to, the scroll registers are within
these bounds (`bounded_run`).
-/

set_option autoImplicit false

namespace Nes

namespace Scroll

/-- The addresses have fifteen bits, the horizontal offset has three. -/
structure Bounded (s : Scroll) : Prop where
  v_lt : s.v.toNat < 0x8000
  t_lt : s.t.toNat < 0x8000
  fineX_lt : s.fineX.toNat < 8

theorem toNat_merge_lt {mask old : UInt16} (hmask : mask.toNat < 0x8000) (hold : old.toNat < 0x8000)
    (new : UInt16) : (merge mask old new).toNat < 0x8000 := by
  have hkept : (old &&& ~~~mask).toNat < 2 ^ 15 := by
    rw [UInt16.toNat_and]
    exact Nat.lt_of_le_of_lt Nat.and_le_left hold
  have htaken : (new &&& mask).toNat < 2 ^ 15 := by
    rw [UInt16.toNat_and]
    exact Nat.lt_of_le_of_lt Nat.and_le_right hmask
  rw [merge, UInt16.toNat_or]
  exact Nat.or_lt_two_pow hkept htaken

theorem toNat_clear_lt {w : UInt16} (hw : w.toNat < 0x8000) (mask : UInt16) :
    (w &&& mask).toNat < 0x8000 := by
  rw [UInt16.toNat_and]
  exact Nat.lt_of_le_of_lt Nat.and_le_left hw

theorem toNat_xor_lt {w m : UInt16} (hw : w.toNat < 0x8000) (hm : m.toNat < 0x8000) :
    (w ^^^ m).toNat < 0x8000 := by
  rw [UInt16.toNat_xor]
  exact Nat.xor_lt_two_pow (n := 15) hw hm

theorem toNat_nextColumn_lt {v : UInt16} (hv : v.toNat < 0x8000) :
    (nextColumn v).toNat < 0x8000 := by
  have hlow : (v &&& columnMask).toNat = v.toNat % 32 := Word.toNat_and_low v 5 rfl
  unfold nextColumn
  split
  · exact toNat_xor_lt (toNat_clear_lt hv _) (by decide)
  · next h =>
      -- the column is below 31, so nothing is carried out of its field
      have hne : v.toNat % 32 ≠ 31 := by
        rw [← hlow]
        exact fun h' => h (UInt16.toNat_inj.mp h')
      have hone : (1 : UInt16).toNat = 1 := rfl
      rw [UInt16.toNat_add, hone]
      omega

theorem toNat_nextRow_lt {v : UInt16} (hv : v.toNat < 0x8000) : (nextRow v).toNat < 0x8000 := by
  have hfield : (v &&& fineRowMask).toNat = v.toNat / 4096 % 8 * 4096 :=
    Word.toNat_and_field v 3 12 rfl
  unfold nextRow
  split
  · have hclear := toNat_clear_lt hv (~~~fineRowMask)
    unfold nextTileRow
    dsimp only
    split
    · exact toNat_xor_lt (toNat_clear_lt hclear _) (by decide)
    · split
      · exact toNat_clear_lt hclear _
      · exact toNat_merge_lt (by decide) hclear _
  · next h =>
      -- the row within the tile is below 7, so the sum has no bit more
      have hne : v.toNat / 4096 % 8 ≠ 7 := by
        intro h7
        apply h
        apply UInt16.toNat_inj.mp
        rw [hfield, h7]
        rfl
      have hstep : (0x1000 : UInt16).toNat = 4096 := rfl
      rw [UInt16.toNat_add, hstep]
      omega

theorem toNat_advance (s : Scroll) (step : UInt16) (h : s.v.toNat + step.toNat < 0x8000) :
    (s.advance step).v.toNat = s.v.toNat + step.toNat := by
  have hlow : ((s.v + step) &&& 0x7FFF).toNat = (s.v + step).toNat % 2 ^ 15 :=
    Word.toNat_and_low _ 15 rfl
  show ((s.v + step) &&& 0x7FFF).toNat = _
  rw [hlow, UInt16.toNat_add]
  omega

namespace Bounded

variable {s : Scroll}

theorem selectNametable (h : s.Bounded) (value : UInt8) : (s.selectNametable value).Bounded :=
  ⟨h.v_lt, toNat_merge_lt (by decide) h.t_lt _, h.fineX_lt⟩

theorem writeOffset (h : s.Bounded) (value : UInt8) : (s.writeOffset value).Bounded := by
  unfold Scroll.writeOffset
  split
  · exact ⟨h.v_lt, toNat_merge_lt (by decide) (toNat_merge_lt (by decide) h.t_lt _) _, h.fineX_lt⟩
  · refine ⟨h.v_lt, toNat_merge_lt (by decide) h.t_lt _, ?_⟩
    have hlow : (value &&& 0x07).toNat = value.toNat % 8 := Byte.toNat_and_low value 3 rfl
    rw [hlow]
    exact Nat.mod_lt _ (by decide)

theorem writeAddress (h : s.Bounded) (value : UInt8) : (s.writeAddress value).Bounded := by
  unfold Scroll.writeAddress
  split
  · exact ⟨toNat_merge_lt (by decide) h.t_lt _, toNat_merge_lt (by decide) h.t_lt _, h.fineX_lt⟩
  · exact ⟨h.v_lt, toNat_merge_lt (by decide) h.t_lt _, h.fineX_lt⟩

theorem resetToggle (h : s.Bounded) : s.resetToggle.Bounded := ⟨h.v_lt, h.t_lt, h.fineX_lt⟩

theorem advance (h : s.Bounded) (step : UInt16) : (s.advance step).Bounded := by
  refine ⟨?_, h.t_lt, h.fineX_lt⟩
  show ((s.v + step) &&& 0x7FFF).toNat < 0x8000
  rw [UInt16.toNat_and]
  exact Nat.lt_of_le_of_lt Nat.and_le_right (by decide)

theorem incrementX (h : s.Bounded) : s.incrementX.Bounded :=
  ⟨toNat_nextColumn_lt h.v_lt, h.t_lt, h.fineX_lt⟩

theorem incrementY (h : s.Bounded) : s.incrementY.Bounded :=
  ⟨toNat_nextRow_lt h.v_lt, h.t_lt, h.fineX_lt⟩

theorem copyX (h : s.Bounded) : s.copyX.Bounded :=
  ⟨toNat_merge_lt (by decide) h.v_lt _, h.t_lt, h.fineX_lt⟩

theorem copyY (h : s.Bounded) : s.copyY.Bounded :=
  ⟨toNat_merge_lt (by decide) h.v_lt _, h.t_lt, h.fineX_lt⟩

end Bounded

end Scroll

namespace Ppu

variable {μ : Type} [Board μ]

/-! ## Runs -/

theorem bounded_fetch {p : Ppu} (h : p.scroll.Bounded) (board : μ) :
    (p.fetch board).scroll.Bounded := by
  have hplane : ∀ (q : Ppu) (high : Bool), (q.fetchPlane board high).scroll = q.scroll := by
    intro q high
    obtain ⟨_, _, hq⟩ := q.fetchPlane_shape board high
    rw [hq]
  unfold fetch
  dsimp only
  split
  · exact h
  · exact h
  · rw [hplane]
    exact h
  · rw [hplane]
    exact h
  · exact h.incrementX
  · exact h

theorem bounded_moveAddress {p : Ppu} (h : p.scroll.Bounded) : p.moveAddress.scroll.Bounded := by
  unfold moveAddress
  split
  · exact h.incrementY
  · split
    · exact h.copyX
    · split
      · exact h.copyY
      · exact h

theorem bounded_step {p : Ppu} (h : p.scroll.Bounded) (board : μ) :
    (p.step board).scroll.Bounded := by
  obtain ⟨_, _, _, _, _, hu⟩ := (p.tick.renderDot board).updateVblank_shape
  by_cases hr : p.rendering = true
  · obtain ⟨_, _, hd⟩ := p.tick.drawDot_shape
    obtain ⟨_, _, _, hs⟩ := ((p.tick.drawDot.fetchDot board).moveDot).selectSprites_shape board
    have hdrawn : p.tick.drawDot.scroll.Bounded := by
      rw [hd]
      exact h
    have hfetched : (p.tick.drawDot.fetchDot board).scroll.Bounded := by
      unfold fetchDot
      split
      · exact bounded_fetch hdrawn board
      · exact hdrawn
    have hscroll : (p.step board).scroll = ((p.tick.drawDot.fetchDot board).moveDot).scroll := by
      rw [step_eq_stages, hu, renderDot_tick_of_rendering hr, hs]
    rw [hscroll, moveDot]
    split
    · exact bounded_moveAddress hfetched
    · exact hfetched
  · have hscroll : (p.step board).scroll = p.scroll := by
      rw [step_eq_stages, hu, renderDot_tick_of_not_rendering hr]
      rfl
    rw [hscroll]
    exact h

theorem bounded_readRegister {p : Ppu} (h : p.scroll.Bounded) (board : μ) (addr : UInt16) :
    (p.readRegister board addr).2.scroll.Bounded := by
  unfold readRegister
  split
  · exact h.resetToggle
  · exact h
  · unfold readData
    dsimp only
    split
    · exact h.advance _
    · exact h.advance _
  · exact h

theorem bounded_writeRegister {p : Ppu} (h : p.scroll.Bounded) (board : μ) (addr : UInt16)
    (value : UInt8) : (p.writeRegister board addr value).1.scroll.Bounded := by
  unfold writeRegister
  dsimp only
  split
  · exact h.selectNametable value
  · exact h
  · exact h
  · exact h
  · exact h.writeOffset value
  · exact h.writeAddress value
  · exact h.advance _
  · exact h
  · exact h

theorem bounded_after {p : Ppu} (h : p.scroll.Bounded) (e : Event μ) :
    (p.after e).scroll.Bounded := by
  cases e with
  | dot board => exact bounded_step h board
  | read board addr => exact bounded_readRegister h board addr
  | write board addr value => exact bounded_writeRegister h board addr value
  | storePage page bytes =>
      obtain ⟨_, _, hs⟩ := p.writeOamPage_shape page bytes
      rw [after, hs]
      exact h
  | takeNmi => exact h
  | reset =>
      rw [after, reset, writeControl]
      exact h.selectNametable 0

/-- **In every state of a run the scroll registers are within their bounds.** -/
theorem bounded_run (es : List (Event μ)) : (run es powerOn).scroll.Bounded :=
  run_invariant (P := fun q => q.scroll.Bounded) ⟨by decide, by decide, by decide⟩
    fun e _ _ hq => bounded_after hq e

end Ppu

end Nes
