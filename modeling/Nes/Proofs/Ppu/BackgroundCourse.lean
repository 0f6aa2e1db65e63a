import Nes.Proofs.Ppu.BackgroundPipeline
import Nes.Proofs.Ppu.Position
import Nes.Proofs.Ppu.ScrollBounds

/-!
# The course of a frame

From the line that prepares a frame to the end of the picture, the background pipeline follows a
course that the beam alone tells (`OnCourse`): the current address comes back to the starting column
at the end of each line, the first two tiles of a line are fetched at the end of the line before,
and while a line is drawn the shift register is a window on its row of the plane, two tiles wide. A
dot keeps the pipeline on this course (`OnCourse.step`).
-/

set_option autoImplicit false

namespace Nes

namespace Beam

/-! ## Dots of the fetch cycle -/

/-- Where the current address goes at a dot, after the fetch cycle. -/
def movedAddress (b : Beam) (v t : UInt16) : UInt16 :=
  if b.dot = 256 then Scroll.nextRow v
  else if b.dot = 257 then Scroll.merge Scroll.horizontalMask v t
  else if b.scanline = 261 ∧ 280 ≤ b.dot ∧ b.dot ≤ 304 then Scroll.merge Scroll.verticalMask v t
  else v

theorem movedAddress_eq_self {b : Beam} (h256 : b.dot ≠ 256) (h257 : b.dot ≠ 257)
    (h280 : ¬ (b.scanline = 261 ∧ 280 ≤ b.dot ∧ b.dot ≤ 304)) (v t : UInt16) :
    b.movedAddress v t = v := by
  rw [movedAddress, if_neg h256, if_neg h257, if_neg h280]

theorem renders_of_line {b : Beam} (h : b.scanline < 240 ∨ b.scanline = 261) :
    b.renders = true := by
  rw [Beam.renders, Beam.visible, Beam.preRender, preRenderLine, Bool.or_eq_true,
    decide_eq_true_iff, decide_eq_true_iff]
  exact h

theorem fetches_iff {b : Beam} :
    b.fetches = true ↔ 1 ≤ b.dot ∧ b.dot ≤ 256 ∨ 321 ≤ b.dot ∧ b.dot ≤ 336 := by
  simp only [Beam.fetches, Bool.or_eq_true, Bool.and_eq_true, decide_eq_true_iff]

end Beam

namespace Ppu

variable {μ : Type} [Board μ]

/-! ## What a dot does to the pipeline -/

theorem fault_of_selectSprites {p : Ppu} {board : μ} (h : (p.selectSprites board).fault = false) :
    p.fault = false := by
  unfold selectSprites at h
  split at h
  · split at h
    · exact (Bool.or_eq_false_iff.mp h).1
    · exact h
  · exact h

theorem fault_of_fetchDot {p : Ppu} {board : μ} (h : (p.fetchDot board).fault = false) :
    p.fault = false := by
  -- no stage of the fetch cycle takes a fault back
  have hplane : ∀ (q : Ppu) (high : Bool), (q.fetchPlane board high).fault = false →
      q.fault = false := by
    intro q high hq
    unfold fetchPlane at hq
    dsimp only at hq
    split at hq
    · cases hq
    · split at hq <;> exact hq
  unfold fetchDot at h
  split at h
  · unfold fetch at h
    dsimp only at h
    split at h
    · exact h
    · exact h
    · exact hplane p.shifted _ h
    · exact hplane p.shifted _ h
    · exact h
    · exact h
  · exact h

/-- While something is rendered, a dot does to the pipeline what the fetch cycle and the movement of
the current address do to a state that differs from the last one in nothing they look at. -/
theorem step_pipeline {p : Ppu} (hr : p.rendering = true) (board : μ) :
    ∃ q : Ppu, SamePipeline p q ∧ q.scroll = p.scroll ∧ q.beam = p.beam.advance p.rendering ∧
      SamePipeline (q.fetchDot board).moveDot (p.step board) ∧
      ((p.step board).fault = false → (q.fetchDot board).fault = false ∧ p.fault = false) := by
  obtain ⟨_, _, hd⟩ := p.tick.drawDot_shape
  obtain ⟨_, hm⟩ := (p.tick.drawDot.fetchDot board).moveDot_shape
  obtain ⟨_, _, _, hs⟩ := ((p.tick.drawDot.fetchDot board).moveDot).selectSprites_shape board
  obtain ⟨_, _, _, _, _, hu⟩ := (p.tick.renderDot board).updateVblank_shape
  refine ⟨p.tick.drawDot, ?_, ?_, ?_, ?_, ?_⟩
  · rw [hd]
    exact ⟨rfl, rfl, rfl, rfl⟩
  · rw [hd]
    rfl
  · rw [hd]
    rfl
  · refine ⟨?_, ?_, ?_, ?_⟩ <;>
      rw [step_eq_stages, hu, renderDot_tick_of_rendering hr, hs]
  · intro hf
    have hfault : (p.step board).fault =
        (((p.tick.drawDot.fetchDot board).moveDot).selectSprites board).fault := by
      rw [step_eq_stages, hu, renderDot_tick_of_rendering hr]
    have hmoved : (p.tick.drawDot.fetchDot board).moveDot.fault =
        (p.tick.drawDot.fetchDot board).fault := by
      rw [hm]
    have hdrawn : p.tick.drawDot.fault = p.fault := by
      rw [hd]
      rfl
    rw [hfault] at hf
    have hfetched : (p.tick.drawDot.fetchDot board).fault = false :=
      hmoved.symm.trans (fault_of_selectSprites hf)
    exact ⟨hfetched, hdrawn.symm.trans (fault_of_fetchDot hfetched)⟩

theorem v_moveDot {p : Ppu} (hr : p.beam.renders = true) :
    p.moveDot.scroll.v = p.beam.movedAddress p.scroll.v p.scroll.t := by
  have hlast : (p.beam.preRender && decide (280 ≤ p.beam.dot) && decide (p.beam.dot ≤ 304)) = true ↔
      p.beam.scanline = 261 ∧ 280 ≤ p.beam.dot ∧ p.beam.dot ≤ 304 := by
    rw [Bool.and_eq_true, Bool.and_eq_true, decide_eq_true_iff, decide_eq_true_iff, Beam.preRender,
      decide_eq_true_iff, and_assoc]
    rfl
  rw [moveDot, if_pos hr]
  unfold moveAddress Beam.movedAddress
  split
  · rfl
  · split
    · rfl
    · by_cases h : p.beam.scanline = 261 ∧ 280 ≤ p.beam.dot ∧ p.beam.dot ≤ 304
      · rw [if_pos (hlast.mpr h), if_pos h]
        rfl
      · rw [if_neg (mt hlast.mp h), if_neg h]

/-- A dot outside the fetch cycle only moves the current address. -/
theorem step_outside {p : Ppu} (hr : p.rendering = true) (board : μ) {b : Beam}
    (hb : p.beam.advance p.rendering = b) (hrenders : b.renders = true)
    (hfetch : b.fetches = false) :
    (p.step board).vram = p.vram ∧ (p.step board).ctrl = p.ctrl ∧
      (p.step board).background = p.background ∧
      (p.step board).scroll.v = b.movedAddress p.scroll.v p.scroll.t := by
  obtain ⟨q, hq, hscroll, hbeam, hs, -⟩ := step_pipeline hr board
  rw [hb] at hbeam
  have hidle : q.fetchDot board = q := by
    rw [fetchDot, hbeam, hfetch, Bool.and_false, if_neg Bool.false_ne_true]
  obtain ⟨_, hm⟩ := q.moveDot_shape
  rw [hidle] at hs
  refine ⟨?_, ?_, ?_, ?_⟩
  · rw [hs.vram, hm, hq.vram]
  · rw [hs.ctrl, hm, hq.ctrl]
  · rw [hs.background, hm, hq.background]
  · rw [hs.v, v_moveDot (by rw [hbeam]; exact hrenders), hbeam, hscroll]

/-- A dot of the fetch cycle moves the window on, and then perhaps the current address. -/
theorem step_inside {p : Ppu} (hr : p.rendering = true) {board : μ} {b : Beam}
    (hb : p.beam.advance p.rendering = b) (hrenders : b.renders = true) (hfetch : b.fetches = true)
    {column row dots : Nat} (h : Fetching board column row dots p)
    (hdot : b.dot % 8 = (dots + 1) % 8) (hf : (p.step board).fault = false) :
    ∃ q : Ppu, Fetching board column row (dots + 1) q ∧ (p.step board).vram = q.vram ∧
      (p.step board).ctrl = q.ctrl ∧ (p.step board).background = q.background ∧
      (p.step board).scroll.v = b.movedAddress q.scroll.v p.scroll.t := by
  obtain ⟨q, hq, hscroll, hbeam, hs, hfault⟩ := step_pipeline hr board
  rw [hb] at hbeam
  have hfetched : q.fetchDot board = q.fetch board := by
    rw [fetchDot, hbeam, hrenders, hfetch]
    rfl
  obtain ⟨_, _, _, hshape⟩ := q.fetch_shape board
  have hfbeam : (q.fetch board).beam = b := by rw [hshape, hbeam]
  have hft : (q.fetch board).scroll.t = p.scroll.t := by rw [hshape, hscroll]
  obtain ⟨_, hm⟩ := (q.fetch board).moveDot_shape
  rw [hfetched] at hs hfault
  have hqdot : q.beam.dot % 8 = (dots + 1) % 8 := by rw [hbeam]; exact hdot
  refine ⟨q.fetch board, (h.congr hq).fetch hqdot (hfault hf).1, ?_, ?_, ?_, ?_⟩
  · rw [hs.vram, hm]
  · rw [hs.ctrl, hm]
  · rw [hs.background, hm]
  · rw [hs.v, v_moveDot (by rw [hfbeam]; exact hrenders), hfbeam, hft]

theorem Fetching.start {board : μ} {column row : Nat} {p : Ppu}
    (h : p.scroll.v = Scroll.address column row) : Fetching board column row 0 p where
  address := h
  tile h1 := absurd h1 (by decide)
  palette h3 := absurd h3 (by decide)
  low h5 := absurd h5 (by decide)
  high h7 := absurd h7 (by decide)
  window i hi h16 := absurd h16 (by omega)

theorem Fetching.step_outside {board : μ} {column row dots : Nat} {p : Ppu}
    (h : Fetching board column row dots p) (hr : p.rendering = true) {b : Beam}
    (hb : p.beam.advance p.rendering = b) (hrenders : b.renders = true) (hfetch : b.fetches = false)
    (hmove : b.movedAddress p.scroll.v p.scroll.t = p.scroll.v) :
    Fetching board column row dots (p.step board) := by
  obtain ⟨hvram, hctrl, hbackground, hv⟩ := Ppu.step_outside hr board hb hrenders hfetch
  exact h.congr ⟨hvram, hctrl, hv.trans hmove, hbackground⟩

theorem Fetching.step_inside {board : μ} {column row dots : Nat} {p : Ppu}
    (h : Fetching board column row dots p) (hr : p.rendering = true) {b : Beam}
    (hb : p.beam.advance p.rendering = b) (hrenders : b.renders = true) (hfetch : b.fetches = true)
    (hdot : b.dot % 8 = (dots + 1) % 8) (hne : b.dot ≠ 256) (hf : (p.step board).fault = false) :
    Fetching board column row (dots + 1) (p.step board) := by
  obtain ⟨q, hq, hvram, hctrl, hbackground, hv⟩ :=
    Ppu.step_inside hr hb hrenders hfetch h hdot hf
  have hrange : b.dot < 256 ∨ 321 ≤ b.dot := by
    simp only [Beam.fetches, Bool.or_eq_true, Bool.and_eq_true, decide_eq_true_iff] at hfetch
    omega
  have hmove : b.movedAddress q.scroll.v p.scroll.t = q.scroll.v :=
    Beam.movedAddress_eq_self hne (by omega) (by omega) _ _
  exact hq.congr ⟨hvram, hctrl, hv.trans hmove, hbackground⟩

/-! ## The course of a frame -/

/-- The pipeline on its way from the line that prepares a frame to the end of the picture, for the
place of the plane at which the picture starts. On the first line the two halves of the starting
address come one after the other. At the end of a line, the next one is begun. -/
structure OnCourse (board : μ) (column row : Nat) (p : Ppu) : Prop where
  halves : p.beam.scanline = 261 → 257 ≤ p.beam.dot → p.beam.dot < 280 →
    Scroll.merge Scroll.verticalMask p.scroll.v p.scroll.t = p.scroll.t
  begun : p.beam.scanline = 261 → 280 ≤ p.beam.dot →
    Fetching board column row (min (p.beam.dot - 320) 16) p
  picture : p.beam.scanline < 240 → p.beam.dot < 256 →
    Fetching board column (row + p.beam.scanline) (16 + p.beam.dot) p
  turn : p.beam.scanline < 240 → p.beam.dot = 256 →
    p.scroll.v = Scroll.address (column + 34) (row + p.beam.scanline + 1)
  ahead : p.beam.scanline < 240 → 257 ≤ p.beam.dot →
    Fetching board column (row + p.beam.scanline + 1) (min (p.beam.dot - 320) 16) p

/-- At the end of a line the first two tiles of the next one are fetched. -/
theorem Fetching.step_ahead {board : μ} {column row : Nat} {p : Ppu} {b : Beam}
    (h : Fetching board column row (min (p.beam.dot - 320) 16) p) (hr : p.rendering = true)
    (hb : p.beam.advance p.rendering = b) (hdot : b.dot = p.beam.dot + 1)
    (hline : b.scanline < 240 ∨ b.scanline = 261) (h257 : 257 ≤ p.beam.dot)
    (hmove : b.movedAddress p.scroll.v p.scroll.t = p.scroll.v)
    (hf : (p.step board).fault = false) :
    Fetching board column row (min (b.dot - 320) 16) (p.step board) := by
  have hrenders := Beam.renders_of_line hline
  by_cases hin : 320 ≤ p.beam.dot ∧ p.beam.dot ≤ 335
  · have hcount : min (b.dot - 320) 16 = min (p.beam.dot - 320) 16 + 1 := by omega
    rw [hcount]
    exact h.step_inside hr hb hrenders (Beam.fetches_iff.mpr (by omega)) (by omega) (by omega) hf
  · have hcount : min (b.dot - 320) 16 = min (p.beam.dot - 320) 16 := by omega
    have hfetch : b.fetches = false := Bool.eq_false_iff.mpr (by rw [Ne, Beam.fetches_iff]; omega)
    rw [hcount]
    exact h.step_outside hr hb hrenders hfetch hmove

theorem t_step (p : Ppu) (board : μ) : (p.step board).scroll.t = p.scroll.t := by
  obtain ⟨_, _, _, _, _, _, _, _, _, hs⟩ := p.step_shape board
  rw [hs]

/-- Between the picture and the tiles of the next line the current address is only moved. -/
theorem v_step_between {p : Ppu} (hr : p.rendering = true) (board : μ) {b : Beam}
    (hb : p.beam.advance p.rendering = b) (hline : b.scanline < 240 ∨ b.scanline = 261)
    (hlow : 257 ≤ b.dot) (hhigh : b.dot ≤ 320) :
    (p.step board).scroll.v = b.movedAddress p.scroll.v p.scroll.t := by
  have hfetch : b.fetches = false := Bool.eq_false_iff.mpr (by rw [Ne, Beam.fetches_iff]; omega)
  obtain ⟨-, -, -, hv⟩ := step_outside hr board hb (Beam.renders_of_line hline) hfetch
  exact hv

/-- **Within a line the pipeline stays on its course.** -/
theorem OnCourse.step_within {board : μ} {column row : Nat} {p : Ppu} {b : Beam}
    (h : OnCourse board column row p) (ht : p.scroll.t = Scroll.address column row)
    (hbound : p.scroll.Bounded) (hr : p.rendering = true) (hb : p.beam.advance p.rendering = b)
    (hdot : b.dot = p.beam.dot + 1) (hsame : b.scanline = p.beam.scanline)
    (hline : b.scanline < 240 ∨ b.scanline = 261) (hf : (p.step board).fault = false) :
    OnCourse board column row (p.step board) := by
  have hrenders := Beam.renders_of_line hline
  have hbeam : (p.step board).beam = b := (beam_step p board).trans hb
  constructor <;> rw [hbeam]
  case halves =>
    intro hl hlow hhigh
    rw [t_step, v_step_between hr board hb hline hlow (by omega)]
    by_cases h257 : b.dot = 257
    · -- the horizontal half is copied, the vertical one comes later
      rw [Beam.movedAddress, if_neg (by omega), if_pos h257]
      exact Scroll.merge_vertical_merge_horizontal hbound.v_lt hbound.t_lt
    · rw [Beam.movedAddress_eq_self (by omega) h257 (by omega)]
      exact h.halves (by omega) (by omega) (by omega)
  case begun =>
    intro hl hlow
    by_cases h280 : b.dot = 280
    · -- with the vertical half the starting address is complete
      have hv := v_step_between hr board hb hline (by omega) (by omega)
      rw [Beam.movedAddress, if_neg (by omega), if_neg (by omega), if_pos (by omega),
        h.halves (by omega) (by omega) (by omega), ht] at hv
      rw [h280]
      exact Fetching.start hv
    · have hbegun := h.begun (by omega) (by omega)
      refine hbegun.step_ahead hr hb hdot hline (by omega) ?_ hf
      by_cases hcopy : b.dot ≤ 304
      · -- the vertical half is copied once more
        have hcount : min (p.beam.dot - 320) 16 = 0 := by omega
        have hv := hbegun.address
        rw [hcount] at hv
        rw [Beam.movedAddress, if_neg (by omega), if_neg (by omega), if_pos (by omega), hv, ht]
        exact Scroll.merge_self _ _
      · exact Beam.movedAddress_eq_self (by omega) (by omega) (by omega) _ _
  case picture =>
    intro hl hlow
    have hcount : 16 + b.dot = 16 + p.beam.dot + 1 := by omega
    rw [hsame, hcount]
    exact (h.picture (by omega) (by omega)).step_inside hr hb hrenders
      (Beam.fetches_iff.mpr (by omega)) (by omega) (by omega) hf
  case turn =>
    intro hl h256
    obtain ⟨q, hq, -, -, -, hv⟩ := Ppu.step_inside hr hb hrenders (Beam.fetches_iff.mpr (by omega))
      (h.picture (by omega) (by omega)) (by omega) hf
    have hcount : (16 + p.beam.dot + 1) / 8 = 34 := by omega
    rw [hv, Beam.movedAddress, if_pos h256, hq.address, Scroll.nextRow_address, hcount, hsame]
  case ahead =>
    intro hl hlow
    by_cases h257 : b.dot = 257
    · -- back to the starting column, on the row that the last dot has moved to
      have hv := v_step_between hr board hb hline (by omega) (by omega)
      rw [Beam.movedAddress, if_neg (by omega), if_pos h257, h.turn (by omega) (by omega), ht,
        Scroll.merge_horizontal_address] at hv
      rw [h257, hsame]
      exact Fetching.start hv
    · rw [hsame]
      refine (h.ahead (by omega) (by omega)).step_ahead hr hb hdot hline (by omega) ?_ hf
      exact Beam.movedAddress_eq_self (by omega) h257 (by omega) _ _

/-- From the end of a line, or from the dot before it if the last one is skipped, the pipeline comes
to the next line as it is. -/
theorem OnCourse.step_nextLine {board : μ} {column row : Nat} {p : Ppu} {b : Beam} (line : Nat)
    (h : Fetching board column (row + line) 16 p) (hr : p.rendering = true)
    (hb : p.beam.advance p.rendering = b) (hdot : b.dot = 0) (hline : b.scanline = line) :
    OnCourse board column row (p.step board) := by
  have hbeam : (p.step board).beam = b := (beam_step p board).trans hb
  constructor <;> rw [hbeam, hdot]
  case halves => exact fun _ h257 => absurd h257 (by decide)
  case begun => exact fun _ h280 => absurd h280 (by decide)
  case turn => exact fun _ h256 => absurd h256 (by decide)
  case ahead => exact fun _ h257 => absurd h257 (by decide)
  case picture =>
    intro hl _
    rw [hline]
    refine h.step_outside hr hb (Beam.renders_of_line (.inl hl)) (Bool.eq_false_iff.mpr ?_) ?_
    · rw [Ne, Beam.fetches_iff]
      omega
    · exact Beam.movedAddress_eq_self (by omega) (by omega) (by omega) _ _

/-- **A dot keeps the pipeline on its course.** -/
theorem OnCourse.step {board : μ} {column row : Nat} {p : Ppu} (h : OnCourse board column row p)
    (ht : p.scroll.t = Scroll.address column row) (hbound : p.scroll.Bounded)
    (hr : p.rendering = true) (hdot : p.beam.dot ≤ 340)
    (hline : p.beam.scanline < 240 ∨ p.beam.scanline = 261) (hf : (p.step board).fault = false) :
    OnCourse board column row (p.step board) := by
  -- over the end of a line the two tiles that have been fetched stay as they are
  rcases p.beam.advance_cases p.rendering with ⟨hs, hb⟩ | ⟨-, -, hb⟩ | ⟨hd, hl, hb⟩ | ⟨hd, hl, hb⟩
  · have hbegun := h.begun (by omega) (by omega)
    rw [(by omega : min (p.beam.dot - 320) 16 = 16)] at hbegun
    exact step_nextLine 0 hbegun hr hb rfl rfl
  · exact h.step_within ht hbound hr hb rfl rfl hline hf
  · have hahead := h.ahead (by omega) (by omega)
    rw [(by omega : min (p.beam.dot - 320) 16 = 16), Nat.add_assoc] at hahead
    exact step_nextLine (p.beam.scanline + 1) hahead hr hb rfl rfl
  · have hbegun := h.begun (by omega) (by omega)
    rw [(by omega : min (p.beam.dot - 320) 16 = 16)] at hbegun
    exact step_nextLine 0 hbegun hr hb rfl rfl

end Ppu

end Nes
