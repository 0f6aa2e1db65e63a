import Nes.Proofs.Ppu.Run

/-!
# Position of the beam

Counted in dots from the first dot of frame 0, the position of the beam goes up by one with every
dot, and by one more with the dot that skips the last one of an odd frame. `position_run` adds this
up over a run without resets. No dot is skipped before the end of frame 1, so up to there the number
of dots since power-on tells where the beam is (`place_run_powerOn`).
-/

set_option autoImplicit false

namespace Nes

namespace Beam

/-- Dots in a frame from which none is skipped. -/
def dotsPerFrame : Nat := dotsPerScanline * scanlinesPerFrame

/-- Number of dots from the first dot of frame 0, had none been skipped. -/
def position (b : Beam) : Nat := dotsPerFrame * b.frame + dotsPerScanline * b.scanline + b.dot

/-- The beam is on the screen, and the flag for odd frames agrees with their number. -/
structure WellTimed (b : Beam) : Prop where
  dot_le : b.dot ≤ 340
  scanline_le : b.scanline ≤ 261
  odd_iff : b.odd = true ↔ b.frame % 2 = 1

/-- The last dot of the frame is left out. -/
def Skips (b : Beam) (rendering : Bool) : Prop :=
  b.scanline = 261 ∧ b.dot = 339 ∧ rendering = true ∧ b.frame % 2 = 1

instance (b : Beam) (rendering : Bool) : Decidable (b.Skips rendering) :=
  inferInstanceAs (Decidable (_ ∧ _ ∧ _ ∧ _))

/-- All that the beam can do at a dot: it skips the last one of an odd frame, goes on within the
line, or starts the next line or the next frame. -/
theorem advance_cases (b : Beam) (rendering : Bool) :
    ((rendering = true ∧ b.odd = true ∧ b.scanline = 261 ∧ b.dot = 339) ∧
        b.advance rendering = b.nextFrame) ∨
      (¬ (rendering = true ∧ b.odd = true ∧ b.scanline = 261 ∧ b.dot = 339) ∧ b.dot < 340 ∧
        b.advance rendering = { b with dot := b.dot + 1 }) ∨
      (340 ≤ b.dot ∧ b.scanline < 261 ∧
        b.advance rendering = { b with dot := 0, scanline := b.scanline + 1 }) ∨
      (340 ≤ b.dot ∧ 261 ≤ b.scanline ∧ b.advance rendering = b.nextFrame) := by
  unfold Beam.advance preRenderLine
  by_cases hs : rendering = true ∧ b.odd = true ∧ b.scanline = 261 ∧ b.dot = 339
  · exact .inl ⟨hs, if_pos hs⟩
  · rw [if_neg hs]
    by_cases hd : b.dot < 340
    · exact .inr (.inl ⟨hs, hd, if_pos hd⟩)
    · rw [if_neg hd]
      by_cases hl : b.scanline < 261
      · exact .inr (.inr (.inl ⟨Nat.le_of_not_lt hd, hl, if_pos hl⟩))
      · exact .inr (.inr (.inr ⟨Nat.le_of_not_lt hd, Nat.le_of_not_lt hl, if_neg hl⟩))

theorem WellTimed.nextFrame {b : Beam} (h : b.WellTimed) : b.nextFrame.WellTimed := by
  refine ⟨by simp [Beam.nextFrame], by simp [Beam.nextFrame], ?_⟩
  have hodd := h.odd_iff
  simp only [Beam.nextFrame]
  cases hb : b.odd <;> simp [hb] at hodd ⊢ <;> omega

theorem WellTimed.advance {b : Beam} (h : b.WellTimed) (rendering : Bool) :
    (b.advance rendering).WellTimed := by
  rcases b.advance_cases rendering with ⟨-, he⟩ | ⟨-, hd, he⟩ | ⟨-, hl, he⟩ | ⟨-, -, he⟩
  · exact he ▸ h.nextFrame
  · exact he ▸ ⟨hd, h.scanline_le, h.odd_iff⟩
  · exact he ▸ ⟨Nat.zero_le _, hl, h.odd_iff⟩
  · exact he ▸ h.nextFrame

/-- One dot further, or two when the last dot of a frame is left out. -/
theorem WellTimed.position_advance {b : Beam} (h : b.WellTimed) (rendering : Bool) :
    (b.advance rendering).position = b.position + 1 + if b.Skips rendering then 1 else 0 := by
  obtain ⟨hdot, hline, hodd⟩ := h
  have hskip : b.Skips rendering ↔
      rendering = true ∧ b.odd = true ∧ b.scanline = 261 ∧ b.dot = 339 :=
    ⟨fun h' => ⟨h'.2.2.1, hodd.mpr h'.2.2.2, h'.1, h'.2.1⟩,
      fun h' => ⟨h'.2.2.1, h'.2.2.2, h'.1, hodd.mp h'.2.1⟩⟩
  rcases b.advance_cases rendering with ⟨hs, he⟩ | ⟨hs, hd, he⟩ | ⟨hd, hl, he⟩ | ⟨hd, hl, he⟩
  · rw [if_pos (hskip.mpr hs), he]
    obtain ⟨-, -, hl, hd⟩ := hs
    simp only [position, Beam.nextFrame, dotsPerFrame, dotsPerScanline, scanlinesPerFrame, hl, hd]
    omega
  · rw [if_neg (mt hskip.mp hs), he, position]
    rfl
  · rw [if_neg fun h' => by have := h'.2.1; omega, he]
    simp only [position, dotsPerFrame, dotsPerScanline]
    omega
  · rw [if_neg fun h' => by have := h'.2.1; omega, he]
    simp only [position, Beam.nextFrame, dotsPerFrame, dotsPerScanline, scanlinesPerFrame]
    omega

/-- The beam has not come to the next frame before its position has. -/
theorem WellTimed.position_lt {b : Beam} (h : b.WellTimed) :
    b.position < dotsPerFrame * (b.frame + 1) := by
  have hdot := h.dot_le
  have hline := h.scanline_le
  simp only [position, dotsPerFrame, dotsPerScanline, scanlinesPerFrame]
  omega

theorem startsVblank_iff (b : Beam) : b.startsVblank = true ↔ b.scanline = 241 ∧ b.dot = 1 := by
  rw [startsVblank, Bool.and_eq_true, decide_eq_true_iff, decide_eq_true_iff, vblankLine]

theorem endsVblank_iff (b : Beam) : b.endsVblank = true ↔ b.scanline = 261 ∧ b.dot = 1 := by
  rw [endsVblank, preRender, Bool.and_eq_true, decide_eq_true_iff, decide_eq_true_iff,
    preRenderLine]

theorem frame_advance_le (b : Beam) (rendering : Bool) :
    (b.advance rendering).frame ≤ b.frame + 1 := by
  rcases b.advance_cases rendering with ⟨-, he⟩ | ⟨-, -, he⟩ | ⟨-, -, he⟩ | ⟨-, -, he⟩ <;> rw [he]
  · exact Nat.le_refl _
  · exact Nat.le_succ _
  · exact Nat.le_succ _
  · exact Nat.le_refl _

end Beam

namespace Ppu

variable {μ : Type} [Board μ]

/-- A frame takes a dot at least. -/
theorem frame_run_le (es : List (Event μ)) (p : Ppu) :
    (run es p).beam.frame ≤ p.beam.frame + Event.dots es := by
  induction es generalizing p with
  | nil => exact Nat.le_refl _
  | cons e es ih =>
      have hrest := ih (p.after e)
      have hfirst : (p.after e).beam.frame ≤ p.beam.frame + if e.isDot then 1 else 0 := by
        rw [beam_after]
        cases e with
        | dot board => exact p.beam.frame_advance_le p.rendering
        | reset => exact Nat.zero_le _
        | read | write | storePage | takeNmi => exact Nat.le_refl _
      rw [run_cons, Event.dots_cons]
      omega

/-- The next dot skips the last one of the frame. -/
def skipsDot (p : Ppu) : Bool := decide (p.beam.Skips p.rendering)

/-- How many dots of a run skip one. -/
def skippedDots : List (Event μ) → Ppu → Nat
  | [], _ => 0
  | e :: es, p => (if e.isDot && p.skipsDot then 1 else 0) + skippedDots es (p.after e)

theorem wellTimed_after {p : Ppu} (h : p.beam.WellTimed) {e : Event μ} (he : e ≠ .reset) :
    (p.after e).beam.WellTimed := by
  rw [beam_after]
  cases e with
  | dot board => exact h.advance p.rendering
  | reset => exact absurd rfl he
  | read | write | storePage | takeNmi => exact h

theorem position_after {p : Ppu} (h : p.beam.WellTimed) {e : Event μ} (he : e ≠ .reset) :
    (p.after e).beam.position =
      p.beam.position + (if e.isDot then 1 else 0) + if e.isDot && p.skipsDot then 1 else 0 := by
  rw [beam_after]
  cases e with
  | dot board => simp [h.position_advance, Event.isDot, skipsDot]
  | reset => exact absurd rfl he
  | read | write | storePage | takeNmi => simp [Event.isDot]

theorem wellTimed_run {es : List (Event μ)} (hes : Event.reset ∉ es) {p : Ppu}
    (h : p.beam.WellTimed) : (run es p).beam.WellTimed :=
  run_invariant (P := fun q => q.beam.WellTimed) h fun _ he _ hq =>
    wellTimed_after hq (ne_of_mem_of_not_mem he hes)

/-- Over a run without resets the position goes up by the number of dots and of skipped dots. -/
theorem position_run {es : List (Event μ)} (hes : Event.reset ∉ es) {p : Ppu}
    (h : p.beam.WellTimed) :
    (run es p).beam.position = p.beam.position + Event.dots es + skippedDots es p := by
  induction es generalizing p with
  | nil => rfl
  | cons e es ih =>
      have he : e ≠ .reset := fun h' => hes (h' ▸ List.mem_cons_self)
      have htail : Event.reset ∉ es := fun h' => hes (List.mem_cons_of_mem e h')
      rw [run_cons, ih htail (wellTimed_after h he), position_after h he, Event.dots_cons,
        skippedDots]
      omega

theorem wellTimed_powerOn : powerOn.beam.WellTimed := ⟨by decide, by decide, by decide⟩

/-! ## Runs that skip no dot -/

/-- The first dot that can be skipped is the last one of frame 1. -/
theorem skippedDots_eq_zero {es : List (Event μ)} (hes : Event.reset ∉ es) {p : Ppu}
    (h : p.beam.WellTimed) (hend : p.beam.position + Event.dots es + 2 ≤ 2 * Beam.dotsPerFrame) :
    skippedDots es p = 0 := by
  induction es generalizing p with
  | nil => rfl
  | cons e es ih =>
      have he : e ≠ .reset := fun h' => hes (h' ▸ List.mem_cons_self)
      have htail : Event.reset ∉ es := fun h' => hes (List.mem_cons_of_mem e h')
      rw [Event.dots_cons] at hend
      have hstays : (e.isDot && p.skipsDot) = false := by
        cases hd : e.isDot with
        | false => rfl
        | true =>
            rw [hd, if_pos rfl] at hend
            refine decide_eq_false fun hskips => ?_
            obtain ⟨hline, hdot, -, hodd⟩ := hskips
            simp only [Beam.position, Beam.dotsPerFrame, dotsPerScanline, scanlinesPerFrame] at hend
            omega
      have hnext : (p.after e).beam.position = p.beam.position + if e.isDot then 1 else 0 := by
        rw [position_after h he, hstays]
        rfl
      rw [skippedDots, hstays, if_neg Bool.false_ne_true, Nat.zero_add]
      exact ih htail (wellTimed_after h he) (by omega)

/-- Up to there, the position goes up from the one at power-on by the number of dots. -/
theorem position_run_powerOn {es : List (Event μ)} (hes : Event.reset ∉ es)
    (hdots : Event.dots es ≤ 96502) : (run es powerOn).beam.position = 82180 + Event.dots es := by
  have hstart : powerOn.beam.position = 82180 := rfl
  have hnone : skippedDots es powerOn = 0 := by
    refine skippedDots_eq_zero hes wellTimed_powerOn ?_
    rw [hstart]
    simp only [Beam.dotsPerFrame, dotsPerScanline, scanlinesPerFrame]
    omega
  rw [position_run hes wellTimed_powerOn, hnone, hstart, Nat.add_zero]

/-- So the number of dots tells where the beam is. -/
theorem place_run_powerOn {es : List (Event μ)} (hes : Event.reset ∉ es)
    (hdots : Event.dots es ≤ 96502) :
    (run es powerOn).beam.frame = (82180 + Event.dots es) / 89342 ∧
      (run es powerOn).beam.scanline = (82180 + Event.dots es) % 89342 / 341 ∧
      (run es powerOn).beam.dot = (82180 + Event.dots es) % 89342 % 341 := by
  obtain ⟨hdot, hline, -⟩ := wellTimed_run hes wellTimed_powerOn
  have hpos := position_run_powerOn hes hdots
  simp only [Beam.position, Beam.dotsPerFrame, dotsPerScanline, scanlinesPerFrame] at hpos
  omega

end Ppu

end Nes
