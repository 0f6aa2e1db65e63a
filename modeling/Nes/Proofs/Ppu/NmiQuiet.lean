import Nes.Proofs.Ppu.NmiHistory
import Nes.Proofs.Ppu.Position

/-!
# Dots without a delivery

A delivery ends the countdown, and the next one starts with a rise of the interrupt line. Left alone
by the CPU, the line rises only at the first dot but one of line 241, and if it is high it has to
fall first, at line 261. So from a delivery on, the picture unit delivers nothing for almost a frame
unless the CPU touches it (`Quiet`, `quiet_of_pending_step`).
-/

set_option autoImplicit false

namespace Nes

namespace Beam

/-- Dots that are sure to pass between the end of one vertical blank and the start of the next. -/
def dotsUntilVblank : Nat := dotsPerScanline * vblankLine

/-- The vertical blank does not start in the next dots, as many as the number says: it has just
ended, or it is further away. -/
def FarFromVblank (n : Nat) (b : Beam) : Prop :=
  (b.scanline = preRenderLine ∧ 1 ≤ b.dot) ∨
    dotsPerScanline * b.scanline + b.dot + n ≤ dotsUntilVblank

/-- One dot further, the start of the vertical blank is one dot nearer and has not come. -/
theorem FarFromVblank.advance {n : Nat} {b : Beam} (h : b.FarFromVblank (n + 1))
    (hn : n ≤ dotsUntilVblank) (rendering : Bool) :
    (b.advance rendering).FarFromVblank n ∧ (b.advance rendering).startsVblank = false := by
  simp only [startsVblank, Bool.and_eq_false_iff, decide_eq_false_iff_not]
  simp only [FarFromVblank, dotsUntilVblank, dotsPerScanline, vblankLine, preRenderLine] at *
  rcases b.advance_cases rendering with ⟨-, he⟩ | ⟨-, hd, he⟩ | ⟨hd, hl, he⟩ | ⟨hd, hl, he⟩
  · rw [he]
    simp only [Beam.nextFrame]
    omega
  · rw [he]
    dsimp only
    omega
  · rw [he]
    dsimp only
    omega
  · rw [he]
    simp only [Beam.nextFrame]
    omega

/-- When the vertical blank has just ended, the next one is far. -/
theorem farFromVblank_of_endsVblank {b : Beam} (h : b.endsVblank = true) (n : Nat) :
    b.FarFromVblank n := by
  simp only [endsVblank, preRender, Bool.and_eq_true, decide_eq_true_iff] at h
  exact .inl ⟨h.1, Nat.le_of_eq h.2.symm⟩

end Beam

namespace NmiLatch

theorem delay_setOccurred (l : NmiLatch) (on : Bool) :
    (l.setOccurred on).delay =
      if (l.setOccurred on).line && !l.previous then nmiDelay else l.delay := rfl

theorem line_setOccurred_false (l : NmiLatch) : (l.setOccurred false).line = false :=
  Bool.and_false l.output

/-- A line that is high stays high when the vertical blank starts. -/
theorem line_setOccurred_true {l : NmiLatch} (h : l.line = true) :
    (l.setOccurred true).line = true := by
  rw [line, Bool.and_eq_true] at h
  show (l.output && true) = true
  rw [h.1]
  rfl

end NmiLatch

namespace Ppu

variable {μ : Type} [Board μ]

/-- Nothing is delivered in the next dots, as many as the number says, if the CPU does not touch the
picture unit: no countdown goes on, and the line cannot rise. -/
structure Quiet (n : Nat) (p : Ppu) : Prop where
  delay : p.nmi.delay = 0
  previous : p.nmi.previous = p.nmi.line
  far : p.nmi.line = false → p.beam.FarFromVblank n

theorem Quiet.mono {n k : Nat} {p : Ppu} (h : p.Quiet n) (hk : k ≤ n) : p.Quiet k := by
  refine ⟨h.delay, h.previous, fun hline => ?_⟩
  rcases h.far hline with hended | hfar
  · exact .inl hended
  · exact .inr (by omega)

/-- A dot of quiet delivers nothing. -/
theorem Quiet.pending_step {n : Nat} {p : Ppu} (h : p.Quiet n) (board : μ) :
    (p.step board).nmiPending = p.nmiPending := by
  rw [Ppu.pending_step, h.delay]
  simp

/-- A dot that ends a countdown or finds none leads to quiet, unless the vertical blank starts and
makes the line rise. -/
theorem quiet_step {n : Nat} {p : Ppu} (board : μ) (hn : n ≤ Beam.dotsUntilVblank)
    (hdelay : p.nmi.delay ≤ 1) (hprevious : p.nmi.previous = p.nmi.line)
    (hfar : p.nmi.line = false → p.beam.FarFromVblank (n + 1)) :
    (p.step board).takeNmi.Quiet n := by
  have htick : p.nmi.tick.delay = 0 := by
    rw [NmiLatch.delay_tick]
    omega
  have hlast : p.nmi.tick.previous = p.nmi.tick.line := by
    rw [NmiLatch.previous_tick, NmiLatch.line_tick, hprevious]
  suffices h : (p.step board).Quiet n from ⟨h.delay, h.previous, h.far⟩
  have hnmi := p.nmi_step board
  have hbeam := p.beam_step board
  split at hnmi
  · next hstart =>
      -- the line is high already, so it does not rise
      have hline : p.nmi.tick.line = true := by
        rw [NmiLatch.line_tick]
        cases h : p.nmi.line with
        | true => rfl
        | false => rw [((hfar h).advance hn p.rendering).2] at hstart; cases hstart
      refine ⟨?_, ?_, fun h => ?_⟩
      · rw [hnmi, NmiLatch.delay_setOccurred, hlast, hline, Bool.not_true, Bool.and_false, htick]
        rfl
      · rw [hnmi]
        rfl
      · rw [hnmi, NmiLatch.line_setOccurred_true hline] at h
        cases h
  · split at hnmi
    · next hend =>
        -- the line falls, or stays low
        refine ⟨?_, ?_, fun _ => ?_⟩
        · rw [hnmi, NmiLatch.delay_setOccurred, NmiLatch.line_setOccurred_false, Bool.false_and,
            htick]
          rfl
        · rw [hnmi]
          rfl
        · rw [hbeam]
          exact Beam.farFromVblank_of_endsVblank hend n
    · refine ⟨by rw [hnmi, htick], by rw [hnmi, hlast], fun h => ?_⟩
      rw [hnmi, NmiLatch.line_tick] at h
      rw [hbeam]
      exact ((hfar h).advance hn p.rendering).1

theorem Quiet.step {n : Nat} {p : Ppu} (h : p.Quiet (n + 1)) (board : μ)
    (hn : n ≤ Beam.dotsUntilVblank) : (p.step board).takeNmi.Quiet n :=
  quiet_step board hn (by rw [h.delay]; exact Nat.zero_le 1) h.previous h.far

/-- **A delivery is followed by quiet.** -/
theorem quiet_of_pending_step {p : Ppu} {board : μ} (hpending : p.nmiPending = false)
    (hprevious : p.nmi.previous = p.nmi.line) (h : (p.step board).nmiPending = true) :
    (p.step board).takeNmi.Quiet Beam.dotsUntilVblank := by
  rw [Ppu.pending_step, hpending, Bool.false_or, Bool.and_eq_true, beq_iff_eq] at h
  refine quiet_step board (Nat.le_refl _) (Nat.le_of_eq h.1) hprevious fun hlow => ?_
  rw [h.2] at hlow
  cases hlow

/-! ## Dots without rendering -/

/-- What a dot without rendering does to the beam and the interrupt line. -/
def blankDot (s : Beam × NmiLatch) : Beam × NmiLatch :=
  let beam := s.1.advance false
  (beam, if beam.startsVblank then s.2.tick.setOccurred true
    else if beam.endsVblank then s.2.tick.setOccurred false
    else s.2.tick)

theorem beam_nmi_replicate (board : μ) (n : Nat) {p : Ppu} (h : p.mask = 0) :
    ((run (.replicate n (.dot board)) p).beam, (run (.replicate n (.dot board)) p).nmi) =
      n.repeat blankDot (p.beam, p.nmi) := by
  have hdark : ∀ q : Ppu, q.mask = 0 → q.rendering = false := by
    intro q hq
    rw [rendering, hq]
    decide
  induction n with
  | zero => rfl
  | succ n ih =>
      have hmask := mask_replicate board n p
      rw [List.replicate_succ', run_concat, Nat.repeat, ← ih]
      generalize run (.replicate n (.dot board)) p = q at hmask ⊢
      show ((q.step board).beam, (q.step board).nmi) = _
      rw [beam_step, nmi_step, hdark q (hmask.trans h), blankDot]

/-- With interrupts switched on at power-on, the vertical blank starts at the second dot, and one
dot of the countdown is left after sixteen. -/
theorem nmi_sixteen_dots (board : μ) :
    (run (.write board 0x2000 0x80 :: .replicate 16 (.dot board)) powerOn).nmi =
      { occurred := true, output := true, previous := true, delay := 1 } := by
  have hblank : ∀ p : Ppu, p.mask = 0 → p.beam = powerOn.beam →
      p.nmi = powerOn.nmi.setOutput true → (run (.replicate 16 (.dot board)) p).nmi =
        { occurred := true, output := true, previous := true, delay := 1 } := by
    intro p hmask hbeam hnmi
    have hdots := congrArg Prod.snd (beam_nmi_replicate board 16 hmask)
    rw [hbeam, hnmi] at hdots
    exact hdots.trans (by decide)
  rw [run_cons]
  exact hblank _ rfl rfl rfl

end Ppu

end Nes
