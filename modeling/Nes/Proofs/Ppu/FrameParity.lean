import Nes.Proofs.Ppu.Fault
import Nes.Proofs.Ppu.Position

/-!
# The parity of frames across resets

The beam counts frames twice, with a number and with a flag for odd frames. Every frame that is
completed moves both, but a reset sets the number back to 0 and leaves the flag. So the flag is not
the parity of the number: it is that of all frames completed since power-on, whatever resets came in
between (`odd_run`), and the last dot of a frame is skipped by that count.

Where the beam goes is decided by the beam and the mask, and these are moved by dots, writes to the
mask and resets only (`BeamInput`). From a reset on they go as at power-on if the flag is clear,
that is after an even number of frames. After an odd number the first frame is a dot shorter if
something is rendered at its end (`spots_reset_iff`).
-/

set_option autoImplicit false

namespace Nes

/-- Dot, line and number of the frame. -/
def Beam.spot (b : Beam) : Nat × Nat × Nat := (b.dot, b.scanline, b.frame)

/-- A dot leaves both counts of the frames or moves both. -/
theorem Beam.advance_frame (b : Beam) (rendering : Bool) :
    (b.advance rendering).frame = b.frame ∧ (b.advance rendering).odd = b.odd ∨
      (b.advance rendering).frame = b.frame + 1 ∧ (b.advance rendering).odd = !b.odd := by
  rcases b.advance_cases rendering with ⟨-, he⟩ | ⟨-, -, he⟩ | ⟨-, -, he⟩ | ⟨-, -, he⟩ <;> rw [he]
  · exact .inr ⟨rfl, rfl⟩
  · exact .inl ⟨rfl, rfl⟩
  · exact .inl ⟨rfl, rfl⟩
  · exact .inr ⟨rfl, rfl⟩

/-- The last dot but one of a frame is followed by the last one, or by the next frame. -/
theorem Beam.spot_advance {b : Beam} (hline : b.scanline = 261) (hdot : b.dot = 339)
    (rendering : Bool) :
    (b.advance rendering).spot =
      if rendering = true ∧ b.odd = true then (0, 0, b.frame + 1) else (340, 261, b.frame) := by
  unfold Beam.advance preRenderLine
  by_cases hskip : rendering = true ∧ b.odd = true
  · rw [if_pos hskip, if_pos ⟨hskip.1, hskip.2, hline, hdot⟩]
    rfl
  · rw [if_neg hskip, if_neg fun h => hskip ⟨h.1, h.2.1⟩, if_pos (by omega), spot, hdot, hline]

/-- While nothing is rendered, the dots of a frame follow each other. -/
theorem Beam.advance_idle {k : Nat} (hk : k < 89341) (frame : Nat) (odd : Bool) :
    (⟨k % 341, k / 341, frame, odd⟩ : Beam).advance false =
      ⟨(k + 1) % 341, (k + 1) / 341, frame, odd⟩ := by
  rcases Beam.advance_cases ⟨k % 341, k / 341, frame, odd⟩ false with
    ⟨hs, -⟩ | ⟨-, hdot, he⟩ | ⟨hdot, -, he⟩ | ⟨hdot, hline, -⟩
  · exact absurd hs.1 Bool.false_ne_true
  · rw [he]
    dsimp only at hdot ⊢
    exact (Beam.mk.injEq ..).mpr ⟨by omega, by omega, rfl, rfl⟩
  · rw [he]
    dsimp only at hdot ⊢
    exact (Beam.mk.injEq ..).mpr ⟨by omega, by omega, rfl, rfl⟩
  · dsimp only at hdot hline
    omega

namespace Ppu

variable {μ : Type} [Board μ]

/-! ## Completed frames -/

/-- How many events of a run complete a frame. -/
def framesCompleted : List (Event μ) → Ppu → Nat
  | [], _ => 0
  | e :: es, p =>
      (if (p.after e).beam.frame = p.beam.frame + 1 then 1 else 0) +
        framesCompleted es (p.after e)

theorem framesCompleted_append (es es' : List (Event μ)) (p : Ppu) :
    framesCompleted (es ++ es') p = framesCompleted es p + framesCompleted es' (run es p) := by
  induction es generalizing p with
  | nil => exact (Nat.zero_add _).symm
  | cons e es ih =>
      rw [List.cons_append, framesCompleted, ih, framesCompleted, run_cons, Nat.add_assoc]

/-- The flag changes with every frame that is completed, and a reset leaves it. -/
theorem odd_after (p : Ppu) (e : Event μ) :
    (p.after e).beam.odd =
      if (p.after e).beam.frame = p.beam.frame + 1 then !p.beam.odd else p.beam.odd := by
  have hsame : ¬ p.beam.frame = p.beam.frame + 1 := by omega
  rw [beam_after]
  cases e with
  | dot board =>
      rcases p.beam.advance_frame p.rendering with ⟨hframe, hodd⟩ | ⟨hframe, hodd⟩
      · exact hodd.trans (if_neg (hframe ▸ hsame)).symm
      · exact hodd.trans (if_pos hframe).symm
  | reset => exact (if_neg (Nat.succ_ne_zero _).symm).symm
  | read | write | storePage | takeNmi => exact (if_neg hsame).symm

/-- **The flag is the parity of the completed frames**, through resets. -/
theorem odd_run (es : List (Event μ)) (p : Ppu) :
    (run es p).beam.odd = if framesCompleted es p % 2 = 1 then !p.beam.odd else p.beam.odd := by
  induction es generalizing p with
  | nil => rfl
  | cons e es ih =>
      rw [run_cons, ih, odd_after, framesCompleted]
      generalize framesCompleted es (p.after e) = n
      by_cases hframe : (p.after e).beam.frame = p.beam.frame + 1
      · rw [if_pos hframe, if_pos hframe, Bool.not_not]
        by_cases hn : n % 2 = 1
        · rw [if_pos hn, if_neg (by omega)]
        · rw [if_neg hn, if_pos (by omega)]
      · rw [if_neg hframe, if_neg hframe, Nat.zero_add]

theorem odd_run_powerOn (es : List (Event μ)) :
    (run es powerOn).beam.odd = true ↔ framesCompleted es powerOn % 2 = 1 := by
  have hclear : powerOn.beam.odd = false := rfl
  rw [odd_run, hclear]
  by_cases h : framesCompleted es powerOn % 2 = 1 <;> simp [h]

/-- Without a reset the number of the frame counts them too. -/
theorem frame_run {es : List (Event μ)} (hes : Event.reset ∉ es) (p : Ppu) :
    (run es p).beam.frame = p.beam.frame + framesCompleted es p := by
  induction es generalizing p with
  | nil => rfl
  | cons e es ih =>
      have htail : Event.reset ∉ es := fun h => hes (List.mem_cons_of_mem e h)
      have hstep : (p.after e).beam.frame = p.beam.frame ∨
          (p.after e).beam.frame = p.beam.frame + 1 := by
        rw [beam_after]
        cases e with
        | dot board => exact (p.beam.advance_frame p.rendering).imp And.left And.left
        | reset => exact absurd List.mem_cons_self hes
        | read | write | storePage | takeNmi => exact .inl rfl
      rw [run_cons, ih htail, framesCompleted]
      split <;> omega

/-- A reset starts the number anew. -/
theorem frame_run_reset {es : List (Event μ)} (hes : Event.reset ∉ es) (before : List (Event μ))
    (p : Ppu) :
    (run (before ++ .reset :: es) p).beam.frame + framesCompleted before p =
      framesCompleted (before ++ .reset :: es) p := by
  have hnumber : (run es (run before p).reset).beam.frame =
      framesCompleted es (run before p).reset := by
    rw [frame_run hes]
    exact Nat.zero_add _
  have hreset : framesCompleted (.reset :: es) (run before p) =
      framesCompleted es (run before p).reset := by
    have hzero : ¬ ((run before p).after (.reset : Event μ)).beam.frame =
        (run before p).beam.frame + 1 := (Nat.succ_ne_zero _).symm
    rw [framesCompleted, if_neg hzero, Nat.zero_add]
    rfl
  rw [run_append, framesCompleted_append, hreset, ← hnumber, Nat.add_comm]
  rfl

/-! ## What moves the beam -/

/-- What moves the beam and the mask. -/
inductive BeamInput
  | dot
  | mask (value : UInt8)
  | reset
  deriving DecidableEq, Repr

/-- What an event means to the beam and the mask. -/
def Event.beamInput? : Event μ → Option BeamInput
  | .dot _ => some .dot
  | .write _ addr value => if Register.at? addr = some .mask then some (.mask value) else none
  | .reset => some .reset
  | _ => none

/-- The beam and the mask. -/
structure BeamState where
  beam : Beam
  mask : UInt8

/-- How the beam and the mask are moved. -/
def BeamState.feed (s : BeamState) : BeamInput → BeamState
  | .dot => { s with beam := s.beam.advance (decide (s.mask &&& 0x18 ≠ 0)) }
  | .mask value => { s with mask := value }
  | .reset => ⟨s.beam.reset, 0⟩

/-- The beam and the mask of a picture unit. -/
def beamState (p : Ppu) : BeamState := ⟨p.beam, p.mask⟩

theorem beamState_after (p : Ppu) (e : Event μ) :
    (p.after e).beamState = (e.beamInput?.map p.beamState.feed).getD p.beamState := by
  have hbeam := p.beam_after e
  cases e with
  | dot board =>
      rw [beamState, hbeam, after, p.mask_step board]
      rfl
  | read board addr =>
      obtain ⟨_, _, _, _, _, h⟩ := p.readRegister_shape board addr
      rw [after, h]
      rfl
  | write board addr value =>
      rw [beamState, hbeam, after, mask_writeRegister, Event.beamInput?]
      by_cases h : Register.at? addr = some .mask
      · rw [if_pos h, if_pos h]
        rfl
      · rw [if_neg h, if_neg h]
        rfl
  | storePage page bytes =>
      obtain ⟨_, _, h⟩ := p.writeOamPage_shape page bytes
      rw [after, h]
      rfl
  | takeNmi => rfl
  | reset => rfl

/-- Where the beam is after each dot of a run. -/
def spots : List (Event μ) → Ppu → List (Nat × Nat × Nat)
  | [], _ => []
  | e :: es, p =>
      if e.isDot then (p.after e).beam.spot :: spots es (p.after e) else spots es (p.after e)

/-- Where the beam is after each dot, by what moves it. -/
def BeamState.spots : List BeamInput → BeamState → List (Nat × Nat × Nat)
  | [], _ => []
  | .dot :: is, s => (s.feed .dot).beam.spot :: spots is (s.feed .dot)
  | i :: is, s => spots is (s.feed i)

/-- Where the beam goes is decided by the beam, the mask and what moves them. -/
theorem spots_eq (es : List (Event μ)) (p : Ppu) :
    spots es p = p.beamState.spots (es.filterMap Event.beamInput?) := by
  induction es generalizing p with
  | nil => rfl
  | cons e es ih =>
      have hafter := p.beamState_after e
      rw [spots, ih]
      cases e with
      | dot board =>
          have hbeam : (p.after (.dot board)).beamState = p.beamState.feed .dot := hafter
          rw [hbeam]
          exact congrArg (fun s => s.beam.spot :: _) hbeam
      | write board addr value =>
          rw [hafter, List.filterMap_cons, Event.beamInput?]
          by_cases h : Register.at? addr = some .mask
          · rw [if_pos h]
            rfl
          · rw [if_neg h]
            rfl
      | read | storePage | takeNmi | reset =>
          rw [hafter]
          rfl

theorem spots_concat_dot (es : List (Event μ)) (board : μ) (p : Ppu) :
    spots (es ++ [.dot board]) p = spots es p ++ [((run es p).step board).beam.spot] := by
  induction es generalizing p with
  | nil => rfl
  | cons e es ih =>
      rw [List.cons_append, spots, spots, ih]
      split <;> rfl

/-! ## From a reset on -/

/-- Up to the end of the first frame, the beam goes on dot by dot. -/
theorem beam_idle (p : Ppu) (board : μ) {n : Nat} (hn : n ≤ 7161) :
    (run (List.replicate n (.dot board)) p.reset).beam =
      ⟨(82180 + n) % 341, (82180 + n) / 341, 0, p.beam.odd⟩ := by
  induction n with
  | zero => rfl
  | succ n ih =>
      have hidle : (run (List.replicate n (.dot board)) p.reset).rendering = false := by
        have hmask : p.reset.mask = 0 := rfl
        rw [rendering, mask_replicate, hmask]
        rfl
      rw [List.replicate_succ', run_concat, after, beam_step, hidle, ih (Nat.le_of_succ_le hn),
        Beam.advance_idle (by omega)]
      rfl

/-- Some events after which the next dot shows the flag. Rendering is switched on just before the
last dot but one of the first frame. -/
theorem exists_spot_of_odd (board : μ) : ∃ late : List (Event μ), ∀ p : Ppu,
    ((run late p.reset).step board).beam.spot =
      if p.beam.odd = true then (0, 0, 1) else (340, 261, 0) := by
  -- from dot 340 of line 240 they lead to dot 339 of line 261
  generalize hn : 7160 = n
  refine ⟨List.replicate n (.dot board) ++ [.write board 0x2001 0x08], fun p => ?_⟩
  generalize hlate : run (List.replicate n (.dot board) ++ [.write board 0x2001 0x08]) p.reset = q
  rw [run_concat] at hlate
  have hbeam : q.beam = ⟨339, 261, 0, p.beam.odd⟩ := by
    rw [← hlate, beam_after, p.beam_idle board (by omega), ← hn]
  have hon : q.rendering = true := by
    rw [← hlate, rendering, after, mask_writeRegister, if_pos (by decide)]
    decide
  rw [beam_step, hon, Beam.spot_advance (by rw [hbeam]) (by rw [hbeam]), hbeam]
  simp only [true_and]

/-- **What a reset restarts.** From a reset on the beam goes as from power-on, with the same writes
to the mask, exactly if an even number of frames had been completed. -/
theorem spots_reset_iff (board : μ) (es : List (Event μ)) :
    (∀ fs fs' : List (Event μ),
        fs.filterMap Event.beamInput? = fs'.filterMap Event.beamInput? →
        spots fs (run es powerOn).reset = spots fs' powerOn) ↔
      framesCompleted es powerOn % 2 = 0 := by
  have hodd := odd_run_powerOn es
  constructor
  · -- of two runs with the same writes, one shows the flag as it is and one that of power-on
    intro hsame
    obtain ⟨late, hlate⟩ := exists_spot_of_odd board
    have hspots := hsame (late ++ [.dot board]) (late ++ [.dot board]) rfl
    rw [spots_concat_dot, spots_concat_dot] at hspots
    have hlast := List.singleton_inj.mp (List.append_inj_right' hspots rfl)
    have hnew : ((run late powerOn).step board).beam.spot = (340, 261, 0) := hlate powerOn
    rw [hlate, hnew] at hlast
    refine (Nat.mod_two_eq_zero_or_one _).resolve_right fun hcount => ?_
    rw [if_pos (hodd.mpr hcount)] at hlast
    exact absurd hlast (by decide)
  · -- with the flag clear, a reset leaves the beam and the mask of power-on
    intro heven fs fs' hinputs
    have hclear : (run es powerOn).beam.odd = false :=
      Bool.eq_false_iff.mpr fun h => by
        have hcount := hodd.mp h
        omega
    have hstate : (run es powerOn).reset.beamState = powerOn.beamState := by
      show (⟨{ (run es powerOn).beam.reset with odd := (run es powerOn).beam.odd }, 0⟩ :
        BeamState) = _
      rw [hclear]
      rfl
    rw [spots_eq, spots_eq, hinputs, hstate]

/-! ## The law of the flag -/

/-- How the flag for odd frames goes with the frames, in the state after a run from power-on. -/
structure FrameParity (board : μ) (es : List (Event μ)) : Prop where
  /-- The flag is the parity of all frames completed since power-on. -/
  odd_iff : (run es powerOn).beam.odd = true ↔ framesCompleted es powerOn % 2 = 1
  /-- As long as there was no reset, that is the number of the frame. -/
  numbered : .reset ∉ es → (run es powerOn).beam.frame = framesCompleted es powerOn
  /-- Afterwards, the frames completed before the last reset are missing from the number. -/
  renumbered : ∀ before since : List (Event μ), es = before ++ .reset :: since → .reset ∉ since →
    (run es powerOn).beam.frame + framesCompleted before powerOn = framesCompleted es powerOn
  /-- While something is rendered the last dot is skipped in every second frame, by that count. -/
  skipped : (run es powerOn).beam.scanline = 261 → (run es powerOn).beam.dot = 339 →
    ((run es powerOn).step board).beam.spot =
      if (run es powerOn).rendering = true ∧ framesCompleted es powerOn % 2 = 1 then
        (0, 0, (run es powerOn).beam.frame + 1)
      else (340, 261, (run es powerOn).beam.frame)
  /-- A reset restarts the course of the beam if the count is even, and only then. -/
  restarted :
    (∀ fs fs' : List (Event μ),
        fs.filterMap Event.beamInput? = fs'.filterMap Event.beamInput? →
        spots fs (run es powerOn).reset = spots fs' powerOn) ↔
      framesCompleted es powerOn % 2 = 0

/-- **Odd frames**, in every run from power-on, resets among its events. -/
theorem frameParity (board : μ) (es : List (Event μ)) : FrameParity board es where
  odd_iff := odd_run_powerOn es
  numbered := fun h => (frame_run h powerOn).trans (Nat.zero_add _)
  renumbered := by
    rintro before since rfl h
    exact frame_run_reset h before powerOn
  skipped := by
    intro hline hdot
    rw [beam_step, Beam.spot_advance hline hdot]
    simp only [odd_run_powerOn]
  restarted := spots_reset_iff board es

/-- **A frame with the number 0 that counts as odd.** The picture unit is reset when it has
completed one frame. -/
theorem odd_of_reset_in_odd_frame :
    ∃ p : Ppu, p = run (.replicate 7162 (.dot UxRom.blank) ++ [.reset]) powerOn ∧
      ¬ (p.beam.odd = true ↔ p.beam.frame % 2 = 1) := by
  generalize UxRom.blank = board
  generalize hn : 7162 = n
  refine ⟨_, rfl, ?_⟩
  have hreset := Event.reset_notMem_replicate board n
  have hdots := Event.dots_replicate board n
  obtain ⟨-, -, hodd⟩ := wellTimed_run hreset wellTimed_powerOn
  obtain ⟨hplace, -, -⟩ := place_run_powerOn hreset (by omega)
  obtain ⟨q, hq⟩ : ∃ q, q = run (.replicate n (.dot board)) powerOn := ⟨_, rfl⟩
  rw [← hq] at hodd hplace
  rw [run_concat, ← hq]
  -- a frame takes 89342 dots, so these lead to the first dot of frame 1
  have hframe : q.beam.frame = 1 := by omega
  have hset : (q.after (.reset : Event UxRom)).beam.odd = true := hodd.mpr (by rw [hframe])
  have hzero : (q.after (.reset : Event UxRom)).beam.frame = 0 := rfl
  rw [hset, hzero]
  decide

end Ppu

end Nes
