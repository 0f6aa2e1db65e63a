import Nes.Proofs.Checked.Machine
import Nes.Proofs.Machine.Budget
import Nes.Proofs.Ppu.FrameEnd

/-!
# Runs to the next frame

A run to the next frame is a loop: a step at a time while the frame number stays. Every step takes a
cycle at least, and so three dots, so whatever the program does, the beam comes to the end of the
frame (`Machine.exists_steps_frame_ne`). The run ends with the first step in which the frame number
goes up, and in a step it goes up once at most. So the number of its cycles is known up to those of
the last step (`Machine.frameLaw`).
-/

set_option autoImplicit false

namespace Nes

namespace Machine

variable {μ : Type} [Board μ] {m : Machine μ}

/-! ## The beam through steps -/

theorem ppu_afterSteps (m : Machine μ) (n : Nat) :
    (m.afterSteps n).ppu = Ppu.run (events n m) m.ppu := ppu_steps n 0 m

/-- Three dots for each cycle. -/
theorem dots_events_eq (m : Machine μ) (n : Nat) :
    Ppu.Event.dots (events n m) = 3 * m.cyclesOf n := dots_events n 0 m

/-- The last step adds its events. -/
theorem events_succ_last (m : Machine μ) (n : Nat) :
    events (n + 1) m = events n m ++ (m.afterSteps n).stepEvents := by
  induction n generalizing m with
  | zero => exact List.append_nil _
  | succ n ih =>
      rw [events, ih m.step.2, events, List.append_assoc, afterSteps_succ]

theorem wellTimed_afterSteps (h : m.ppu.beam.WellTimed) (n : Nat) :
    (m.afterSteps n).ppu.beam.WellTimed := by
  rw [ppu_afterSteps]
  exact Ppu.wellTimed_run (reset_notMem_events n m) h

theorem frame_le_afterSteps (m : Machine μ) (n : Nat) :
    m.ppu.beam.frame ≤ (m.afterSteps n).ppu.beam.frame := by
  rw [ppu_afterSteps]
  exact Ppu.frame_le_run (reset_notMem_events n m) m.ppu

theorem position_le_afterSteps (h : m.ppu.beam.WellTimed) (n : Nat) :
    m.ppu.beam.position + 3 * m.cyclesOf n ≤ (m.afterSteps n).ppu.beam.position := by
  have hposition := Ppu.position_run (reset_notMem_events n m) h
  rw [← ppu_afterSteps, dots_events_eq] at hposition
  omega

theorem le_cyclesOf (m : Machine μ) (n : Nat) : n ≤ m.cyclesOf n := by
  induction n generalizing m with
  | zero => exact Nat.zero_le _
  | succ n ih =>
      have hone := m.one_le_fst_step
      have hrest := ih m.step.2
      rw [cyclesOf_succ]
      omega

/-- As many steps as a frame has dots lead out of it. -/
theorem exists_steps_frame_ne (h : m.ppu.beam.WellTimed) :
    (m.afterSteps Beam.dotsPerFrame).ppu.beam.frame ≠ m.ppu.beam.frame := by
  intro heq
  have hposition := position_le_afterSteps h Beam.dotsPerFrame
  have hcycles := m.le_cyclesOf Beam.dotsPerFrame
  have hend := (wellTimed_afterSteps h Beam.dotsPerFrame).position_lt
  have hstart : Beam.dotsPerFrame * m.ppu.beam.frame ≤ m.ppu.beam.position := by
    unfold Beam.position
    omega
  -- within one frame the position cannot have come that far
  rw [heq, Nat.mul_add] at hend
  omega

/-- A step goes through fewer dots than a frame has, so it completes one frame at most. -/
theorem frame_step_le (h : m.ppu.beam.WellTimed) :
    m.step.2.ppu.beam.frame ≤ m.ppu.beam.frame + 1 := by
  have hreset := reset_notMem_events 1 m
  have hposition := Ppu.position_run hreset h
  have hskipped := Ppu.skippedDots_le_dots (events 1 m) m.ppu
  have hcost := m.fst_step_le_fifteen
  have hend := h.position_lt
  have hone : m.afterSteps 1 = m.step.2 := afterSteps_succ 0 m
  have hcycles : m.cyclesOf 1 = m.step.1 := m.cyclesOf_succ 0
  rw [← ppu_afterSteps, hone] at hposition
  rw [dots_events_eq, hcycles] at hposition hskipped
  have hframe : Beam.dotsPerFrame * m.step.2.ppu.beam.frame ≤ m.step.2.ppu.beam.position := by
    unfold Beam.position
    omega
  have hdots : Beam.dotsPerFrame = 89342 := rfl
  -- a step moves the position by 90 at most, and the frame after the next begins further away
  rw [hdots] at hframe hend
  omega

/-! ## The loop over a frame -/

/-- **The least number of steps.** The loop ends as soon as the frame number is another one, if it
does so within the steps that it is allowed. -/
theorem isLeast_frameSteps {frame n : Nat} (h : ∃ k ≤ n, (m.afterSteps k).ppu.beam.frame ≠ frame) :
    IsLeast {k | (m.afterSteps k).ppu.beam.frame ≠ frame} (frameSteps frame n m) := by
  induction n generalizing m with
  | zero =>
      obtain ⟨k, hk, hne⟩ := h
      rw [Nat.le_zero.mp hk] at hne
      exact ⟨hne, fun k _ => Nat.zero_le k⟩
  | succ n ih =>
      rw [frameSteps]
      split
      · next hsame =>
          obtain ⟨k, hk, hne⟩ := h
          cases k with
          | zero => exact absurd hsame hne
          | succ k =>
              rw [afterSteps_succ] at hne
              obtain ⟨hlast, hleast⟩ := ih ⟨k, Nat.le_of_succ_le_succ hk, hne⟩
              constructor
              · show (m.afterSteps _).ppu.beam.frame ≠ frame
                rw [afterSteps_succ]
                exact hlast
              · intro j hj
                have hframe : (m.afterSteps j).ppu.beam.frame ≠ frame := hj
                cases j with
                | zero => exact absurd hsame hframe
                | succ j =>
                    rw [afterSteps_succ] at hframe
                    exact Nat.succ_le_succ (hleast hframe)
      · next hother => exact ⟨hother, fun k _ => Nat.zero_le k⟩

theorem isLeast_stepsOfFrame (h : m.ppu.beam.WellTimed) :
    IsLeast {n | (m.afterSteps n).ppu.beam.frame ≠ m.ppu.beam.frame} m.stepsOfFrame :=
  isLeast_frameSteps ⟨Beam.dotsPerFrame, Nat.le_refl _, exists_steps_frame_ne h⟩

/-- The machine at the start of the last step of a run to the next frame. -/
def beforeLast (m : Machine μ) : Machine μ := m.afterSteps (m.stepsOfFrame - 1)

theorem stepsOfFrame_pos (h : m.ppu.beam.WellTimed) : 0 < m.stepsOfFrame := by
  refine Nat.pos_of_ne_zero fun hzero => ?_
  have hne : (m.afterSteps m.stepsOfFrame).ppu.beam.frame ≠ m.ppu.beam.frame :=
    (isLeast_stepsOfFrame h).1
  rw [hzero] at hne
  exact hne rfl

/-- Up to the last step the frame number stays. -/
theorem frame_beforeLast (h : m.ppu.beam.WellTimed) :
    m.beforeLast.ppu.beam.frame = m.ppu.beam.frame := by
  have hpos := stepsOfFrame_pos h
  refine Classical.byContradiction fun hne => ?_
  have hle := (isLeast_stepsOfFrame h).2 hne
  omega

/-- What a run to the next frame does. -/
structure FrameLaw (m : Machine μ) : Prop where
  steps : m.stepFrame = steps m.stepsOfFrame (0, m)
  /-- The steps are as few as another frame number needs. -/
  least : IsLeast {n | (m.afterSteps n).ppu.beam.frame ≠ m.ppu.beam.frame} m.stepsOfFrame
  frame : m.stepFrame.2.ppu.beam.frame = m.ppu.beam.frame + 1
  /-- The number goes up at a dot of the last step, and no frame has more dots than this one can
  have. -/
  dots : ∃ d, Ppu.AdvancesAt (events m.stepsOfFrame m) m.ppu d ∧
    3 * (m.stepFrame.1 - m.beforeLast.step.1) < d ∧ d ≤ 3 * m.stepFrame.1 ∧
    1 ≤ d ∧ d ≤ 89342
  last : m.beforeLast.step.1 ≤ m.stepFrame.1
  cycles : m.stepFrame.1 ≤ 29795

/-- **Every frame ends**, for every program and in every state of the machine with the beam on the
screen. -/
theorem frameLaw (h : m.ppu.beam.WellTimed) : m.FrameLaw := by
  have hpos := stepsOfFrame_pos h
  have hleast := isLeast_stepsOfFrame h
  have hrun : m.stepFrame = steps m.stepsOfFrame (0, m) := m.stepFrame_eq_steps
  have hsteps : m.stepsOfFrame = m.stepsOfFrame - 1 + 1 := by omega
  have hcount : m.stepFrame.1 = m.cyclesOf (m.stepsOfFrame - 1) + m.beforeLast.step.1 := by
    rw [hrun, hsteps]
    exact m.cyclesOf_succ_last _
  have hend : m.stepFrame.2 = m.afterSteps m.stepsOfFrame := by
    rw [hrun]
    rfl
  have hcost := m.beforeLast.fst_step_le_fifteen
  have hreset := reset_notMem_events m.stepsOfFrame m
  -- the dot at which the number goes up lies behind the events of the steps before the last one
  obtain ⟨d, hd⟩ := Ppu.exists_advancesAt hreset (p := m.ppu)
    (by rw [← ppu_afterSteps]; exact hleast.1)
  have hsplit : events m.stepsOfFrame m =
      events (m.stepsOfFrame - 1) m ++ m.beforeLast.stepEvents := by
    rw [hsteps]
    exact m.events_succ_last _
  have hbefore : 3 * m.cyclesOf (m.stepsOfFrame - 1) < d := by
    rw [← dots_events_eq]
    refine hd.dots_lt hreset ⟨_, hsplit.symm⟩ ?_
    rw [← ppu_afterSteps]
    exact frame_beforeLast h
  have hupto : d ≤ 3 * m.stepFrame.1 := by
    have hdots := hd.le_dots
    rw [dots_events_eq] at hdots
    rw [hrun]
    exact hdots
  have hframe : d ≤ 89342 := hd.le_dotsPerFrame hreset h
  constructor
  case steps => exact hrun
  case least => exact hleast
  case frame =>
    have hne : (m.afterSteps m.stepsOfFrame).ppu.beam.frame ≠ m.ppu.beam.frame := hleast.1
    have hge := m.frame_le_afterSteps m.stepsOfFrame
    have hlast : m.afterSteps m.stepsOfFrame = m.beforeLast.step.2 := by
      rw [hsteps]
      exact m.afterSteps_succ_add _ 0
    have hle := frame_step_le (wellTimed_afterSteps h (m.stepsOfFrame - 1))
    rw [← beforeLast, ← hlast, frame_beforeLast h] at hle
    rw [hend]
    omega
  case dots => exact ⟨d, hd, by omega, hupto, hd.one_le, hframe⟩
  case last => omega
  case cycles => omega

theorem wellTimed_stepFrame (h : m.ppu.beam.WellTimed) : m.stepFrame.2.ppu.beam.WellTimed := by
  rw [stepFrame_eq_steps]
  exact wellTimed_afterSteps h m.stepsOfFrame

/-- Each run to the next frame takes the frame number up by one. -/
theorem frame_stepFrames (h : m.ppu.beam.WellTimed) (n : Nat) :
    (stepFrames n m).ppu.beam.frame = m.ppu.beam.frame + n := by
  induction n generalizing m with
  | zero => rfl
  | succ n ih =>
      rw [stepFrames, ih (wellTimed_stepFrame h), (frameLaw h).frame]
      omega

end Machine

/-! ## Consoles -/

namespace Console

variable {c : Cartridge} {m : Console}

/-- On every console that a host finds the beam is on the screen. -/
theorem Reached.wellTimed (h : Reached c m) : m.ppu.beam.WellTimed := by
  induction h with
  | start h =>
      rw [ppu_ofCartridge h]
      exact Ppu.wellTimed_powerOn
  | @perform m _ op ih =>
      rw [m.ppu_perform op]
      exact Ppu.wellTimed_run (m.reset_notMem_opEvents op) ih
  | @stepBudget m _ budget ih =>
      rw [m.stepBudget_eq_afterSteps budget]
      exact Machine.wellTimed_afterSteps ih _

theorem Reached.stepFrames (h : Reached c m) (n : Nat) : Reached c (Machine.stepFrames n m) := by
  induction n generalizing m with
  | zero => exact h
  | succ n ih => exact ih (h.perform .stepFrame)

/-- **Frames end.** In every state that a host finds, a run to the next frame takes the least number
of steps with which the frame number is another one, and then it is one higher. The dot that takes
it up belongs to the last step, and is the 89342nd at most, so the run takes 29795 cycles at most.
After any number of such runs from its bring-up a console is in the frame of that number. With
enough picture memory none of them fails. -/
theorem stepFrame_law (h : Reached c m) :
    m.FrameLaw ∧ (0x2000 ≤ c.chr.size → m.stepFrame.2.ppu.fault = false) ∧
    ∀ journal first n, ofCartridge c journal = .ok first →
      (Machine.stepFrames n first).ppu.beam.frame = n ∧
        (0x2000 ≤ c.chr.size → (Machine.stepFrames n first).ppu.fault = false) := by
  refine ⟨Machine.frameLaw h.wellTimed, fun hchr => ?_, fun journal first n hfirst => ?_⟩
  · have hnext : Reached c m.stepFrame.2 := h.perform .stepFrame
    exact (hnext.complete hchr).fault
  · have hstart : Reached c first := .start hfirst
    have hframe : first.ppu.beam.frame = 0 := by
      rw [ppu_ofCartridge hfirst]
      rfl
    constructor
    · rw [Machine.frame_stepFrames hstart.wellTimed, hframe, Nat.zero_add]
    · exact fun hchr => ((hstart.stepFrames n).complete hchr).fault

/-- A program that starts with a transfer, and with rendering switched on before. -/
theorem stepFrame_law_accessProgram :
    ∃ m, ofCartridge (.ofBank (accessProgram 0x8D 0x14 0x40) #[]) {} = .ok m ∧
      (m.perform (.write 0x2001 0x18)).FrameLaw ∧
      (m.perform (.write 0x2001 0x18)).stepFrame.2.ppu.fault = false ∧
      (Machine.stepFrames 3 m).ppu.beam.frame = 3 := by
  obtain ⟨m, hm, -⟩ := ofCartridge_accessProgram 0x8D 0x14 0x40 (by decide) (by decide) #[]
  have hchr := Cartridge.le_size_chr_ofBank (accessProgram 0x8D 0x14 0x40)
  obtain ⟨hlaw, hfault, hframes⟩ := stepFrame_law (.perform (.start hm) (.write 0x2001 0x18))
  exact ⟨m, hm, hlaw, hfault hchr, (hframes {} m 3 hm).1⟩

/-- **A frame that fails.** With one byte of picture memory a console comes up, and its next frame
asks for a byte that is not there. -/
theorem fault_stepFrame_accessProgram :
    ∃ m, ofCartridge (.ofBank (accessProgram 0xAD 0x07 0x20) #[0]) {} = .ok m ∧
      (m.perform (.read 0x2007)).ppu.fault = false ∧
      (m.perform (.read 0x2007)).stepFrame.2.ppu.fault = true := by
  obtain ⟨m, hm, hfine, hmissing⟩ := exists_missing_byte
  have hreached := (Reached.start hm).perform (.read 0x2007)
  refine ⟨m, hm, hfine, ?_⟩
  rw [Machine.stepFrame_eq_steps]
  exact Machine.fault_afterSteps hmissing (Machine.stepsOfFrame_pos hreached.wellTimed)

end Console

end Nes
