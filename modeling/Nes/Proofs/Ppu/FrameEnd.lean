import Nes.Proofs.Ppu.Position

/-!
# Where a frame ends

The frame number never goes down, and only a dot takes it up, by one. So if it is another one after
a list of events, there is a first dot that has taken it up (`Ppu.exists_advancesAt`), and no more
dots lead to it than a frame has (`Ppu.AdvancesAt.le_dotsPerFrame`).
-/

set_option autoImplicit false

namespace Nes

theorem Beam.frame_le_advance (b : Beam) (rendering : Bool) :
    b.frame ≤ (b.advance rendering).frame := by
  rcases b.advance_cases rendering with ⟨-, he⟩ | ⟨-, -, he⟩ | ⟨-, -, he⟩ | ⟨-, -, he⟩
  all_goals
    have hframe := congrArg Beam.frame he
    dsimp only [Beam.nextFrame] at hframe
    omega

namespace Ppu

variable {μ : Type} [Board μ]

/-- Only dots change the frame number, by one. -/
theorem frame_after_cases (p : Ppu) {e : Event μ} (he : e ≠ .reset) :
    (p.after e).beam.frame = p.beam.frame ∨
      (∃ board, e = .dot board) ∧ (p.after e).beam.frame = p.beam.frame + 1 := by
  rw [beam_after]
  cases e with
  | dot board =>
      have hlow := p.beam.frame_le_advance p.rendering
      have hhigh := p.beam.frame_advance_le p.rendering
      rcases Nat.lt_or_ge p.beam.frame (p.beam.advance p.rendering).frame with hup | hstays
      · exact .inr ⟨⟨board, rfl⟩, Nat.le_antisymm hhigh hup⟩
      · exact .inl (Nat.le_antisymm hstays hlow)
  | reset => exact absurd rfl he
  | read | write | storePage | takeNmi => exact .inl rfl

/-- Without resets the frame number never goes down. -/
theorem frame_le_run {es : List (Event μ)} (hes : Event.reset ∉ es) (p : Ppu) :
    p.beam.frame ≤ (run es p).beam.frame := by
  refine run_invariant (P := fun q => p.beam.frame ≤ q.beam.frame) (Nat.le_refl _) ?_
  intro e he q hq
  rcases q.frame_after_cases (ne_of_mem_of_not_mem he hes) with hstays | ⟨-, hup⟩
  · rw [hstays]
    exact hq
  · rw [hup]
    exact Nat.le_succ_of_le hq

theorem skippedDots_le_dots (es : List (Event μ)) (p : Ppu) :
    skippedDots es p ≤ Event.dots es := by
  induction es generalizing p with
  | nil => exact Nat.le_refl _
  | cons e es ih =>
      have hrest := ih (p.after e)
      rw [skippedDots, Event.dots_cons]
      cases e.isDot with
      | false => simpa using hrest
      | true =>
          have hone : (if p.skipsDot = true then 1 else 0) ≤ 1 := by split <;> decide
          simp only [Bool.true_and, if_true]
          omega

/-- The frame number goes up for the first time at the dot of the given number. -/
def AdvancesAt (es : List (Event μ)) (p : Ppu) (d : Nat) : Prop :=
  ∃ before board after, es = before ++ .dot board :: after ∧ Event.dots before + 1 = d ∧
    (∀ done, done <+: before → (run done p).beam.frame = p.beam.frame) ∧
    (run (before ++ [.dot board]) p).beam.frame = p.beam.frame + 1

theorem exists_advancesAt {es : List (Event μ)} (hes : Event.reset ∉ es) {p : Ppu}
    (h : (run es p).beam.frame ≠ p.beam.frame) : ∃ d, AdvancesAt es p d := by
  induction es generalizing p with
  | nil => exact absurd rfl h
  | cons e es ih =>
      have he : e ≠ .reset := fun h' => hes (h' ▸ List.mem_cons_self)
      have htail : Event.reset ∉ es := fun h' => hes (List.mem_cons_of_mem e h')
      rcases p.frame_after_cases he with hstays | ⟨⟨board, rfl⟩, hup⟩
      · -- the dot that is looked for lies behind this event
        obtain ⟨_, before, board, after, hsplit, -, hbefore, hat⟩ :=
          ih htail (p := p.after e) (by rw [hstays]; exact h)
        refine ⟨_, e :: before, board, after, by rw [hsplit, List.cons_append], rfl, ?_, ?_⟩
        · intro done hdone
          rcases List.prefix_cons_iff.mp hdone with rfl | ⟨rest, rfl, hrest⟩
          · rfl
          · rw [run_cons, hbefore rest hrest, hstays]
        · rw [List.cons_append, run_cons, hat, hstays]
      · refine ⟨_, [], board, es, rfl, rfl, ?_, hup⟩
        intro done hdone
        rw [List.prefix_nil.mp hdone]
        rfl

namespace AdvancesAt

variable {es : List (Event μ)} {p : Ppu} {d : Nat}

theorem one_le (h : AdvancesAt es p d) : 1 ≤ d := by
  obtain ⟨before, _, _, -, rfl, -⟩ := h
  exact Nat.le_add_left 1 _

theorem le_dots (h : AdvancesAt es p d) : d ≤ Event.dots es := by
  obtain ⟨before, board, after, rfl, rfl, -⟩ := h
  rw [Event.dots_append, Event.dots_cons, Event.isDot, if_pos rfl]
  omega

/-- A frame has no more dots than its position goes through. -/
theorem le_dotsPerFrame (h : AdvancesAt es p d) (hes : Event.reset ∉ es) (hp : p.beam.WellTimed) :
    d ≤ Beam.dotsPerFrame := by
  obtain ⟨before, board, after, rfl, rfl, hbefore, -⟩ := h
  have hreset : Event.reset ∉ before := fun hmem => hes (List.mem_append_left _ hmem)
  have hposition := position_run hreset hp
  have hlast := (wellTimed_run hreset hp).position_lt
  have hfirst : Beam.dotsPerFrame * p.beam.frame ≤ p.beam.position := by
    unfold Beam.position
    omega
  rw [hbefore before (List.prefix_refl before), Nat.mul_add] at hlast
  omega

/-- Events that leave the frame number as it is come before that dot. -/
theorem dots_lt (h : AdvancesAt es p d) (hes : Event.reset ∉ es) {done : List (Event μ)}
    (hdone : done <+: es) (hframe : (run done p).beam.frame = p.beam.frame) :
    Event.dots done < d := by
  obtain ⟨before, board, after, hsplit, rfl, -, hat⟩ := h
  have hat' : before ++ [.dot board] <+: es := by
    rw [hsplit]
    exact ⟨after, by simp⟩
  rcases List.prefix_or_prefix_of_prefix hat' hdone with ⟨rest, hrest⟩ | hshort
  · -- the dot cannot be among them, since the frame number does not come back
    have hreset : Event.reset ∉ rest := fun hmem => by
      refine hes (hdone.subset ?_)
      rw [← hrest]
      exact List.mem_append_right _ hmem
    have hmono := frame_le_run hreset (run (before ++ [.dot board]) p)
    rw [← run_append, hrest, hframe, hat] at hmono
    exact absurd hmono (Nat.not_succ_le_self _)
  · rcases List.prefix_concat_iff.mp hshort with rfl | hbefore
    · rw [hframe] at hat
      exact absurd hat (Nat.ne_of_lt (Nat.lt_succ_self _))
    · obtain ⟨rest, rfl⟩ := hbefore
      rw [Event.dots_append]
      omega

end AdvancesAt

end Ppu

end Nes
