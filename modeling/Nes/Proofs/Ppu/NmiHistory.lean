import Nes.Proofs.Ppu.Run

/-!
# The interrupt as a law on histories

The latch of the interrupt line counts down while the line may fall and rise again, and looks at the
line only at the end. Seen over a run, this is a law that does not mention the countdown: a dot
delivers an interrupt if and only if the line rose fifteen dots before and has been high ever since
(`nmi_delivery`).

The countdown is followed only as long as the line is high. Then the last rise of the line started
it, and it has gone down by one with each dot since (`delay_eq_iff`).
-/

set_option autoImplicit false

namespace Nes

/-! ## The latch -/

namespace NmiLatch

@[simp] theorem line_tick (l : NmiLatch) : l.tick.line = l.line := by
  unfold tick
  split <;> rfl

@[simp] theorem previous_tick (l : NmiLatch) : l.tick.previous = l.previous := by
  unfold tick
  split <;> rfl

@[simp] theorem output_tick (l : NmiLatch) : l.tick.output = l.output := by
  unfold tick
  split <;> rfl

@[simp] theorem delay_tick (l : NmiLatch) : l.tick.delay = l.delay - 1 := by
  unfold tick
  split
  · next h => rw [h]
  · rfl

theorem pending_tick (l : NmiLatch) :
    l.tick.pending = (l.pending || (l.delay == 1 && l.line)) := by
  unfold tick
  split
  · next h => simp [h]
  · rfl

/-- From one look at the line to the next, with a number of dots in between: what was seen last is
the level, a rise starts the countdown, and while the line stays high the countdown goes on. -/
structure Moves (dots : Nat) (l l' : NmiLatch) : Prop where
  previous : l'.previous = l'.line
  rise : l'.line = true → l.line = false → l'.delay = nmiDelay
  stay : l'.line = true → l.line = true → l'.delay = l.delay - dots

theorem moves_tick {l : NmiLatch} (h : l.previous = l.line) : Moves 1 l l.tick where
  previous := by simp [h]
  rise h1 h0 := by simp [h0] at h1
  stay _ _ := delay_tick l

/-- Whatever switches the line looks at it afterwards. -/
theorem Moves.change {dots : Nat} {l m n : NmiLatch} (h : Moves dots l m) (hm : m.line = l.line)
    (hp : n.previous = m.previous) (hd : n.delay = m.delay) : Moves dots l n.change := by
  have hprev : n.previous = l.line := by rw [hp, h.previous, hm]
  refine ⟨rfl, ?_, ?_⟩
  · intro h1 h0
    have hn : n.line = true := h1
    simp [NmiLatch.change, hn, hprev, h0]
  · intro h1 h0
    have hstay := h.stay (hm.trans h0) h0
    simp [NmiLatch.change, hprev, h0, hd, hstay]

theorem moves_refl {l : NmiLatch} (h : l.previous = l.line) : Moves 0 l l where
  previous := h
  rise h1 h0 := by simp [h0] at h1
  stay _ _ := rfl

end NmiLatch

namespace Ppu

variable {μ : Type} [Board μ]

/-! ## The latch through an event -/

theorem nmi_updateVblank (p : Ppu) :
    p.updateVblank.nmi =
      if p.beam.startsVblank then p.nmi.setOccurred true
      else if p.beam.endsVblank then p.nmi.setOccurred false
      else p.nmi := by
  unfold updateVblank
  rw [apply_ite nmi, apply_ite nmi]
  rfl

theorem nmi_step (p : Ppu) (board : μ) :
    (p.step board).nmi =
      if (p.beam.advance p.rendering).startsVblank then p.nmi.tick.setOccurred true
      else if (p.beam.advance p.rendering).endsVblank then p.nmi.tick.setOccurred false
      else p.nmi.tick := by
  obtain ⟨_, _, _, _, _, _, _, h⟩ := p.tick.renderDot_shape board
  rw [step_eq_stages, nmi_updateVblank, h]
  rfl

theorem nmi_readRegister (p : Ppu) (board : μ) (addr : UInt16) :
    (p.readRegister board addr).2.nmi =
      if Register.at? addr = some .status then p.nmi.setOccurred false else p.nmi := by
  unfold readRegister
  split
  · next h => rw [if_pos h]; rfl
  · next h => rw [if_neg (by simp [h])]
  · next h =>
      obtain ⟨_, _, _, hd⟩ := p.readData_shape board
      rw [if_neg (by simp [h]), hd]
  · next h _ _ => rw [if_neg h]

theorem nmi_writeRegister (p : Ppu) (board : μ) (addr : UInt16) (value : UInt8) :
    (p.writeRegister board addr value).1.nmi =
      if Register.at? addr = some .ctrl then p.nmi.setOutput (decide (value &&& 0x80 ≠ 0))
      else p.nmi := by
  unfold writeRegister
  dsimp only
  split
  · next h => rw [if_pos h]; rfl
  all_goals
    next h => exact (if_neg (by simp [h])).symm

theorem ctrl_writeRegister (p : Ppu) (board : μ) (addr : UInt16) (value : UInt8) :
    (p.writeRegister board addr value).1.ctrl =
      if Register.at? addr = some .ctrl then value else p.ctrl := by
  unfold writeRegister
  dsimp only
  split
  · next h => rw [if_pos h]; rfl
  all_goals
    next h => exact (if_neg (by simp [h])).symm

/-- The interrupt line is high: interrupts are switched on in the control register, and the vertical
blank has not been seen. -/
def nmiLine (p : Ppu) : Bool := decide (p.ctrl &&& 0x80 ≠ 0) && p.inVblank

/-- The latch has been told of the control register, and has last seen the line as it is. -/
structure Latched (p : Ppu) : Prop where
  output : p.nmi.output = decide (p.ctrl &&& 0x80 ≠ 0)
  previous : p.nmi.previous = p.nmi.line

theorem Latched.line_eq {p : Ppu} (h : p.Latched) : p.nmi.line = p.nmiLine := by
  rw [NmiLatch.line, h.output]
  rfl

/-- **What an event does to the latch**, once for all events. -/
theorem nmi_after {p : Ppu} (h : p.nmi.previous = p.nmi.line) (e : Event μ) :
    NmiLatch.Moves (if e.isDot then 1 else 0) p.nmi (p.after e).nmi := by
  cases e with
  | dot board =>
      have ht := NmiLatch.moves_tick h
      show NmiLatch.Moves 1 p.nmi (p.step board).nmi
      rw [nmi_step]
      split
      · exact ht.change (NmiLatch.line_tick _) rfl rfl
      · split
        · exact ht.change (NmiLatch.line_tick _) rfl rfl
        · exact ht
  | read board addr =>
      have ht := NmiLatch.moves_refl h
      show NmiLatch.Moves 0 p.nmi (p.readRegister board addr).2.nmi
      rw [nmi_readRegister]
      split
      · exact ht.change rfl rfl rfl
      · exact ht
  | write board addr value =>
      have ht := NmiLatch.moves_refl h
      show NmiLatch.Moves 0 p.nmi (p.writeRegister board addr value).1.nmi
      rw [nmi_writeRegister]
      split
      · exact ht.change rfl rfl rfl
      · exact ht
  | storePage page bytes =>
      obtain ⟨_, _, hs⟩ := p.writeOamPage_shape page bytes
      rw [after, hs]
      exact NmiLatch.moves_refl h
  | takeNmi => exact ⟨h, (NmiLatch.moves_refl h).rise, (NmiLatch.moves_refl h).stay⟩
  | reset => exact (NmiLatch.moves_refl h).change rfl rfl rfl

theorem latched_after {p : Ppu} (h : p.Latched) (e : Event μ) : (p.after e).Latched := by
  refine ⟨?_, (nmi_after h.previous e).previous⟩
  cases e with
  | dot board =>
      have hset : ∀ on, (p.nmi.tick.setOccurred on).output = p.nmi.tick.output := fun _ => rfl
      rw [after, ctrl_step, nmi_step, apply_ite NmiLatch.output, apply_ite NmiLatch.output, hset,
        hset, ite_self, ite_self, NmiLatch.output_tick, h.output]
  | read board addr =>
      obtain ⟨_, _, _, _, _, hs⟩ := p.readRegister_shape board addr
      have hctrl : (p.readRegister board addr).2.ctrl = p.ctrl := by rw [hs]
      rw [after, hctrl, nmi_readRegister, apply_ite NmiLatch.output, ← h.output]
      exact ite_self _
  | write board addr value =>
      rw [after, nmi_writeRegister, ctrl_writeRegister]
      split
      · rfl
      · exact h.output
  | storePage page bytes =>
      obtain ⟨_, _, hs⟩ := p.writeOamPage_shape page bytes
      rw [after, hs]
      exact h.output
  | takeNmi => exact h.output
  | reset =>
      have hctrl : p.reset.ctrl = 0 := rfl
      have hnmi : p.reset.nmi = p.nmi.setOutput (decide ((0 : UInt8) &&& 0x80 ≠ 0)) := rfl
      rw [after, hctrl, hnmi]
      rfl

theorem latched_powerOn : powerOn.Latched := ⟨rfl, rfl⟩

/-! ## Histories -/

/-- The state after the first events of a run from power-on. -/
def stateAt (es : List (Event μ)) (n : Nat) : Ppu := run (es.take n) powerOn

theorem stateAt_succ (es : List (Event μ)) {n : Nat} (hn : n < es.length) :
    stateAt es (n + 1) = (stateAt es n).after es[n] := by
  rw [stateAt, List.take_succ_eq_append_getElem hn, run_concat, stateAt]

@[simp] theorem stateAt_length (es : List (Event μ)) : stateAt es es.length = run es powerOn := by
  rw [stateAt, List.take_length]

/-- The number of the dot that an event of a run is, or that it follows; dots count from 1. -/
def dotNumber (es : List (Event μ)) (i : Nat) : Nat := Event.dots (es.take (i + 1))

omit [Board μ] in
theorem dots_take_succ (es : List (Event μ)) {n : Nat} (hn : n < es.length) :
    Event.dots (es.take (n + 1)) = Event.dots (es.take n) + if es[n].isDot then 1 else 0 := by
  rw [List.take_succ_eq_append_getElem hn, Event.dots_append, Event.dots_cons, Event.dots_nil,
    Nat.add_zero]

/-- The interrupt line rises with an event of a run. -/
def Rises (es : List (Event μ)) (i : Nat) : Prop :=
  (stateAt es i).nmiLine = false ∧ (stateAt es (i + 1)).nmiLine = true

/-- The interrupt line rises with an event of a run, and is high from then on until a number of
events have happened. -/
structure HighSince (es : List (Event μ)) (i n : Nat) : Prop where
  lt : i < n
  rises : Rises es i
  high : ∀ l, i < l → l ≤ n → (stateAt es l).nmiLine = true

theorem latched_stateAt (es : List (Event μ)) (n : Nat) : (stateAt es n).Latched :=
  run_invariant latched_powerOn fun e _ _ hq => latched_after hq e

theorem HighSince.succ_iff {es : List (Event μ)} {i n : Nat} (hi : i < n)
    (h1 : (stateAt es (n + 1)).nmiLine = true) : HighSince es i (n + 1) ↔ HighSince es i n := by
  constructor
  · exact fun h => ⟨hi, h.rises, fun l h0 hl => h.high l h0 (Nat.le_succ_of_le hl)⟩
  · intro h
    refine ⟨Nat.lt_succ_of_lt hi, h.rises, fun l h0 hl => ?_⟩
    rcases Nat.lt_or_ge n l with hnl | hln
    · rw [Nat.le_antisymm hl hnl]
      exact h1
    · exact h.high l h0 hln

/-- While the line is high, the countdown has gone down by one for every dot since the last rise.
Induction on the number of events: the line that has fallen needs no countdown, a rise starts it,
and otherwise it goes on. -/
theorem delay_eq_iff (es : List (Event μ)) {n : Nat} (hn : n ≤ es.length) (k : Nat) :
    ((stateAt es n).nmi.delay = k + 1 ∧ (stateAt es n).nmiLine = true) ↔
      ∃ i, HighSince es i n ∧ Event.dots (es.take n) + k + 1 = dotNumber es i + nmiDelay := by
  induction n generalizing k with
  | zero =>
      constructor
      · rintro ⟨h, -⟩
        cases h
      · rintro ⟨i, h, -⟩
        exact absurd h.lt (Nat.not_lt_zero i)
  | succ n ih =>
      have hlt : n < es.length := hn
      have hmoves := nmi_after (latched_stateAt es n).previous es[n]
      have hline := (latched_stateAt es n).line_eq
      have hline' := (latched_stateAt es (n + 1)).line_eq
      rw [← stateAt_succ es hlt] at hmoves
      have hdots := dots_take_succ es hlt
      generalize (if es[n].isDot then 1 else 0 : Nat) = b at hmoves hdots
      by_cases h1 : (stateAt es (n + 1)).nmiLine = true
      · by_cases h0 : (stateAt es n).nmiLine = true
        · -- the line stays high: the last rise is the one it was
          have hdelay := hmoves.stay (hline'.trans h1) (hline.trans h0)
          constructor
          · rintro ⟨hk, -⟩
            have hnow : (stateAt es n).nmi.delay = k + b + 1 := by omega
            obtain ⟨i, hi, he⟩ := (ih (Nat.le_of_lt hlt) (k + b)).mp ⟨hnow, h0⟩
            exact ⟨i, (HighSince.succ_iff hi.lt h1).mpr hi, by omega⟩
          · rintro ⟨i, hi, he⟩
            have hin : i < n := by
              rcases Nat.lt_succ_iff_lt_or_eq.mp hi.lt with h | rfl
              · exact h
              · rw [hi.rises.1] at h0
                cases h0
            have hage : Event.dots (es.take n) + (k + b) + 1 = dotNumber es i + nmiDelay := by
              omega
            obtain ⟨hk, -⟩ := (ih (Nat.le_of_lt hlt) (k + b)).mpr
              ⟨i, (HighSince.succ_iff hin h1).mp hi, hage⟩
            exact ⟨by omega, h1⟩
        · -- the line rises with this event
          have h0' : (stateAt es n).nmiLine = false := by simpa using h0
          have hdelay := hmoves.rise (hline'.trans h1) (hline.trans h0')
          constructor
          · rintro ⟨hk, -⟩
            refine ⟨n, ⟨Nat.lt_succ_self n, ⟨h0', h1⟩, fun l hl hl' => ?_⟩, ?_⟩
            · rw [Nat.le_antisymm hl' hl]
              exact h1
            · rw [dotNumber]
              omega
          · rintro ⟨i, hi, he⟩
            have hin : i = n := by
              rcases Nat.lt_succ_iff_lt_or_eq.mp hi.lt with h | h
              · exact absurd (hi.high n h (Nat.le_succ n)) h0
              · exact h
            subst hin
            rw [dotNumber] at he
            exact ⟨by omega, h1⟩
      · constructor
        · exact fun h => absurd h.2 h1
        · rintro ⟨i, hi, -⟩
          exact absurd (hi.high (n + 1) hi.lt (Nat.le_refl _)) h1

/-! ## Deliveries -/

/-- A dot delivers an interrupt: it does so even if an earlier one has just been taken. -/
def delivers (p : Ppu) (board : μ) : Bool := (p.takeNmi.step board).nmiPending

/-- What is pending after a dot was pending before, or has been delivered by it. -/
theorem pending_step (p : Ppu) (board : μ) :
    (p.step board).nmiPending = (p.nmiPending || (p.nmi.delay == 1 && p.nmi.line)) := by
  -- the vertical blank changes the line after the countdown has looked at it
  rw [nmiPending, nmi_step]
  have hset : ∀ on, (p.nmi.tick.setOccurred on).pending = p.nmi.tick.pending := fun _ => rfl
  rw [apply_ite NmiLatch.pending, apply_ite NmiLatch.pending, hset, hset, ite_self, ite_self,
    NmiLatch.pending_tick]
  rfl

theorem delivers_eq (p : Ppu) (board : μ) :
    p.delivers board = (p.nmi.delay == 1 && p.nmi.line) := by
  rw [delivers, pending_step]
  rfl

/-- Nothing but a dot delivers an interrupt. -/
theorem pending_of_pending_after {p : Ppu} {e : Event μ} (he : e.isDot = false)
    (h : (p.after e).nmiPending = true) : p.nmiPending = true := by
  cases e with
  | dot board => cases he
  | read board addr =>
      rw [after, nmiPending, nmi_readRegister] at h
      split at h <;> exact h
  | write board addr value =>
      rw [after, nmiPending, nmi_writeRegister] at h
      split at h <;> exact h
  | storePage page bytes =>
      obtain ⟨_, _, hs⟩ := p.writeOamPage_shape page bytes
      rw [after, hs] at h
      exact h
  | takeNmi => cases h
  | reset => exact h

/-- No two rises can both lead to the delivery of a dot. -/
theorem HighSince.unique {es : List (Event μ)} {i i' n : Nat} (h : HighSince es i n)
    (h' : HighSince es i' n) : i = i' := by
  -- the later of two rises finds the line high already
  rcases Nat.lt_trichotomy i i' with hlt | heq | hgt
  · have := h.high i' hlt (Nat.le_of_lt h'.lt)
    rw [h'.rises.1] at this
    cases this
  · exact heq
  · have := h'.high i hgt (Nat.le_of_lt h.lt)
    rw [h.rises.1] at this
    cases this

/-- **The interrupt as a law on histories.** After any run from power-on, the latch has last seen
the line as it is. The next dot delivers an interrupt if and only if the line rose fifteen dots
before it and has been high since, and that rise is the only one. Interrupts become pending by
deliveries only. -/
theorem nmi_delivery (es : List (Event μ)) :
    (run es powerOn).nmi.previous = (run es powerOn).nmiLine ∧
    (∀ board : μ, (run es powerOn).delivers board = true ↔
      ∃ i, HighSince es i es.length ∧ dotNumber es i + 15 = Event.dots es + 1) ∧
    (∀ i i', HighSince es i es.length → HighSince es i' es.length → i = i') ∧
    (∀ board : μ, ((run es powerOn).step board).nmiPending =
      ((run es powerOn).nmiPending || (run es powerOn).delivers board)) ∧
    ∀ e : Event μ, e.isDot = false → ((run es powerOn).after e).nmiPending = true →
      (run es powerOn).nmiPending = true := by
  have hl : (run es powerOn).Latched := by
    rw [← stateAt_length]
    exact latched_stateAt es es.length
  refine ⟨hl.previous.trans hl.line_eq, fun board => ?_, fun i i' h h' => h.unique h',
    fun board => ?_, fun e he h => pending_of_pending_after he h⟩
  · have h := delay_eq_iff es (Nat.le_refl es.length) 0
    rw [stateAt_length, List.take_length, nmiDelay] at h
    simp only [delivers_eq, Bool.and_eq_true, beq_iff_eq, hl.line_eq]
    rw [h]
    constructor
    · rintro ⟨i, hi, he⟩
      exact ⟨i, hi, by omega⟩
    · rintro ⟨i, hi, he⟩
      exact ⟨i, hi, by omega⟩
  · rw [pending_step, delivers_eq]

end Ppu

end Nes
