import Nes.Proofs.Ppu.NmiHistory
import Nes.Proofs.Ppu.Position
import Nes.Proofs.Ppu.SpriteLayer

/-!
# Where the pixels of the front frame come from

The frames are swapped at the start of every vertical blank. In between, a dot of the picture writes
the pixel at its place if something is rendered, and no other pixel; nothing else writes to either
frame. So a pixel that comes to the front was drawn at the one dot of the frame that stands at its
place, or, if nothing was rendered then, it is the one that was shown there two frames ago
(`get_front_of_swap`).

Dots are found by the position of the beam: it goes up by one with each dot and leaves out only the
last one of a frame, so every other position is reached, and by one dot only.
-/

set_option autoImplicit false

namespace Nes

namespace Beam

/-- The beam is on the screen. A reset keeps this, but not the agreement of the flag for odd frames
with their number. -/
structure OnScreen (b : Beam) : Prop where
  dot_le : b.dot ≤ 340
  scanline_le : b.scanline ≤ 261

theorem OnScreen.advance {b : Beam} (h : b.OnScreen) (rendering : Bool) :
    (b.advance rendering).OnScreen := by
  rcases b.advance_cases rendering with ⟨-, he⟩ | ⟨-, hd, he⟩ | ⟨-, hl, he⟩ | ⟨-, -, he⟩ <;> rw [he]
  · exact ⟨Nat.zero_le _, Nat.zero_le _⟩
  · exact ⟨hd, h.scanline_le⟩
  · exact ⟨Nat.zero_le _, hl⟩
  · exact ⟨Nat.zero_le _, Nat.zero_le _⟩

/-- One dot further, or two at the end of a frame. -/
theorem OnScreen.position_advance {b : Beam} (h : b.OnScreen) (rendering : Bool) :
    (b.advance rendering).position = b.position + 1 ∨
      b.position % 89342 = 89340 ∧ (b.advance rendering).position = b.position + 2 := by
  obtain ⟨hdot, hline⟩ := h
  rcases b.advance_cases rendering with ⟨hs, he⟩ | ⟨-, -, he⟩ | ⟨hd, -, he⟩ | ⟨hd, hl, he⟩ <;>
    rw [he] <;>
    simp only [position, Beam.nextFrame, dotsPerFrame, dotsPerScanline, scanlinesPerFrame] <;>
    omega

end Beam

namespace Ppu

variable {μ : Type} [Board μ]

/-! ## Dots and places -/

/-- A dot of a run moves the beam to a place of a frame. -/
structure MovesTo (es : List (Event μ)) (frame scanline dot j : Nat) : Prop where
  isDot : ∃ board, es[j]? = some (.dot board)
  frame_eq : (stateAt es (j + 1)).beam.frame = frame
  scanline_eq : (stateAt es (j + 1)).beam.scanline = scanline
  dot_eq : (stateAt es (j + 1)).beam.dot = dot

theorem MovesTo.lt_length {es : List (Event μ)} {frame scanline dot j : Nat}
    (h : MovesTo es frame scanline dot j) : j < es.length := by
  obtain ⟨_, hat⟩ := h.isDot
  exact (List.getElem?_eq_some_iff.mp hat).1

/-- The beam is moved to dot 1 of line 241, where the frames are swapped. -/
def Swaps (es : List (Event μ)) (frame j : Nat) : Prop := MovesTo es frame 241 1 j

/-- The beam is moved to a pixel. -/
def Visits (es : List (Event μ)) (frame : Nat) (x : Fin frameWidth) (y : Fin frameHeight)
    (j : Nat) : Prop := MovesTo es frame y (x + 1) j

theorem onScreen_stateAt (es : List (Event μ)) (n : Nat) : (stateAt es n).beam.OnScreen :=
  run_invariant (P := fun p => p.beam.OnScreen) ⟨by decide, by decide⟩ fun e _ p hp => by
    rw [beam_after]
    cases e with
    | dot board => exact hp.advance p.rendering
    | reset => exact ⟨Nat.le_refl 340, (by decide : 240 ≤ 261)⟩
    | read | write | storePage | takeNmi => exact hp

/-- Position of the beam before an event of a run. -/
def positionAt (es : List (Event μ)) (n : Nat) : Nat := (stateAt es n).beam.position

theorem positionAt_zero (es : List (Event μ)) : positionAt es 0 = 82180 := by
  rw [positionAt, stateAt, List.take_zero, run_nil]
  decide

/-- The position of a place. -/
def placePosition (frame scanline dot : Nat) : Nat := 89342 * frame + 341 * scanline + dot

theorem positionAt_eq (es : List (Event μ)) (n : Nat) :
    positionAt es n = placePosition (stateAt es n).beam.frame (stateAt es n).beam.scanline
      (stateAt es n).beam.dot :=
  rfl

/-- From one index of a run to another nothing is reset. -/
def NoReset (es : List (Event μ)) (a b : Nat) : Prop :=
  ∀ n, a ≤ n → n < b → es[n]? ≠ some .reset

omit [Board μ] in
theorem noReset_of_notMem {es : List (Event μ)} (hes : Event.reset ∉ es) (a b : Nat) :
    NoReset es a b :=
  fun _ _ _ hn => hes (List.mem_of_getElem? hn)

omit [Board μ] in
theorem NoReset.mono {es : List (Event μ)} {a b a' b' : Nat} (h : NoReset es a b) (ha : a ≤ a')
    (hb : b' ≤ b) : NoReset es a' b' :=
  fun n hn hn' => h n (Nat.le_trans ha hn) (Nat.lt_of_lt_of_le hn' hb)

/-- The position through an event: it stays unless the event is a dot, and goes up by one with a dot
that leaves none out. -/
theorem positionAt_succ_cases {es : List (Event μ)} {n : Nat} (hn : n < es.length)
    (he : es[n]? ≠ some .reset) :
    ((∀ board, es[n]? ≠ some (.dot board)) ∧ positionAt es (n + 1) = positionAt es n) ∨
      (∃ board, es[n]? = some (.dot board)) ∧
        (positionAt es (n + 1) = positionAt es n + 1 ∨
          positionAt es n % 89342 = 89340 ∧ positionAt es (n + 1) = positionAt es n + 2) := by
  have hat : es[n]? = some es[n] := List.getElem?_eq_getElem hn
  have hbeam := beam_after (stateAt es n) es[n]
  rw [← stateAt_succ es hn] at hbeam
  cases hd : es[n] with
  | dot board =>
      rw [hd] at hbeam
      have hadvance := (onScreen_stateAt es n).position_advance (stateAt es n).rendering
      rw [positionAt, positionAt, hbeam]
      exact .inr ⟨⟨board, hd ▸ hat⟩, hadvance⟩
  | reset => exact absurd (hd ▸ hat) he
  | read | write | storePage | takeNmi =>
      rw [hd] at hbeam hat
      refine .inl ⟨fun board hdot => ?_, congrArg Beam.position hbeam⟩
      rw [hat] at hdot
      cases hdot

theorem positionAt_mono {es : List (Event μ)} {a b : Nat} (hes : NoReset es a b) (hab : a ≤ b)
    (hb : b ≤ es.length) : positionAt es a ≤ positionAt es b := by
  induction hab with
  | refl => exact Nat.le_refl _
  | @step b hab ih =>
      have hle := ih (hes.mono (Nat.le_refl a) (Nat.le_succ b)) (Nat.le_of_succ_le hb)
      have hstep : positionAt es b ≤ positionAt es (b + 1) := by
        rcases positionAt_succ_cases hb (hes b hab (Nat.lt_succ_self b)) with
          ⟨-, h⟩ | ⟨-, h | ⟨-, h⟩⟩ <;> omega
      exact Nat.le_trans hle hstep

/-- A dot goes beyond every position before it. -/
theorem positionAt_lt_of_dot {es : List (Event μ)} {a n : Nat} (hes : NoReset es a n) (ha : a ≤ n)
    {board : μ} (hn : es[n]? = some (.dot board)) : positionAt es a < positionAt es (n + 1) := by
  have hlt : n < es.length := (List.getElem?_eq_some_iff.mp hn).1
  have hle := positionAt_mono hes ha (Nat.le_of_lt hlt)
  have hreset : es[n]? ≠ some .reset := by
    rw [hn]
    nofun
  rcases positionAt_succ_cases hlt hreset with ⟨h, -⟩ | ⟨-, h | ⟨-, h⟩⟩
  · exact absurd hn (h board)
  · omega
  · omega

/-- A dot leads to a place if it leads to its position. -/
theorem movesTo_iff {es : List (Event μ)} {frame scanline dot j : Nat} (hline : scanline ≤ 261)
    (hdot : dot ≤ 340) :
    MovesTo es frame scanline dot j ↔
      (∃ board, es[j]? = some (.dot board)) ∧
        positionAt es (j + 1) = placePosition frame scanline dot := by
  obtain ⟨hdot', hline'⟩ := onScreen_stateAt es (j + 1)
  rw [positionAt_eq]
  unfold placePosition
  constructor
  · intro h
    refine ⟨h.isDot, ?_⟩
    rw [h.frame_eq, h.scanline_eq, h.dot_eq]
  · rintro ⟨hat, heq⟩
    exact ⟨hat, by omega, by omega, by omega⟩

/-- No two dots of a run lead to the same place, unless something is reset between them. -/
theorem MovesTo.unique {es : List (Event μ)} {a b frame scanline dot j k : Nat}
    (hes : NoReset es a b) (h : MovesTo es frame scanline dot j) (hj : a ≤ j ∧ j < b)
    (h' : MovesTo es frame scanline dot k) (hk : a ≤ k ∧ k < b) : j = k := by
  have hplace : ∀ {l}, MovesTo es frame scanline dot l →
      positionAt es (l + 1) = placePosition frame scanline dot := by
    intro l hl
    rw [positionAt_eq, hl.frame_eq, hl.scanline_eq, hl.dot_eq]
  have hbefore : ∀ {l m}, MovesTo es frame scanline dot l → a ≤ l →
      MovesTo es frame scanline dot m → m < b → ¬ l < m := by
    intro l m hl hal hm hmb hlm
    obtain ⟨_, hdot⟩ := hm.isDot
    have hlt := positionAt_lt_of_dot (hes.mono (Nat.le_succ_of_le hal) (Nat.le_of_lt hmb)) hlm hdot
    rw [hplace hl, hplace hm] at hlt
    exact Nat.lt_irrefl _ hlt
  exact Nat.le_antisymm (Nat.le_of_not_lt (hbefore h' hk.1 h hj.2))
    (Nat.le_of_not_lt (hbefore h hj.1 h' hk.2))

/-- Every position but that of a dot which may be left out is reached. -/
theorem exists_dot_of_position {es : List (Event μ)} {a b P : Nat} (hes : NoReset es a b)
    (hab : a ≤ b) (hb : b ≤ es.length) (hlow : positionAt es a < P) (hhigh : P ≤ positionAt es b)
    (hskip : P % 89342 ≠ 89341) :
    ∃ j, a ≤ j ∧ j < b ∧ (∃ board, es[j]? = some (.dot board)) ∧ positionAt es (j + 1) = P := by
  induction hab with
  | refl => exact absurd hhigh (Nat.not_le.mpr hlow)
  | @step b hab ih =>
      by_cases hP : P ≤ positionAt es b
      · -- it has been reached before
        obtain ⟨j, haj, hjb, hdot, hj⟩ :=
          ih (hes.mono (Nat.le_refl a) (Nat.le_succ b)) (Nat.le_of_succ_le hb) hP
        exact ⟨j, haj, Nat.lt_succ_of_lt hjb, hdot, hj⟩
      · have hreach : P ≤ positionAt es (b + 1) := hhigh
        rcases positionAt_succ_cases hb (hes b hab (Nat.lt_succ_self b)) with
          ⟨-, h⟩ | ⟨hdot, h | ⟨hlast, h⟩⟩
        · omega
        · exact ⟨b, hab, Nat.lt_succ_self b, hdot, by omega⟩
        · -- the position that is jumped over is not the one that is looked for
          exact ⟨b, hab, Nat.lt_succ_self b, hdot, by omega⟩

/-- A run that has enough dots swaps the frames in a frame. -/
theorem exists_swap_of_dots {es : List (Event μ)} (hes : Event.reset ∉ es) {f : Nat}
    (h : 89342 * f + 2 ≤ Event.dots es) : ∃ n, Swaps es f n := by
  have hend := position_run hes wellTimed_powerOn
  have hlast : positionAt es es.length = (run es powerOn).beam.position := by
    rw [positionAt, stateAt_length]
  have hstart := positionAt_zero es
  have hpowerOn : powerOn.beam.position = 82180 := by decide
  have hplace : placePosition f 241 1 = 89342 * f + 82182 := by
    unfold placePosition
    omega
  obtain ⟨n, -, -, hdot, hn⟩ := exists_dot_of_position (noReset_of_notMem hes 0 es.length)
    (Nat.zero_le _) (Nat.le_refl _) (P := placePosition f 241 1) (by omega) (by omega) (by omega)
  exact ⟨n, (movesTo_iff (by omega) (by omega)).mpr ⟨hdot, hn⟩⟩

/-! ## The frames through an event -/

/-- A dot outside the picture draws nothing. -/
theorem drawDot_of_not_inPicture {p : Ppu} (h : ¬ p.beam.inPicture) : p.drawDot = p := dif_neg h

/-- The dot that starts the vertical blank swaps the frames. It stands below the picture, so it
draws nothing. -/
theorem frames_step_of_startsVblank {p : Ppu} (board : μ)
    (h : (p.beam.advance p.rendering).startsVblank = true) :
    (p.step board).front = p.back ∧ (p.step board).back = p.front := by
  have hbelow : ¬ p.tick.beam.inPicture := by
    show ¬ (p.beam.advance p.rendering).inPicture
    obtain ⟨hline, -⟩ := (Beam.startsVblank_iff _).mp h
    rw [Beam.inPicture, hline]
    omega
  have hback : (p.tick.renderDot board).back = p.back := by
    rw [(p.tick.drawn_renderDot board).1, drawDot_of_not_inPicture hbelow]
    exact ite_self _
  obtain ⟨_, _, _, _, _, _, _, hr⟩ := p.tick.renderDot_shape board
  have hstarts : (p.tick.renderDot board).beam.startsVblank = true := by
    rw [beam_renderDot]
    exact h
  rw [step_eq_stages, updateVblank, if_pos hstarts]
  refine ⟨hback, ?_⟩
  show (p.tick.renderDot board).front = p.front
  rw [hr]
  rfl

/-- Any other dot leaves the front frame alone. -/
theorem frames_step_of_not_startsVblank {p : Ppu} (board : μ)
    (h : (p.beam.advance p.rendering).startsVblank = false) :
    (p.step board).front = p.front ∧
      (p.step board).back = if p.rendering then p.tick.drawDot.back else p.back := by
  obtain ⟨_, _, _, _, _, _, _, hr⟩ := p.tick.renderDot_shape board
  have hstarts : (p.tick.renderDot board).beam.startsVblank = false := by
    rw [beam_renderDot]
    exact h
  rw [step_eq_stages, updateVblank, hstarts, if_neg Bool.false_ne_true, apply_ite front,
    apply_ite back]
  have hfront : (p.tick.renderDot board).front = p.front := by
    rw [hr]
    rfl
  exact ⟨(ite_self _).trans hfront, (ite_self _).trans (p.tick.drawn_renderDot board).1⟩

/-- A dot leaves a pixel alone at which it does not stand. -/
theorem get_back_drawDot_of_ne {p : Ppu} {x : Fin frameWidth} {y : Fin frameHeight}
    (h : ¬ (p.beam.scanline = y ∧ p.beam.dot = x + 1)) :
    p.drawDot.back.get x y = p.back.get x y := by
  by_cases hin : p.beam.inPicture
  · have hlow := hin.2.1
    rw [drawDot, dif_pos hin]
    refine Frame.get_set_of_ne _ _ (Decidable.not_and_iff_or_not.mp fun hplace => h ⟨?_, ?_⟩)
    · exact congrArg Fin.val hplace.2
    · have hx := congrArg Fin.val hplace.1
      dsimp only at hx
      omega
  · rw [drawDot_of_not_inPicture hin]

/-- The other events do not touch the frames. -/
theorem frames_after_of_not_dot {p : Ppu} {e : Event μ} (h : e.isDot = false) :
    (p.after e).front = p.front ∧ (p.after e).back = p.back := by
  obtain ⟨_, _, _, _, _, _, _, _, _, _, _, he⟩ := p.after_shape h
  rw [he]
  exact ⟨rfl, rfl⟩

/-! ## The frames through a run -/

/-- An event of a run that is a dot. -/
theorem stateAt_succ_of_dot {es : List (Event μ)} {n : Nat} {board : μ}
    (hat : es[n]? = some (.dot board)) :
    stateAt es (n + 1) = (stateAt es n).step board ∧
      (stateAt es (n + 1)).beam = (stateAt es n).beam.advance (stateAt es n).rendering := by
  obtain ⟨hn, hget⟩ := List.getElem?_eq_some_iff.mp hat
  have hnext : stateAt es (n + 1) = (stateAt es n).step board := by
    rw [stateAt_succ es hn, hget]
    rfl
  exact ⟨hnext, hnext ▸ (stateAt es n).beam_step board⟩

/-- What one event does to the frames of a run, if it does not swap them. -/
theorem frames_stateAt_succ {es : List (Event μ)} {n : Nat} (hn : n < es.length)
    (hswap : ∀ f, ¬ Swaps es f n) :
    (stateAt es (n + 1)).front = (stateAt es n).front ∧
      ∀ x y, (∀ f, Visits es f x y n → (stateAt es n).rendering = false) →
        (stateAt es (n + 1)).back.get x y = (stateAt es n).back.get x y := by
  have hat : es[n]? = some es[n] := List.getElem?_eq_getElem hn
  cases hd : es[n] with
  | dot board =>
      rw [hd] at hat
      obtain ⟨hnext, hbeam⟩ := stateAt_succ_of_dot hat
      have hquiet :
          ((stateAt es n).beam.advance (stateAt es n).rendering).startsVblank = false := by
        rw [← hbeam]
        refine Bool.eq_false_iff.mpr fun hstarts => ?_
        obtain ⟨hline, hdot⟩ := (Beam.startsVblank_iff _).mp hstarts
        exact hswap _ ⟨⟨board, hat⟩, rfl, hline, hdot⟩
      obtain ⟨hfront, hback⟩ := frames_step_of_not_startsVblank board hquiet
      rw [hnext]
      refine ⟨hfront, fun x y hvisit => ?_⟩
      rw [hback]
      split
      · next hr =>
          -- something is drawn, so it is not at this place
          refine get_back_drawDot_of_ne fun hplace => ?_
          have hplace' : (stateAt es (n + 1)).beam.scanline = y ∧
              (stateAt es (n + 1)).beam.dot = x + 1 := by
            rw [hbeam]
            exact hplace
          have hvisits : Visits es _ x y n := ⟨⟨board, hat⟩, rfl, hplace'.1, hplace'.2⟩
          rw [hvisit _ hvisits] at hr
          exact Bool.false_ne_true hr
      · rfl
  | read | write | storePage | takeNmi | reset =>
      obtain ⟨hfront, hback⟩ := frames_after_of_not_dot (p := stateAt es n) (e := es[n])
        (by rw [hd]; rfl)
      rw [stateAt_succ es hn, hfront, hback]
      exact ⟨rfl, fun _ _ _ => rfl⟩

/-- A pixel of the back frame stays as it is until it is drawn or the frames are swapped. -/
theorem get_back_stateAt {es : List (Event μ)} {a b : Nat} (hab : a ≤ b) (hb : b ≤ es.length)
    {x : Fin frameWidth} {y : Fin frameHeight}
    (hquiet : ∀ k, a ≤ k → k < b → ∀ f, ¬ Swaps es f k ∧ ¬ Visits es f x y k) :
    (stateAt es b).back.get x y = (stateAt es a).back.get x y := by
  induction hab with
  | refl => rfl
  | @step b hab ih =>
      have hlast := hquiet b hab (Nat.lt_succ_self b)
      have hstep := (frames_stateAt_succ hb fun f => (hlast f).1).2 x y fun f h =>
        absurd h (hlast f).2
      rw [hstep]
      exact ih (Nat.le_of_succ_le hb) fun k hak hkb => hquiet k hak (Nat.lt_succ_of_lt hkb)

theorem frames_of_swap {es : List (Event μ)} {f n : Nat} (h : Swaps es f n) :
    (stateAt es (n + 1)).front = (stateAt es n).back ∧
      (stateAt es (n + 1)).back = (stateAt es n).front := by
  obtain ⟨board, hat⟩ := h.isDot
  obtain ⟨hnext, hbeam⟩ := stateAt_succ_of_dot hat
  have hstarts : ((stateAt es n).beam.advance (stateAt es n).rendering).startsVblank = true := by
    rw [← hbeam]
    exact (Beam.startsVblank_iff _).mpr ⟨h.scanline_eq, h.dot_eq⟩
  rw [hnext]
  exact frames_step_of_startsVblank board hstarts

/-- The colour that is drawn at a column, as the registers and the pipeline are. -/
def drawn (p : Ppu) (x : Fin frameWidth) : Colour :=
  p.colour (compose (p.backgroundPixel x) (p.spriteAt x) x).toUInt16

theorem get_back_of_visit {es : List (Event μ)} {f n : Nat} {x : Fin frameWidth}
    {y : Fin frameHeight} (h : Visits es f x y n) :
    (stateAt es (n + 1)).back.get x y =
      if (stateAt es n).rendering then (stateAt es n).drawn x else (stateAt es n).back.get x y := by
  obtain ⟨board, hat⟩ := h.isDot
  obtain ⟨hnext, hbeam⟩ := stateAt_succ_of_dot hat
  by_cases hr : (stateAt es n).rendering = true
  · have hdot := h.dot_eq
    have hline := h.scanline_eq
    rw [hbeam] at hdot hline
    rw [if_pos hr, hnext, back_step board hr hdot hline, Frame.get_set_self]
    rfl
  · rw [if_neg hr]
    have hy : y.val < 240 := y.isLt
    -- the frames are not swapped at this dot, which stands in the picture
    refine (frames_stateAt_succ h.lt_length fun g hswap => ?_).2 x y
      fun _ _ => Bool.not_eq_true _ ▸ hr
    have hline := h.scanline_eq
    rw [hswap.scanline_eq] at hline
    omega

/-! ## What comes to the front -/

/-- Between the swap of one frame and the swap of the next there is a dot that visits a pixel, and
neither another swap nor another visit. -/
theorem exists_visit_between_swaps {es : List (Event μ)} (hes : Event.reset ∉ es) {f n : Nat}
    (h : Swaps es (f + 1) n) (x : Fin frameWidth) (y : Fin frameHeight) :
    ∃ i j, Swaps es f i ∧ i < j ∧ j < n ∧ Visits es (f + 1) x y j ∧
      ∀ k, i < k → k < n → k ≠ j → ∀ g, ¬ Swaps es g k ∧ ¬ Visits es g x y k := by
  have hx : x.val < 256 := x.isLt
  have hy : y.val < 240 := y.isLt
  have hswaps : ∀ {g k}, Swaps es g k ↔ (∃ board, es[k]? = some (.dot board)) ∧
      positionAt es (k + 1) = placePosition g 241 1 :=
    movesTo_iff (by omega) (by omega)
  have hvisits : ∀ {g k}, Visits es g x y k ↔ (∃ board, es[k]? = some (.dot board)) ∧
      positionAt es (k + 1) = placePosition g y (x + 1) :=
    movesTo_iff (by omega) (by omega)
  simp only [placePosition] at hswaps hvisits
  obtain ⟨hdot, hposition⟩ := hswaps.mp h
  have hn := h.lt_length
  have hstart := positionAt_zero es
  have hreset : ∀ a b, NoReset es a b := noReset_of_notMem hes
  have hbefore : positionAt es (n + 1) ≤ positionAt es n + 2 := by
    have hkept := hreset n (n + 1) n (Nat.le_refl n) (Nat.lt_succ_self n)
    rcases positionAt_succ_cases hn hkept with ⟨-, h⟩ | ⟨-, h | ⟨-, h⟩⟩ <;> omega
  obtain ⟨i, -, hin, hidot, hi⟩ := exists_dot_of_position (hreset 0 n) (Nat.zero_le n)
    (Nat.le_of_lt hn) (P := 89342 * f + 341 * 241 + 1) (by omega) (by omega) (by omega)
  obtain ⟨j, hij, hjn, hjdot, hj⟩ := exists_dot_of_position (hreset (i + 1) n) hin
    (Nat.le_of_lt hn) (P := 89342 * (f + 1) + 341 * y + (x + 1)) (by omega) (by omega) (by omega)
  refine ⟨i, j, hswaps.mpr ⟨hidot, hi⟩, hij, hjn, hvisits.mpr ⟨hjdot, hj⟩, ?_⟩
  -- each dot is further than those before it, and less than a frame lies between these
  have hfurther : ∀ {a b}, a < b → (∃ board, es[b]? = some (.dot board)) →
      positionAt es (a + 1) < positionAt es (b + 1) := by
    rintro a b hab ⟨_, hb⟩
    exact positionAt_lt_of_dot (hreset _ _) hab hb
  intro k hik hkn hkj g
  constructor
  · intro hk
    obtain ⟨hkdot, hk⟩ := hswaps.mp hk
    have hlow := hfurther hik hkdot
    have hhigh := hfurther hkn hdot
    omega
  · intro hk
    obtain ⟨hkdot, hk⟩ := hvisits.mp hk
    have hlow := hfurther hik hkdot
    have hhigh := hfurther hkn hdot
    rcases Nat.lt_or_gt_of_ne hkj with hkj | hkj
    · have hlt := hfurther hkj hjdot
      omega
    · have hlt := hfurther hkj hkdot
      omega

/-- **Where a pixel of the front frame comes from.** Between the swap of one frame and the swap of
the next there is one dot that visits the pixel. What comes to the front is what was drawn at this
dot, or, if nothing was rendered then, what was in front before the swap of the frame before. -/
theorem get_front_of_swap {es : List (Event μ)} (hes : Event.reset ∉ es) {f n : Nat}
    (h : Swaps es (f + 1) n) (x : Fin frameWidth) (y : Fin frameHeight) :
    ∃ i j, Swaps es f i ∧ i < j ∧ j < n ∧ Visits es (f + 1) x y j ∧
      (∀ k, Visits es (f + 1) x y k → k = j) ∧
      (stateAt es (n + 1)).front.get x y =
        if (stateAt es j).rendering then (stateAt es j).drawn x
        else (stateAt es i).front.get x y := by
  obtain ⟨i, j, hswap, hij, hjn, hvisit, hquiet⟩ := exists_visit_between_swaps hes h x y
  have hn := h.lt_length
  have hupToVisit : (stateAt es j).back.get x y = (stateAt es (i + 1)).back.get x y :=
    get_back_stateAt hij (by omega) fun k hik hkj =>
      hquiet k hik (Nat.lt_trans hkj hjn) (Nat.ne_of_lt hkj)
  have hfromVisit : (stateAt es n).back.get x y = (stateAt es (j + 1)).back.get x y :=
    get_back_stateAt hjn (Nat.le_of_lt hn) fun k hjk hkn =>
      hquiet k (Nat.lt_trans hij hjk) hkn (Nat.ne_of_gt hjk)
  refine ⟨i, j, hswap, hij, hjn, hvisit, fun k hk => ?_, ?_⟩
  · exact hk.unique (noReset_of_notMem hes 0 es.length) ⟨Nat.zero_le k, hk.lt_length⟩ hvisit
      ⟨Nat.zero_le j, hvisit.lt_length⟩
  calc (stateAt es (n + 1)).front.get x y
      = (stateAt es n).back.get x y := by rw [(frames_of_swap h).1]
    _ = (stateAt es (j + 1)).back.get x y := hfromVisit
    _ = if (stateAt es j).rendering then (stateAt es j).drawn x
        else (stateAt es j).back.get x y := get_back_of_visit hvisit
    _ = if (stateAt es j).rendering then (stateAt es j).drawn x
        else (stateAt es i).front.get x y := by rw [hupToVisit, (frames_of_swap hswap).2]

end Ppu

end Nes
