import Mathlib.Logic.ExistsUnique
import Nes.Proofs.Ppu.FrontFrame

/-!
# Presentation without tearing

A program that shows the front frame sees its bytes only. Whatever happens to the picture unit,
resets included, these bytes change at one kind of dot alone, the one that starts the vertical
blank, and there the frame in front is exchanged as a whole for the one behind it. No other event
touches the front frame, and none touches more of the back frame than the four bytes of the pixel it
paints. A frame that is rendered from its first line to its last has every pixel painted once
(`tearFree`).
-/

set_option autoImplicit false

namespace Nes

/-! ## The bytes of a frame -/

namespace Frame

/-- The bytes of a frame in the order in which they are stored. -/
def bytes (f : Frame) : List UInt8 := f.colours.toList.flatMap bytesOf

/-- Bytes that make up a frame: an opaque pixel of one of the 64 colours for every place. -/
structure IsPicture (bytes : List UInt8) : Prop where
  length_eq : bytes.length = frameBytes
  pixel : ∀ x y, ∃ c : Colour,
    (bytes.drop (bytesPerPixel * index x y)).take bytesPerPixel = [c.red, c.green, c.blue, 0xFF]

theorem length_bytesOf (c : Colour) : (bytesOf c).length = bytesPerPixel := rfl

theorem length_flatMap_bytesOf (l : List Colour) :
    (l.flatMap bytesOf).length = bytesPerPixel * l.length := by
  induction l with
  | nil => rfl
  | cons c l ih =>
      rw [List.flatMap_cons, List.length_append, length_bytesOf, ih, List.length_cons,
        Nat.mul_succ, Nat.add_comm]

theorem length_bytes (f : Frame) : f.bytes.length = frameBytes := by
  rw [bytes, length_flatMap_bytesOf, Array.length_toList, colours, Vector.size_toArray, frameBytes,
    Nat.mul_comm]

/-- Every pixel takes four bytes, so those before a pixel are the bytes of the pixels before it. -/
theorem drop_flatMap_bytesOf (l : List Colour) (i : Nat) :
    (l.flatMap bytesOf).drop (bytesPerPixel * i) = (l.drop i).flatMap bytesOf := by
  induction l generalizing i with
  | nil => rw [List.drop_nil, List.flatMap_nil, List.drop_nil]
  | cons c l ih =>
      cases i with
      | zero => rfl
      | succ i =>
          rw [List.drop_succ_cons, ← ih i, List.flatMap_cons, Nat.mul_succ, Nat.add_comm,
            ← length_bytesOf c, List.drop_length_add_append]

/-- The bytes of a pixel. -/
theorem take_drop_bytes (f : Frame) (x : Fin frameWidth) (y : Fin frameHeight) :
    (f.bytes.drop (bytesPerPixel * index x y)).take bytesPerPixel = bytesOf (f.get x y) := by
  have hlt : (index x y).val < f.colours.toList.length := by
    rw [Array.length_toList, colours, Vector.size_toArray]
    exact (index x y).isLt
  have hget : f.colours.toList[(index x y).val] = f.get x y := rfl
  rw [bytes, drop_flatMap_bytesOf, List.drop_eq_getElem_cons hlt, hget, List.flatMap_cons,
    ← length_bytesOf (f.get x y), List.take_left]

theorem isPicture_bytes (f : Frame) : IsPicture f.bytes where
  length_eq := f.length_bytes
  pixel x y := ⟨f.get x y, f.take_drop_bytes x y⟩

/-- A byte is a byte of its pixel. -/
theorem getElem?_flatMap_bytesOf (l : List Colour) (k : Nat) :
    (l.flatMap bytesOf)[k]? =
      l[k / bytesPerPixel]?.bind fun c => (bytesOf c)[k % bytesPerPixel]? := by
  have hsplit : (l.flatMap bytesOf)[k]? =
      ((l.drop (k / bytesPerPixel)).flatMap bytesOf)[k % bytesPerPixel]? := by
    rw [← drop_flatMap_bytesOf, List.getElem?_drop, Nat.div_add_mod]
  have hhead : l[k / bytesPerPixel]? = (l.drop (k / bytesPerPixel)).head? := List.head?_drop.symm
  rw [hsplit, hhead]
  cases l.drop (k / bytesPerPixel) with
  | nil => rfl
  | cons c rest =>
      have hin : k % bytesPerPixel < (bytesOf c).length := Nat.mod_lt k (by decide)
      exact List.getElem?_append_left hin

theorem getElem?_colours (f : Frame) (x : Fin frameWidth) (y : Fin frameHeight) :
    f.colours.toList[(index x y).val]? = some (f.get x y) :=
  List.getElem?_eq_getElem (by simp [colours])

/-- A byte of two frames is the same if its pixel is. -/
theorem getElem?_bytes_congr {f g : Frame} {k : Nat}
    (h : ∀ x y, k / bytesPerPixel = index x y → f.get x y = g.get x y) :
    f.bytes[k]? = g.bytes[k]? := by
  by_cases hlt : k / bytesPerPixel < frameWidth * frameHeight
  · have hx : k / bytesPerPixel % frameWidth < frameWidth := Nat.mod_lt _ (by decide)
    have hy : k / bytesPerPixel / frameWidth < frameHeight := Nat.div_lt_of_lt_mul hlt
    have hindex : k / bytesPerPixel = index ⟨_, hx⟩ ⟨_, hy⟩ :=
      (Nat.div_add_mod' (k / bytesPerPixel) frameWidth).symm
    have hget := h _ _ hindex
    rw [bytes, bytes, getElem?_flatMap_bytesOf, getElem?_flatMap_bytesOf, hindex, getElem?_colours,
      getElem?_colours, hget]
  · -- beyond the last pixel neither frame has a byte
    have hbeyond : frameBytes ≤ k := by
      unfold frameBytes
      unfold bytesPerPixel at hlt ⊢
      omega
    rw [List.getElem?_eq_none (f.length_bytes ▸ hbeyond),
      List.getElem?_eq_none (g.length_bytes ▸ hbeyond)]

end Frame

namespace Ppu

variable {μ : Type} [Board μ]

/-! ## Painting -/

/-- A dot of a run paints a pixel: it visits it, and something is rendered. -/
def Paints (es : List (Event μ)) (x : Fin frameWidth) (y : Fin frameHeight) (n : Nat) : Prop :=
  (∃ f, Visits es f x y n) ∧ (stateAt es n).rendering = true

theorem Paints.back_stateAt_succ {es : List (Event μ)} {x : Fin frameWidth} {y : Fin frameHeight}
    {n : Nat} (h : Paints es x y n) :
    (stateAt es (n + 1)).back = (stateAt es n).back.set x y ((stateAt es n).drawn x) := by
  obtain ⟨⟨f, hvisit⟩, hr⟩ := h
  obtain ⟨board, hat⟩ := hvisit.isDot
  obtain ⟨hnext, hbeam⟩ := stateAt_succ_of_dot hat
  have hdot := hvisit.dot_eq
  have hline := hvisit.scanline_eq
  rw [hbeam] at hdot hline
  rw [hnext, back_step board hr hdot hline]
  rfl

/-- The bytes of a painted pixel are the channels of the colour drawn there, and full alpha. -/
theorem Paints.bytes_stateAt_succ {es : List (Event μ)} {x : Fin frameWidth} {y : Fin frameHeight}
    {n : Nat} (h : Paints es x y n) {c : Colour} (hc : c = (stateAt es n).drawn x) :
    ((stateAt es (n + 1)).back.bytes.drop (bytesPerPixel * Frame.index x y)).take bytesPerPixel =
      [c.red, c.green, c.blue, 0xFF] := by
  rw [Frame.take_drop_bytes, h.back_stateAt_succ, Frame.get_set_self, hc]
  rfl

/-- An event that does not swap the frames changes no bytes of the back frame but those of a pixel
it paints. -/
theorem paints_of_bytes_ne {es : List (Event μ)} {n k : Nat} (hn : n < es.length)
    (hswap : ∀ f, ¬ Swaps es f n)
    (hk : (stateAt es (n + 1)).back.bytes[k]? ≠ (stateAt es n).back.bytes[k]?) :
    ∃ x y, Paints es x y n ∧ k / bytesPerPixel = Frame.index x y := by
  by_cases hpaints : ∃ x y, Paints es x y n ∧ k / bytesPerPixel = Frame.index x y
  · exact hpaints
  · refine absurd (Frame.getElem?_bytes_congr fun x y hindex => ?_) hk
    apply (frames_stateAt_succ hn hswap).2 x y
    intro f hvisit
    refine Bool.eq_false_iff.mpr fun hr => ?_
    exact hpaints ⟨x, y, ⟨⟨f, hvisit⟩, hr⟩, hindex⟩

/-! ## Whole frames -/

/-- From one index of a run to another the beam goes through a frame, from its first dot to the
first of the next frame. -/
structure WholeFrame (es : List (Event μ)) (frame i j : Nat) : Prop where
  lt : i < j
  le_length : j ≤ es.length
  start : (stateAt es i).beam.scanline = 0 ∧ (stateAt es i).beam.dot = 0
  during : ∀ n, i ≤ n → n < j → (stateAt es n).beam.frame = frame
  finish : (stateAt es j).beam.frame = frame + 1

/-- Frame 0 has no picture: a run starts below it, and a reset leads there too. -/
theorem frame_pos_of_visible (es : List (Event μ)) (n : Nat) :
    (stateAt es n).beam.scanline < 240 → 0 < (stateAt es n).beam.frame := by
  refine run_invariant (P := fun p => p.beam.scanline < 240 → 0 < p.beam.frame) ?_ ?_
  · intro h
    exact absurd h (by decide)
  · intro e _ p hp
    rw [beam_after]
    cases e with
    | dot board =>
        rcases p.beam.advance_cases p.rendering with
          ⟨-, he⟩ | ⟨-, -, he⟩ | ⟨-, -, he⟩ | ⟨-, -, he⟩ <;> rw [he]
        · exact fun _ => Nat.succ_pos _
        · exact hp
        · exact fun h => hp (Nat.lt_of_succ_lt h)
        · exact fun _ => Nat.succ_pos _
    | reset => exact fun h => absurd h (Nat.lt_irrefl 240)
    | read | write | storePage | takeNmi => exact hp

/-- A reset would leave the frame. -/
theorem WholeFrame.noReset {es : List (Event μ)} {frame i j : Nat} (h : WholeFrame es frame i j) :
    NoReset es i j := by
  intro n hin hnj hreset
  obtain ⟨hn, hget⟩ := List.getElem?_eq_some_iff.mp hreset
  have hzero : (stateAt es (n + 1)).beam.frame = 0 := by
    rw [stateAt_succ es hn, hget, beam_after]
    rfl
  have hpos : 0 < frame := by
    have hstart := h.during i (Nat.le_refl i) h.lt
    have hvisible : (stateAt es i).beam.scanline < 240 := by
      rw [h.start.1]
      decide
    exact hstart ▸ frame_pos_of_visible es i hvisible
  by_cases hlt : n + 1 < j
  · have hframe := h.during (n + 1) (Nat.le_succ_of_le hin) hlt
    omega
  · have hj : j = n + 1 := by omega
    have hframe := h.finish
    rw [hj, hzero] at hframe
    omega

/-- All pixels visited within a whole frame are pixels of this frame. The event that ends it leads
to the first dot of the next one, where no pixel is. -/
theorem WholeFrame.frame_eq_of_visits {es : List (Event μ)} {frame i j f m : Nat}
    (h : WholeFrame es frame i j) (him : i ≤ m) (hmj : m < j) {x : Fin frameWidth}
    {y : Fin frameHeight} (hm : Visits es f x y m) : f = frame := by
  rw [← hm.frame_eq]
  by_cases hlt : m + 1 < j
  · exact h.during (m + 1) (Nat.le_succ_of_le him) hlt
  · have hj : m + 1 = j := by omega
    obtain ⟨hdot, hline⟩ := onScreen_stateAt es m
    have hlast := positionAt_eq es m
    have hplace := positionAt_eq es (m + 1)
    rw [h.during m him hmj] at hlast
    rw [hm.scanline_eq, hm.dot_eq, hj, h.finish] at hplace
    unfold placePosition at hlast hplace
    rw [← hj] at hplace
    rcases positionAt_succ_cases hm.lt_length (h.noReset m him hmj) with
      ⟨hno, -⟩ | ⟨-, hnext | ⟨hskip, hnext⟩⟩
    · obtain ⟨board, hat⟩ := hm.isDot
      exact absurd hat (hno board)
    · omega
    · omega

/-- Every pixel is visited within a whole frame, by one dot only. -/
theorem WholeFrame.exists_visit {es : List (Event μ)} {frame i j : Nat}
    (h : WholeFrame es frame i j) (x : Fin frameWidth) (y : Fin frameHeight) :
    ∃ n, (i ≤ n ∧ n < j) ∧ Visits es frame x y n ∧
      ∀ m, i ≤ m → m < j → ∀ f, Visits es f x y m → m = n := by
  have hx : x.val < 256 := x.isLt
  have hy : y.val < 240 := y.isLt
  have hreset := h.noReset
  have hstart : positionAt es i = placePosition frame 0 0 := by
    rw [positionAt_eq, h.during i (Nat.le_refl i) h.lt, h.start.1, h.start.2]
  have hend : placePosition (frame + 1) 0 0 ≤ positionAt es j := by
    rw [positionAt_eq, h.finish]
    unfold placePosition
    omega
  unfold placePosition at hstart hend
  obtain ⟨n, hin, hnj, hdot, hn⟩ := exists_dot_of_position hreset (Nat.le_of_lt h.lt) h.le_length
    (P := placePosition frame y (x + 1)) (by unfold placePosition; omega)
    (by unfold placePosition; omega) (by unfold placePosition; omega)
  have hvisit : Visits es frame x y n := (movesTo_iff (by omega) (by omega)).mpr ⟨hdot, hn⟩
  refine ⟨n, ⟨hin, hnj⟩, hvisit, ?_⟩
  intro m him hmj f hm
  have hframe : f = frame := h.frame_eq_of_visits him hmj hm
  rw [hframe] at hm
  exact hm.unique hreset ⟨him, hmj⟩ hvisit ⟨hin, hnj⟩

/-- Something is rendered wherever a run visits a pixel from one index to another. -/
def RendersPicture (es : List (Event μ)) (i j : Nat) : Prop :=
  ∀ n, i ≤ n → n < j → ∀ f x y, Visits es f x y n → (stateAt es n).rendering = true

/-- A whole frame that is rendered has every pixel painted once. -/
theorem WholeFrame.existsUnique_paints {es : List (Event μ)} {frame i j : Nat}
    (h : WholeFrame es frame i j) (hr : RendersPicture es i j) (x : Fin frameWidth)
    (y : Fin frameHeight) : ∃! n, (i ≤ n ∧ n < j) ∧ Paints es x y n := by
  obtain ⟨n, ⟨hin, hnj⟩, hvisit, hunique⟩ := h.exists_visit x y
  refine ⟨n, ⟨⟨hin, hnj⟩, ⟨frame, hvisit⟩, hr n hin hnj frame x y hvisit⟩, ?_⟩
  rintro m ⟨⟨him, hmj⟩, ⟨f, hm⟩, -⟩
  exact hunique m him hmj f hm

/-! ## Presentation -/

/-- How a run of the picture unit presents its frames. -/
structure TearFree (es : List (Event μ)) : Prop where
  /-- At any time the bytes of both frames make up pictures. -/
  picture : ∀ n, Frame.IsPicture (stateAt es n).front.bytes ∧
    Frame.IsPicture (stateAt es n).back.bytes
  /-- The dot that starts the vertical blank exchanges the frames. -/
  exchange : ∀ f n, Swaps es f n → (stateAt es (n + 1)).front = (stateAt es n).back ∧
    (stateAt es (n + 1)).back = (stateAt es n).front
  /-- No other event touches the front frame. -/
  front_kept : ∀ n, n < es.length → (∀ f, ¬ Swaps es f n) →
    (stateAt es (n + 1)).front = (stateAt es n).front
  /-- None changes bytes of the back frame but those of the pixel it paints. -/
  back_kept : ∀ n, n < es.length → (∀ f, ¬ Swaps es f n) →
    ∀ k, (stateAt es (n + 1)).back.bytes[k]? ≠ (stateAt es n).back.bytes[k]? →
      ∃ x y, Paints es x y n ∧ k / bytesPerPixel = Frame.index x y
  /-- Painting a pixel sets it to the colour that is drawn there: its four bytes are then the
  channels of this colour and full alpha. -/
  painted : ∀ n x y, Paints es x y n → ∀ c : Colour, c = (stateAt es n).drawn x →
    (stateAt es (n + 1)).back = (stateAt es n).back.set x y c ∧
      ((stateAt es (n + 1)).back.bytes.drop (bytesPerPixel * Frame.index x y)).take bytesPerPixel =
        [c.red, c.green, c.blue, 0xFF]
  /-- A whole frame that is rendered has every pixel painted once. -/
  once : ∀ f i j, WholeFrame es f i j → RendersPicture es i j →
    ∀ x y, ∃! n, (i ≤ n ∧ n < j) ∧ Paints es x y n

/-- **Presentation without tearing.** Every run of the picture unit from power-on, of dots,
accesses, stored pages, interrupts taken and resets in any order, exchanges its frames as a whole at
the dot that starts the vertical blank, and draws behind the frame in front otherwise, a pixel at a
time. -/
theorem tearFree (es : List (Event μ)) : TearFree es where
  picture n := ⟨(stateAt es n).front.isPicture_bytes, (stateAt es n).back.isPicture_bytes⟩
  exchange _ _ h := frames_of_swap h
  front_kept _ hn hswap := (frames_stateAt_succ hn hswap).1
  back_kept _ hn hswap _ hk := paints_of_bytes_ne hn hswap hk
  painted _ _ _ h _ hc := ⟨hc ▸ h.back_stateAt_succ, h.bytes_stateAt_succ hc⟩
  once _ _ _ h hr := h.existsUnique_paints hr

/-! ## Whole frames of long runs -/

/-- A run that has enough dots goes through whole frames. -/
theorem exists_wholeFrame_of_dots {es : List (Event μ)} (hes : Event.reset ∉ es) {f : Nat}
    (h : 89342 * (f + 1) + 7162 ≤ Event.dots es) :
    ∃ i j, 0 < i ∧ WholeFrame es (f + 1) i j := by
  have hend := position_run hes wellTimed_powerOn
  have hlast : positionAt es es.length = (run es powerOn).beam.position := by
    rw [positionAt, stateAt_length]
  have hstart := positionAt_zero es
  have hpowerOn : powerOn.beam.position = 82180 := by decide
  have hreset : ∀ a b, NoReset es a b := noReset_of_notMem hes
  obtain ⟨i, -, hi, -, hfirst⟩ := exists_dot_of_position (hreset 0 es.length) (Nat.zero_le _)
    (Nat.le_refl _) (P := 89342 * (f + 1)) (by omega) (by omega) (by omega)
  obtain ⟨j, hij, hj, ⟨board, hdot⟩, hnext⟩ := exists_dot_of_position (hreset (i + 1) es.length) hi
    (Nat.le_refl _) (P := 89342 * (f + 2)) (by omega) (by omega) (by omega)
  have hat : ∀ n, positionAt es n = 89342 * (stateAt es n).beam.frame +
      341 * (stateAt es n).beam.scanline + (stateAt es n).beam.dot := positionAt_eq es
  refine ⟨i + 1, j + 1, Nat.succ_pos i, Nat.succ_lt_succ hij, hj, ?_, ?_, ?_⟩
  · obtain ⟨hd, hl⟩ := onScreen_stateAt es (i + 1)
    have hplace := hat (i + 1)
    exact ⟨by omega, by omega⟩
  · intro n hin hnj
    obtain ⟨hd, hl⟩ := onScreen_stateAt es n
    have hplace := hat n
    have hlow := positionAt_mono (hreset (i + 1) n) hin (by omega)
    have hhigh := positionAt_lt_of_dot (hreset n j) (Nat.le_of_lt_succ hnj) hdot
    omega
  · obtain ⟨hd, hl⟩ := onScreen_stateAt es (j + 1)
    have hplace := hat (j + 1)
    omega

/-- Both layers are switched on at power-on and stay on. Frame 1 is a whole frame, and each of its
pixels is painted once. -/
theorem tearFree_switchedOn :
    ∃ (es : List (Event UxRom)) (i j : Nat), WholeFrame es 1 i j ∧ RendersPicture es i j ∧
      ∀ x y, ∃! n, (i ≤ n ∧ n < j) ∧ Paints es x y n := by
  generalize hn : 100000 = n
  let es : List (Event UxRom) :=
    .write UxRom.blank 0x2001 0x18 :: .replicate n (.dot UxRom.blank)
  have hdots : Event.dots es = n := by
    rw [Event.dots_cons, Event.dots_replicate]
    exact Nat.zero_add n
  have hreset : Event.reset ∉ es := by
    intro h
    rcases List.mem_cons.mp h with h | h
    · cases h
    · exact Event.reset_notMem_replicate _ _ h
  obtain ⟨i, j, hi, hframe⟩ := exists_wholeFrame_of_dots hreset (f := 0) (by omega)
  have hrenders : RendersPicture es i j := by
    intro k hik _ _ _ _ _
    obtain ⟨k, rfl⟩ := Nat.exists_eq_succ_of_ne_zero (Nat.ne_of_gt (Nat.lt_of_lt_of_le hi hik))
    have hmask : (stateAt es (k + 1)).mask = 0x18 := by
      rw [stateAt, List.take_succ_cons, run_cons, List.take_replicate, mask_replicate]
      rfl
    rw [rendering, hmask]
    decide
  exact ⟨es, i, j, hframe, hrenders, (tearFree es).once 1 i j hframe hrenders⟩

end Ppu

end Nes
