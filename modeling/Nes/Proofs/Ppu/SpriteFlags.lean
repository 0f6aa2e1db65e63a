import Nes.Proofs.Ppu.FrontFrame

/-!
# The sprite flags

Two flags in the status tell a program about the sprites. One says that the sprite of entry 0 has
met the background, the other that a line had more sprites than are drawn on it.

A pixel looks for the first sprite that shows there and asks whether it is the one of entry 0. This
finds the sprite of entry 0 wherever it shows, because the sprites of a line stand in the order of
their entries. They do so at any time of any run, whenever the last search was and whatever has been
written since.

Both flags are raised and cleared at dots alone, and `SetSince` says what they are from the dots
before (`spriteFlags`).
-/

set_option autoImplicit false

namespace Nes

/-! ## Sprites in the order of their entries -/

namespace Sprite

/-- Sprites stand in the order of their entries, none of them twice. -/
def InOrder (sprites : List Sprite) : Prop := sprites.Pairwise fun s s' => s.entry < s'.entry

variable {μ : Type} [Board μ]

theorem entry_of_fetch {vram : Vram} {board : μ} {shape : SpriteShape} {oam : Oam} {line : Nat}
    {entry : Fin 64} {s : Sprite} (h : fetch? vram board shape oam line entry = some s) :
    s.entry = entry := by
  obtain ⟨pattern, -, rfl⟩ := Option.map_eq_some_iff.mp h
  rfl

/-- A search takes the entries in their order. -/
theorem pairwise_onLine (oam : Oam) (height line : Nat) :
    (oam.onLine height line).Pairwise (· < ·) := by
  have hall : (List.finRange 64).Pairwise (· < ·) := by
    apply List.pairwise_iff_getElem.mpr
    intro i j hi hj hij
    rw [List.getElem_finRange, List.getElem_finRange]
    exact hij
  exact hall.filter _

theorem inOrder_filterMap_fetch (vram : Vram) (board : μ) (shape : SpriteShape) (oam : Oam)
    (line : Nat) {entries : List (Fin 64)} (h : entries.Pairwise (· < ·)) :
    InOrder (entries.filterMap (fetch? vram board shape oam line)) := by
  refine List.Pairwise.filterMap _ ?_ h
  intro entry entry' hlt s hs s' hs'
  rw [entry_of_fetch hs, entry_of_fetch hs']
  exact hlt

/-- If the sprite of entry 0 shows at a column, it is the first that does. -/
theorem first?_entry_zero {sprites : List Sprite} (h : InOrder sprites) (x : Nat) :
    (∃ s, first? sprites x = some s ∧ s.entry.val = 0) ↔
      ∃ s ∈ sprites, s.entry.val = 0 ∧ Pattern.opaquePixel (s.pixelAt x) = true := by
  constructor
  · rintro ⟨s, hfirst, hzero⟩
    have hshows : Pattern.opaquePixel (s.pixelAt x) = true :=
      List.find?_some (p := fun s : Sprite => Pattern.opaquePixel (s.pixelAt x)) hfirst
    exact ⟨s, List.mem_of_find?_eq_some hfirst, hzero, hshows⟩
  · rintro ⟨s, hs, hzero, hshows⟩
    cases sprites with
    | nil => cases hs
    | cons a rest =>
        rcases List.mem_cons.mp hs with rfl | hrest
        · exact ⟨s, List.find?_cons_of_pos hshows, hzero⟩
        · -- nothing stands before entry 0
          have hlt : a.entry.val < s.entry.val := (List.pairwise_cons.mp h).1 s hrest
          omega

end Sprite

namespace Ppu

/-! ## Where the sprite of entry 0 meets the background -/

/-- The background is shown at a column. -/
def ShowsBackgroundAt (p : Ppu) (x : Nat) : Prop :=
  p.showsBackground = true ∧ (x < 8 → p.showsLeftBackground = true)

/-- Sprites are shown at a column. -/
def ShowsSpritesAt (p : Ppu) (x : Nat) : Prop :=
  p.showsSprites = true ∧ (x < 8 → p.showsLeftSprites = true)

/-- The sprite of entry 0 meets the background at a column. Its priority does not matter, nor which
other sprites show there. -/
structure HitsSpriteZero (p : Ppu) (x : Nat) : Prop where
  rendering : p.rendering = true
  column : x < 255
  background_shown : p.ShowsBackgroundAt x
  background_opaque : Pattern.opaquePixel (p.background.digit p.scroll.fineX) = true
  sprites_shown : p.ShowsSpritesAt x
  sprite_opaque : ∃ s ∈ p.sprites, s.entry.val = 0 ∧ Pattern.opaquePixel (s.pixelAt x) = true

theorem not_leftHidden_iff (x : Nat) (left : Bool) :
    ¬ (x < 8 ∧ left = false) ↔ (x < 8 → left = true) := by
  cases left <;> simp

theorem opaquePixel_backgroundPixel (p : Ppu) (x : Nat) :
    Pattern.opaquePixel (p.backgroundPixel x) = true ↔
      p.ShowsBackgroundAt x ∧ Pattern.opaquePixel (p.background.digit p.scroll.fineX) = true := by
  have hzero : Pattern.opaquePixel 0 = false := by decide
  unfold backgroundPixel backgroundDigit ShowsBackgroundAt
  rw [← not_leftHidden_iff]
  by_cases hleft : x < 8 ∧ p.showsLeftBackground = false
  · simp [hleft, hzero]
  · rw [if_neg hleft]
    cases p.showsBackground with
    | false => simp [hzero]
    | true => exact (and_iff_right ⟨rfl, hleft⟩).symm

theorem spriteAt_eq_some_iff (p : Ppu) (x : Nat) (s : Sprite) :
    p.spriteAt x = some s ↔ p.ShowsSpritesAt x ∧ Sprite.first? p.sprites x = some s := by
  unfold spriteAt ShowsSpritesAt
  rw [← not_leftHidden_iff]
  by_cases hleft : x < 8 ∧ p.showsLeftSprites = false
  · simp [hleft]
  · cases p.showsSprites with
    | false => simp
    | true =>
        rw [if_neg (not_or_intro (nofun) hleft)]
        exact (and_iff_right ⟨rfl, hleft⟩).symm

theorem meetsSpriteZero_eq_true_iff (background : UInt8) (sprite : Option Sprite) (x : Nat) :
    meetsSpriteZero background sprite x = true ↔
      Pattern.opaquePixel background = true ∧ x < 255 ∧ ∃ s, sprite = some s ∧ s.entry.val = 0 := by
  cases sprite with
  | none => simp [meetsSpriteZero]
  | some s => simp [meetsSpriteZero, and_assoc, and_comm]

/-- With the sprites in order, the test at a pixel is the one for the sprite of entry 0. -/
theorem meetsSpriteZero_iff {p : Ppu} (hr : p.rendering = true) (hs : Sprite.InOrder p.sprites)
    (x : Nat) :
    meetsSpriteZero (p.backgroundPixel x) (p.spriteAt x) x = true ↔ p.HitsSpriteZero x := by
  rw [meetsSpriteZero_eq_true_iff, opaquePixel_backgroundPixel]
  simp only [spriteAt_eq_some_iff]
  constructor
  · rintro ⟨⟨hbackground, hopaque⟩, hx, s, ⟨hsprites, hfirst⟩, hzero⟩
    exact ⟨hr, hx, hbackground, hopaque, hsprites,
      (Sprite.first?_entry_zero hs x).mp ⟨s, hfirst, hzero⟩⟩
  · intro h
    obtain ⟨s, hfirst, hzero⟩ := (Sprite.first?_entry_zero hs x).mpr h.sprite_opaque
    exact ⟨⟨h.background_shown, h.background_opaque⟩, h.column, s, ⟨h.sprites_shown, hfirst⟩, hzero⟩

variable {μ : Type} [Board μ]

/-! ## The flags through a dot -/

/-- The end of the vertical blank clears both flags. -/
theorem flags_updateVblank (p : Ppu) :
    p.updateVblank.spriteZeroHit = (p.spriteZeroHit && !p.beam.endsVblank) ∧
      p.updateVblank.spriteOverflow = (p.spriteOverflow && !p.beam.endsVblank) := by
  unfold updateVblank
  by_cases hstarts : p.beam.startsVblank = true
  · have hends : p.beam.endsVblank = false := by
      obtain ⟨hline, -⟩ := (Beam.startsVblank_iff _).mp hstarts
      refine Bool.eq_false_iff.mpr fun hends => ?_
      obtain ⟨hline', -⟩ := (Beam.endsVblank_iff _).mp hends
      omega
    rw [if_pos hstarts, hends]
    exact ⟨(Bool.and_true _).symm, (Bool.and_true _).symm⟩
  · rw [if_neg hstarts]
    cases hends : p.beam.endsVblank with
    | true => exact ⟨(Bool.and_false _).symm, (Bool.and_false _).symm⟩
    | false => exact ⟨(Bool.and_true _).symm, (Bool.and_true _).symm⟩

theorem spriteZeroHit_drawDot (p : Ppu) :
    p.drawDot.spriteZeroHit = true ↔ p.spriteZeroHit = true ∨ p.beam.inPicture ∧
      meetsSpriteZero (p.backgroundPixel (p.beam.dot - 1)) (p.spriteAt (p.beam.dot - 1))
        (p.beam.dot - 1) = true := by
  by_cases hin : p.beam.inPicture
  · rw [drawDot, dif_pos hin, and_iff_right hin]
    exact Bool.or_eq_true_iff
  · rw [drawDot_of_not_inPicture hin]
    exact (or_iff_left fun h => hin h.1).symm

/-- A dot of the picture raises the flag where the sprite of entry 0 meets the background. -/
theorem spriteZeroHit_step {p : Ppu} (hs : Sprite.InOrder p.sprites) (board : μ) :
    (p.step board).spriteZeroHit = true ↔
      (p.spriteZeroHit = true ∨ (p.beam.advance p.rendering).inPicture ∧
        p.HitsSpriteZero ((p.beam.advance p.rendering).dot - 1)) ∧
        (p.beam.advance p.rendering).endsVblank = false := by
  have hbeam : (p.tick.renderDot board).beam = p.beam.advance p.rendering :=
    p.tick.beam_renderDot board
  have hdrawn := (p.tick.drawn_renderDot board).2
  have hrender : (p.tick.renderDot board).spriteZeroHit = true ↔
      p.spriteZeroHit = true ∨ (p.beam.advance p.rendering).inPicture ∧
        p.HitsSpriteZero ((p.beam.advance p.rendering).dot - 1) := by
    by_cases hr : p.rendering = true
    · -- the tick has moved nothing but the beam
      have hmeets := meetsSpriteZero_iff hr hs ((p.beam.advance p.rendering).dot - 1)
      rw [hdrawn.trans (if_pos hr)]
      exact (spriteZeroHit_drawDot p.tick).trans (or_congr Iff.rfl (and_congr Iff.rfl hmeets))
    · rw [hdrawn.trans (if_neg hr)]
      exact (or_iff_left fun h => hr h.2.rendering).symm
  rw [step_eq_stages, (flags_updateVblank _).1, Bool.and_eq_true, hrender, hbeam,
    Bool.not_eq_true']

/-- The sprite of entry 0 is behind the background and another sprite in front of it. -/
example :
    let p : Ppu :=
      { mask := 0x1E
        beam := { dot := 17, scanline := 100 }
        background := { pixels := 0x1111111111111111 }
        sprites := [⟨0x11111111, 16, true, 0⟩, ⟨0x22222222, 16, false, 1⟩] }
    (p.step UxRom.blank).spriteZeroHit = true := by
  decide

/-- More entries cover a line than are drawn, and the search will see them. -/
def Overflows (p : Ppu) (line : Nat) : Prop :=
  p.rendering = true ∧ maxSprites < (p.oam.onLine p.spriteShape.height line).length

theorem spriteOverflow_selectSprites {p : Ppu} (hr : p.rendering = true) (board : μ) :
    (p.selectSprites board).spriteOverflow = true ↔
      p.spriteOverflow = true ∨ (p.beam.scanline < 240 ∧ p.beam.dot = 257) ∧
        p.Overflows p.beam.scanline := by
  unfold selectSprites
  by_cases hd : p.beam.dot = 257
  · rw [if_pos hd]
    by_cases hv : p.beam.visible = true
    · have hline : p.beam.scanline < 240 := of_decide_eq_true hv
      rw [if_pos hv, and_iff_right ⟨hline, hd⟩, Overflows, and_iff_right hr]
      exact (Bool.or_eq_true_iff).trans (or_congr Iff.rfl decide_eq_true_iff)
    · have hline : ¬ p.beam.scanline < 240 := fun h => hv (decide_eq_true h)
      rw [if_neg hv]
      exact (or_iff_left fun h => hline h.1.1).symm
  · rw [if_neg hd]
    exact (or_iff_left fun h => hd h.1.2).symm

/-- The search on a visible line raises the flag if it finds too many entries. -/
theorem spriteOverflow_step (p : Ppu) (board : μ) :
    (p.step board).spriteOverflow = true ↔
      (p.spriteOverflow = true ∨ ((p.beam.advance p.rendering).scanline < 240 ∧
        (p.beam.advance p.rendering).dot = 257) ∧
          p.Overflows (p.beam.advance p.rendering).scanline) ∧
        (p.beam.advance p.rendering).endsVblank = false := by
  have hbeam : (p.tick.renderDot board).beam = p.beam.advance p.rendering :=
    p.tick.beam_renderDot board
  have hrender : (p.tick.renderDot board).spriteOverflow = true ↔
      p.spriteOverflow = true ∨ ((p.beam.advance p.rendering).scanline < 240 ∧
        (p.beam.advance p.rendering).dot = 257) ∧
          p.Overflows (p.beam.advance p.rendering).scanline := by
    by_cases hr : p.rendering = true
    · obtain ⟨_, _, _, _, _, hq⟩ := p.tick.moveDot_fetchDot_drawDot_shape board
      have hsearch := spriteOverflow_selectSprites (p := (p.tick.drawDot.fetchDot board).moveDot)
        (by rw [hq]; exact hr) board
      rw [hq] at hsearch
      rw [renderDot_tick_of_rendering hr, hq]
      exact hsearch
    · rw [renderDot_tick_of_not_rendering hr]
      exact (or_iff_left fun h => hr h.2.1).symm
  rw [step_eq_stages, (flags_updateVblank _).2, Bool.and_eq_true, hrender, hbeam,
    Bool.not_eq_true']

/-! ## The sprites through a run -/

theorem inOrder_after {p : Ppu} (h : Sprite.InOrder p.sprites) (e : Event μ) :
    Sprite.InOrder (p.after e).sprites := by
  cases e with
  | dot board =>
      rw [after]
      rcases p.sprites_step_cases board with ⟨-, he⟩ | ⟨-, -, he⟩ | ⟨-, -, he⟩ <;> rw [he]
      · exact h
      · exact List.Pairwise.nil
      · apply Sprite.inOrder_filterMap_fetch
        exact (Sprite.pairwise_onLine p.oam p.spriteShape.height _).take
  | read | write | storePage | takeNmi | reset =>
      rw [sprites_after rfl]
      exact h

/-- At any time of a run the sprites stand in the order of their entries. -/
theorem inOrder_stateAt (es : List (Event μ)) (n : Nat) : Sprite.InOrder (stateAt es n).sprites :=
  run_invariant (P := fun p => Sprite.InOrder p.sprites) List.Pairwise.nil
    fun e _ _ hp => inOrder_after hp e

/-- Apart from dots nothing touches the flags. -/
theorem flags_after_of_not_dot {p : Ppu} {e : Event μ} (h : e.isDot = false) :
    (p.after e).spriteZeroHit = p.spriteZeroHit ∧
      (p.after e).spriteOverflow = p.spriteOverflow := by
  obtain ⟨_, _, _, _, _, _, _, _, _, _, _, he⟩ := p.after_shape h
  rw [he]
  exact ⟨rfl, rfl⟩

/-! ## The flags through a run -/

/-- A dot of a run draws where the sprite of entry 0 meets the background. -/
def HitsAt (es : List (Event μ)) (n : Nat) : Prop :=
  ∃ f x y, Visits es f x y n ∧ (stateAt es n).HitsSpriteZero x

/-- A dot of a run is the search on a visible line, which finds too many entries. -/
def OverflowsAt (es : List (Event μ)) (n : Nat) : Prop :=
  ∃ f line, line < 240 ∧ MovesTo es f line 257 n ∧ (stateAt es n).Overflows line

/-- A dot of a run clears the flags. -/
def ClearsAt (es : List (Event μ)) (n : Nat) : Prop := ∃ f, MovesTo es f 261 1 n

theorem endsVblank_iff_clearsAt {es : List (Event μ)} {n : Nat} {board : μ}
    (hat : es[n]? = some (.dot board)) :
    (stateAt es (n + 1)).beam.endsVblank = true ↔ ClearsAt es n := by
  rw [Beam.endsVblank_iff]
  constructor
  · rintro ⟨hline, hdot⟩
    exact ⟨_, ⟨board, hat⟩, rfl, hline, hdot⟩
  · rintro ⟨f, h⟩
    exact ⟨h.scanline_eq, h.dot_eq⟩

theorem hitsAt_iff {es : List (Event μ)} {n : Nat} {board : μ}
    (hat : es[n]? = some (.dot board)) :
    HitsAt es n ↔ (stateAt es (n + 1)).beam.inPicture ∧
      (stateAt es n).HitsSpriteZero ((stateAt es (n + 1)).beam.dot - 1) := by
  constructor
  · rintro ⟨f, x, y, hvisit, hhits⟩
    have hx : x.val < 256 := x.isLt
    have hy : y.val < 240 := y.isLt
    rw [Beam.inPicture, hvisit.scanline_eq, hvisit.dot_eq]
    exact ⟨⟨hy, Nat.succ_pos _, hx⟩, hhits⟩
  · rintro ⟨⟨hline, hlow, hhigh⟩, hhits⟩
    have hx : (stateAt es (n + 1)).beam.dot - 1 < frameWidth := by
      unfold frameWidth
      omega
    have hvisit : Visits es _ ⟨_, hx⟩ ⟨_, hline⟩ n :=
      ⟨⟨board, hat⟩, rfl, rfl, (Nat.sub_add_cancel hlow).symm⟩
    exact ⟨_, _, _, hvisit, hhits⟩

theorem overflowsAt_iff {es : List (Event μ)} {n : Nat} {board : μ}
    (hat : es[n]? = some (.dot board)) :
    OverflowsAt es n ↔ ((stateAt es (n + 1)).beam.scanline < 240 ∧
        (stateAt es (n + 1)).beam.dot = 257) ∧
      (stateAt es n).Overflows (stateAt es (n + 1)).beam.scanline := by
  constructor
  · rintro ⟨f, line, hline, hplace, hover⟩
    rw [hplace.scanline_eq, hplace.dot_eq]
    exact ⟨⟨hline, rfl⟩, hover⟩
  · rintro ⟨⟨hline, hdot⟩, hover⟩
    exact ⟨_, _, hline, ⟨⟨board, hat⟩, rfl, rfl, hdot⟩, hover⟩

/-- Lines on which a flag is raised are above the one on which it is cleared. -/
theorem not_clearsAt_of_movesTo {es : List (Event μ)} {f line dot n : Nat} (hline : line < 240)
    (h : MovesTo es f line dot n) : ¬ ClearsAt es n := by
  rintro ⟨_, hclears⟩
  have heq := h.scanline_eq
  rw [hclears.scanline_eq] at heq
  omega

theorem HitsAt.not_clearsAt {es : List (Event μ)} {n : Nat} (h : HitsAt es n) :
    ¬ ClearsAt es n := by
  obtain ⟨_, _, y, hvisit, -⟩ := h
  exact not_clearsAt_of_movesTo y.isLt hvisit

theorem OverflowsAt.not_clearsAt {es : List (Event μ)} {n : Nat} (h : OverflowsAt es n) :
    ¬ ClearsAt es n := by
  obtain ⟨_, _, hline, hplace, -⟩ := h
  exact not_clearsAt_of_movesTo hline hplace

/-- A flag that is raised or kept, and not cleared: if raising excludes clearing, raising comes
first. -/
theorem raised_iff {flag raised cleared : Prop} (h : raised → ¬ cleared) :
    (flag ∨ raised) ∧ ¬ cleared ↔ raised ∨ flag ∧ ¬ cleared := by
  constructor
  · rintro ⟨hflag | hraised, hkept⟩
    · exact .inr ⟨hflag, hkept⟩
    · exact .inl hraised
  · rintro (hraised | ⟨hflag, hkept⟩)
    · exact ⟨.inr hraised, h hraised⟩
    · exact ⟨.inl hflag, hkept⟩

/-- What one event of a run does to the flags. -/
theorem flags_stateAt_succ {es : List (Event μ)} {n : Nat} (hn : n < es.length) :
    ((stateAt es (n + 1)).spriteZeroHit = true ↔
        HitsAt es n ∨ (stateAt es n).spriteZeroHit = true ∧ ¬ ClearsAt es n) ∧
      ((stateAt es (n + 1)).spriteOverflow = true ↔
        OverflowsAt es n ∨ (stateAt es n).spriteOverflow = true ∧ ¬ ClearsAt es n) := by
  have hat : es[n]? = some es[n] := List.getElem?_eq_getElem hn
  cases hd : es[n].isDot with
  | true =>
      obtain ⟨board, hdot⟩ : ∃ board, es[n] = .dot board := by
        cases h : es[n] with
        | dot board => exact ⟨board, rfl⟩
        | read | write | storePage | takeNmi | reset =>
            rw [h] at hd
            cases hd
      rw [hdot] at hat
      obtain ⟨hnext, hbeam⟩ := stateAt_succ_of_dot hat
      have hhit := spriteZeroHit_step (inOrder_stateAt es n) board
      have hover := spriteOverflow_step (stateAt es n) board
      rw [← hnext, ← hbeam, ← Bool.not_eq_true, endsVblank_iff_clearsAt hat] at hhit hover
      rw [← hitsAt_iff hat] at hhit
      rw [← overflowsAt_iff hat] at hover
      exact ⟨hhit.trans (raised_iff HitsAt.not_clearsAt),
        hover.trans (raised_iff OverflowsAt.not_clearsAt)⟩
  | false =>
      have hno : ∀ {f line dot}, ¬ MovesTo es f line dot n := by
        intro f line dot h
        obtain ⟨board, hdot⟩ := h.isDot
        rw [hat, Option.some.injEq] at hdot
        rw [hdot] at hd
        cases hd
      have hclears : ¬ ClearsAt es n := fun ⟨_, h⟩ => hno h
      have hhits : ¬ HitsAt es n := fun ⟨_, _, _, h, _⟩ => hno h
      have hovers : ¬ OverflowsAt es n := fun ⟨_, _, _, h, _⟩ => hno h
      obtain ⟨hhit, hover⟩ := flags_after_of_not_dot (p := stateAt es n) hd
      rw [stateAt_succ es hn, hhit, hover]
      simp [hclears, hhits, hovers]

/-- Something has happened before an index of a run, and nothing has undone it since. -/
def SetSince (sets clears : Nat → Prop) (n : Nat) : Prop :=
  ∃ i, i < n ∧ sets i ∧ ∀ k, i < k → k < n → ¬ clears k

theorem setSince_succ_iff (sets clears : Nat → Prop) (n : Nat) :
    SetSince sets clears (n + 1) ↔ sets n ∨ SetSince sets clears n ∧ ¬ clears n := by
  constructor
  · rintro ⟨i, hi, hset, hkept⟩
    rcases Nat.lt_or_eq_of_le (Nat.le_of_lt_succ hi) with hlt | rfl
    · right
      exact ⟨⟨i, hlt, hset, fun k hik hkn => hkept k hik (Nat.lt_succ_of_lt hkn)⟩,
        hkept n hlt (Nat.lt_succ_self n)⟩
    · exact .inl hset
  · rintro (hset | ⟨⟨i, hi, hset, hkept⟩, hlast⟩)
    · refine ⟨n, Nat.lt_succ_self n, hset, fun k hnk hk => ?_⟩
      exact absurd hnk (Nat.not_lt.mpr (Nat.le_of_lt_succ hk))
    · refine ⟨i, Nat.lt_succ_of_lt hi, hset, fun k hik hk => ?_⟩
      rcases Nat.lt_or_eq_of_le (Nat.le_of_lt_succ hk) with hlt | rfl
      · exact hkept k hik hlt
      · exact hlast

/-- A flag that is clear at first and follows its events tells whether it has been set since. -/
theorem flag_iff_setSince {flag : Nat → Bool} {sets clears : Nat → Prop} {last : Nat}
    (hfirst : flag 0 = false)
    (hstep : ∀ n, n < last → (flag (n + 1) = true ↔ sets n ∨ flag n = true ∧ ¬ clears n)) :
    ∀ n, n ≤ last → (flag n = true ↔ SetSince sets clears n) := by
  intro n hn
  induction n with
  | zero =>
      rw [hfirst]
      exact ⟨nofun, fun ⟨_, hlt, _⟩ => absurd hlt (Nat.not_lt_zero _)⟩
  | succ n ih => rw [hstep n hn, setSince_succ_iff, ih (Nat.le_of_succ_le hn)]

/-! ## What the sprites show -/

/-- A sprite is the row that the search at a dot of a run decoded for its entry, on a visible line
and while something was rendered. -/
def DecodedAt (es : List (Event μ)) (s : Sprite) (i : Nat) : Prop :=
  ∃ board f line, es[i]? = some (.dot board) ∧ line < 240 ∧ MovesTo es f line 257 i ∧
    (stateAt es i).rendering = true ∧
    Sprite.fetch? (stateAt es i).vram board (stateAt es i).spriteShape (stateAt es i).oam line
      s.entry = some s

/-- Every sprite has been decoded before, whatever has been written since. -/
theorem decoded_stateAt {es : List (Event μ)} {n : Nat} (hn : n ≤ es.length) {s : Sprite}
    (hs : s ∈ (stateAt es n).sprites) : ∃ i, i < n ∧ DecodedAt es s i := by
  induction n with
  | zero => cases hs
  | succ n ih =>
      have hearlier : s ∈ (stateAt es n).sprites → ∃ i, i < n + 1 ∧ DecodedAt es s i := by
        intro hs
        obtain ⟨i, hi, hdecoded⟩ := ih (Nat.le_of_succ_le hn) hs
        exact ⟨i, Nat.lt_succ_of_lt hi, hdecoded⟩
      have hat : es[n]? = some es[n] := List.getElem?_eq_getElem hn
      cases hd : es[n] with
      | dot board =>
          rw [hd] at hat
          obtain ⟨hnext, hbeam⟩ := stateAt_succ_of_dot hat
          rw [hnext] at hs
          rcases (stateAt es n).sprites_step_cases board with
            ⟨-, he⟩ | ⟨-, -, he⟩ | ⟨⟨hr, hdot⟩, hline, he⟩
          · exact hearlier (he ▸ hs)
          · rw [he] at hs
            cases hs
          · rw [← hbeam] at he hline hdot
            rw [he] at hs
            obtain ⟨entry, -, hfetch⟩ := List.mem_filterMap.mp hs
            have hentry : s.entry = entry := Sprite.entry_of_fetch hfetch
            exact ⟨n, Nat.lt_succ_self n, board, _, _, hat, hline, ⟨⟨board, hat⟩, rfl, rfl, hdot⟩,
              hr, hentry ▸ hfetch⟩
      | read | write | storePage | takeNmi | reset =>
          refine hearlier ?_
          rw [stateAt_succ es hn, sprites_after (by rw [hd]; rfl)] at hs
          exact hs

/-! ## A sprite that meets a tile -/

/-- The search finds the sprite of entry 0, which is opaque at column 3. -/
theorem found_spriteOnTile : ∃ s ∈ (shown UxRom.numbered spriteOnTile 0x1E 598).sprites,
    s.entry = 0 ∧ (s.pixelAt 3).toNat = 7 := by
  have hscene := sameScene_shown UxRom.numbered spriteOnTile 0x1E 597
  have hmask := mask_shown UxRom.numbered spriteOnTile 0x1E 597
  have hfault := fault_shown UxRom.numbered spriteOnTile 0x1E 598 UxRom.completeChr_numbered
  have hsearch : shown UxRom.numbered spriteOnTile 0x1E 598 =
      (shown UxRom.numbered spriteOnTile 0x1E 597).step UxRom.numbered :=
    shown_succ UxRom.numbered spriteOnTile 0x1E 597
  obtain ⟨hd, hl⟩ := search_spriteOnTile
  rw [hsearch] at hd hl hfault ⊢
  generalize shown UxRom.numbered spriteOnTile 0x1E 597 = p at *
  obtain ⟨hr, -⟩ := shows_of_mask hmask
  rw [beam_step] at hd hl
  obtain ⟨hsprites, hfound⟩ := sprites_step_of_visible hr hd hl (by decide) hfault
  obtain ⟨rest, hfirst⟩ := onLine_spriteOnTile hscene
  have hmem : 0 ∈ p.selected 0 := by
    rw [selected, hfirst]
    exact List.mem_cons_self
  obtain ⟨s, hs⟩ := Option.isSome_iff_exists.mp (hfound 0 hmem)
  have hcovers : p.oam.covers p.spriteShape.height 0 0 = true :=
    (List.mem_filter.mp (List.mem_of_mem_take hmem)).2
  obtain ⟨hpixel, -, hentry⟩ := Sprite.pixelAt_of_fetch hcovers hs
  refine ⟨s, ?_, hentry, (hpixel 3).trans (pixelAt_spriteOnTile hscene)⟩
  rw [hsprites]
  exact List.mem_filterMap.mpr ⟨0, hmem, hs⟩

/-- The sprites stay up to the pixel. -/
theorem sprites_spriteOnTile : (shown UxRom.numbered spriteOnTile 0x1E 685).sprites =
    (shown UxRom.numbered spriteOnTile 0x1E 598).sprites := by
  have hw : (shown UxRom.numbered spriteOnTile 0x1E 598).beam.WellTimed := by
    rw [shown]
    exact wellTimed_run (reset_notMem_pictureRun _ _ _ _) wellTimed_powerOn
  have hlater : shown UxRom.numbered spriteOnTile 0x1E 685 =
      run (.replicate 87 (.dot UxRom.numbered)) (shown UxRom.numbered spriteOnTile 0x1E 598) := by
    rw [run_replicate_dot, ← shown_add]
  have hnext : (shown UxRom.numbered spriteOnTile 0x1E 685).step UxRom.numbered =
      shown UxRom.numbered spriteOnTile 0x1E 686 :=
    (shown_succ UxRom.numbered spriteOnTile 0x1E 685).symm
  have hdots : Event.dots (.replicate 87 (.dot UxRom.numbered)) < dotsPerScanline := by
    rw [Event.dots_replicate]
    decide
  obtain ⟨hd, hl⟩ := search_spriteOnTile
  obtain ⟨-, -, hend⟩ := place_shown UxRom.numbered spriteOnTile 0x1E 686 (by omega)
  rw [← hnext, hlater] at hend
  rw [hlater]
  exact sprites_run_of_search (y := 1) (Event.reset_notMem_replicate _ _) hdots hw (by decide) hd hl
    (by rw [hend]; decide)

/-- The next dot draws there, where the background is opaque too. -/
theorem hitsSpriteZero_spriteOnTile :
    (shown UxRom.numbered spriteOnTile 0x1E 685).HitsSpriteZero 3 := by
  have hmask := mask_shown UxRom.numbered spriteOnTile 0x1E 685
  have hdigit := backgroundDigit_spriteOnTile
  obtain ⟨s, hs, hentry, hpixel⟩ := found_spriteOnTile
  rw [← sprites_spriteOnTile] at hs
  generalize shown UxRom.numbered spriteOnTile 0x1E 685 = p at *
  obtain ⟨hr, hbackground, hleft, hsprites, hleftSprites⟩ := shows_of_mask hmask
  rw [backgroundDigit, if_pos hbackground] at hdigit
  refine ⟨hr, by decide, ⟨hbackground, fun _ => hleft⟩, ?_, ⟨hsprites, fun _ => hleftSprites⟩,
    s, hs, congrArg Fin.val hentry, ?_⟩
  · rw [Pattern.opaquePixel_eq, hdigit]
    decide
  · rw [Pattern.opaquePixel_eq, hpixel]
    decide

/-! ## The law of the flags -/

/-- The sprites and their flags at any time of a run. -/
structure SpriteFlagLaw (es : List (Event μ)) : Prop where
  /-- The sprites stand in the order of their entries. -/
  ordered : ∀ n, Sprite.InOrder (stateAt es n).sprites
  /-- Each of them shows the row that an earlier search has decoded for its entry. -/
  decoded : ∀ n, n ≤ es.length → ∀ s ∈ (stateAt es n).sprites, ∃ i, i < n ∧ DecodedAt es s i
  /-- A dot that draws at a column sets the hit flag if the sprite of entry 0 meets the background
  there, and otherwise leaves it. -/
  hit_at_pixel : ∀ f x y n, Visits es f x y n →
    ((stateAt es (n + 1)).spriteZeroHit = true ↔
      (stateAt es n).spriteZeroHit = true ∨ (stateAt es n).HitsSpriteZero x)
  /-- The hit flag is set from a dot that draws such a pixel to the end of the vertical blank. -/
  hit_since : ∀ n, n ≤ es.length →
    ((stateAt es n).spriteZeroHit = true ↔ SetSince (HitsAt es) (ClearsAt es) n)
  /-- The overflow flag is set from a search that finds too many entries to the end of the vertical
  blank. -/
  overflow_since : ∀ n, n ≤ es.length →
    ((stateAt es n).spriteOverflow = true ↔ SetSince (OverflowsAt es) (ClearsAt es) n)
  /-- The end of the vertical blank clears both. -/
  cleared : ∀ n, ClearsAt es n →
    (stateAt es (n + 1)).spriteZeroHit = false ∧ (stateAt es (n + 1)).spriteOverflow = false
  /-- Nothing but dots changes either. -/
  kept : ∀ n (e : Event μ), es[n]? = some e → e.isDot = false →
    (stateAt es (n + 1)).spriteZeroHit = (stateAt es n).spriteZeroHit ∧
      (stateAt es (n + 1)).spriteOverflow = (stateAt es n).spriteOverflow

theorem hit_of_visits {es : List (Event μ)} {f n : Nat} {x : Fin frameWidth} {y : Fin frameHeight}
    (h : Visits es f x y n) :
    (stateAt es (n + 1)).spriteZeroHit = true ↔
      (stateAt es n).spriteZeroHit = true ∨ (stateAt es n).HitsSpriteZero x := by
  have hhits : HitsAt es n ↔ (stateAt es n).HitsSpriteZero x := by
    constructor
    · rintro ⟨f', x', y', hvisit, hhits⟩
      have hx : x'.val + 1 = x.val + 1 := hvisit.dot_eq.symm.trans h.dot_eq
      rw [← Nat.succ.inj hx]
      exact hhits
    · exact fun hhits => ⟨f, x, y, h, hhits⟩
  have hclears : ¬ ClearsAt es n := not_clearsAt_of_movesTo y.isLt h
  rw [(flags_stateAt_succ h.lt_length).1, hhits, and_iff_left hclears]
  exact or_comm

theorem flags_of_clearsAt {es : List (Event μ)} {n : Nat} (h : ClearsAt es n) :
    (stateAt es (n + 1)).spriteZeroHit = false ∧ (stateAt es (n + 1)).spriteOverflow = false := by
  obtain ⟨f, hplace⟩ := h
  obtain ⟨hhit, hover⟩ := flags_stateAt_succ hplace.lt_length
  have hnone : ∀ {raised flag : Prop}, (raised → ¬ ClearsAt es n) →
      ¬ (raised ∨ flag ∧ ¬ ClearsAt es n) := by
    rintro raised flag hraised (hr | ⟨-, hc⟩)
    · exact hraised hr ⟨f, hplace⟩
    · exact hc ⟨f, hplace⟩
  rw [← Bool.not_eq_true, ← Bool.not_eq_true, hhit, hover]
  exact ⟨hnone HitsAt.not_clearsAt, hnone OverflowsAt.not_clearsAt⟩

/-- **The sprite flags.** In every run from power-on, of dots, accesses, stored pages, interrupts
taken and resets in any order, the sprites and their flags follow the law. -/
theorem spriteFlags (es : List (Event μ)) : SpriteFlagLaw es where
  ordered := inOrder_stateAt es
  decoded _ hn _ hs := decoded_stateAt hn hs
  hit_at_pixel _ _ _ _ h := hit_of_visits h
  hit_since := flag_iff_setSince rfl fun _ hn => (flags_stateAt_succ hn).1
  overflow_since := flag_iff_setSince rfl fun _ hn => (flags_stateAt_succ hn).2
  cleared _ h := flags_of_clearsAt h
  kept n e he hdot := by
    obtain ⟨hn, hget⟩ := List.getElem?_eq_some_iff.mp he
    rw [stateAt_succ es hn, hget]
    exact flags_after_of_not_dot hdot

/-- A dot raises the hit flag. -/
theorem spriteFlags_spriteOnTile :
    let es := pictureRun UxRom.numbered spriteOnTile 0x1E 686
    let n := (pictureRun UxRom.numbered spriteOnTile 0x1E 685).length
    Visits es 1 ⟨3, by decide⟩ ⟨1, by decide⟩ n ∧ (stateAt es n).HitsSpriteZero 3 ∧
      (stateAt es (n + 1)).spriteZeroHit = true := by
  intro es n
  have hes : es = pictureRun UxRom.numbered spriteOnTile 0x1E 685 ++ [.dot UxRom.numbered] :=
    pictureRun_add UxRom.numbered spriteOnTile 0x1E 685 1
  have hn : n = (pictureRun UxRom.numbered spriteOnTile 0x1E 685).length := rfl
  clear_value es n
  have hat : es[n]? = some (.dot UxRom.numbered) := by
    rw [hes, hn]
    exact List.getElem?_concat_length
  have hbefore : stateAt es n = shown UxRom.numbered spriteOnTile 0x1E 685 := by
    rw [stateAt, hes, hn, List.take_left, shown]
  have hafter : stateAt es (n + 1) = shown UxRom.numbered spriteOnTile 0x1E 686 := by
    rw [(stateAt_succ_of_dot hat).1, hbefore, ← shown_succ]
  have hplace := place_shown UxRom.numbered spriteOnTile 0x1E 686 (by omega)
  rw [← hafter] at hplace
  have hvisit : Visits es 1 ⟨3, by decide⟩ ⟨1, by decide⟩ n :=
    ⟨⟨_, hat⟩, hplace.1, hplace.2.1, hplace.2.2⟩
  have hhits : (stateAt es n).HitsSpriteZero 3 := hbefore.symm ▸ hitsSpriteZero_spriteOnTile
  exact ⟨hvisit, hhits, ((spriteFlags es).hit_at_pixel _ _ _ _ hvisit).mpr (.inr hhits)⟩

end Ppu

end Nes
