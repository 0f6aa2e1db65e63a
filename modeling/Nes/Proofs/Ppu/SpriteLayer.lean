import Nes.Proofs.Ppu.BackgroundLayer
import Nes.Proofs.Ppu.SpriteRow

/-!
# The picture as two layers

The sprites of a line are found on the line before, at dot 257, and drawn from there on until the
next search. In between the CPU may write what it likes, also into sprite memory: what is drawn is
sprite memory as the search found it (`step_draws_layers`).

That no other search comes between follows from the beam alone. It is followed from dot 257 of one
line to the end of the picture on the next (`SinceSearch`), over a skipped dot too.
-/

set_option autoImplicit false

namespace Nes

/-! ## From the search to the line it is for -/

namespace Beam

/-- The line before a visible one. Above the first one is the line that prepares the frame. -/
def lineBefore (line : Nat) : Nat := if line = 0 then preRenderLine else line - 1

/-- So many dots ago the beam was at dot 257 of the line before. Above the first line, one dot may
have been skipped since. -/
def SinceSearch (line n : Nat) (b : Beam) : Prop :=
  (b.scanline = lineBefore line ∧ b.dot = 257 + n) ∨
    (b.scanline = line ∧ (b.dot + 84 = n ∨ line = 0 ∧ b.dot + 83 = n))

theorem SinceSearch.advance {line n : Nat} {b : Beam} (h : SinceSearch line n b)
    (hline : line < 240) (hdot : b.dot ≤ 340) (hn : n ≤ 340) (rendering : Bool) :
    SinceSearch line (n + 1) (b.advance rendering) := by
  simp only [SinceSearch, lineBefore, preRenderLine] at h ⊢
  rcases b.advance_cases rendering with ⟨hs, he⟩ | ⟨hs, hd, he⟩ | ⟨hd, hl, he⟩ | ⟨hd, hl, he⟩
  · -- the last dot of the line before is skipped
    obtain ⟨-, -, hl, hd⟩ := hs
    rw [he]
    right
    simp only [Beam.nextFrame]
    split at h <;> omega
  · rw [he]
    rcases h with h | h
    · left
      exact ⟨h.1, by simp only; omega⟩
    · right
      exact ⟨h.1, by simp only; omega⟩
  · rw [he]
    right
    simp only
    split at h <;> omega
  · rw [he]
    right
    simp only [Beam.nextFrame]
    split at h <;> omega

end Beam

namespace Ppu

variable {μ : Type} [Board μ]

/-! ## The search -/

/-- The entries drawn on the line after one, as sprite memory and the control register are. -/
def selected (p : Ppu) (line : Nat) : List (Fin 64) :=
  (p.oam.onLine p.spriteShape.height line).take maxSprites

/-- While something is rendered, the search at the end of a dot leaves its sprites. Up to there the
dot has changed nothing that the search looks at. -/
theorem step_search {p : Ppu} (hr : p.rendering = true) (board : μ) :
    ∃ q : Ppu, (p.step board).sprites = (q.selectSprites board).sprites ∧
      (p.step board).fault = (q.selectSprites board).fault ∧
      q.beam = p.beam.advance p.rendering ∧ q.sprites = p.sprites ∧ q.vram = p.vram ∧
      q.oam = p.oam ∧ q.spriteShape = p.spriteShape := by
  obtain ⟨_, _, _, _, _, hu⟩ := (p.tick.renderDot board).updateVblank_shape
  obtain ⟨_, _, _, _, _, hq⟩ := p.tick.moveDot_fetchDot_drawDot_shape board
  have hrender := renderDot_tick_of_rendering hr board
  refine ⟨(p.tick.drawDot.fetchDot board).moveDot, ?_, ?_, ?_⟩
  · rw [step_eq_stages, hu, hrender]
  · rw [step_eq_stages, hu, hrender]
  · rw [hq]
    exact ⟨rfl, rfl, rfl, rfl, rfl⟩

/-- All that a dot can do to the sprites: unless it is a search it leaves them, and a search drops
them outside the visible lines and replaces them by those it finds on one. -/
theorem sprites_step_cases (p : Ppu) (board : μ) :
    (¬ (p.rendering = true ∧ (p.beam.advance p.rendering).dot = 257) ∧
        (p.step board).sprites = p.sprites) ∨
      ((p.rendering = true ∧ (p.beam.advance p.rendering).dot = 257) ∧
        ¬ (p.beam.advance p.rendering).scanline < 240 ∧ (p.step board).sprites = []) ∨
      (p.rendering = true ∧ (p.beam.advance p.rendering).dot = 257) ∧
        (p.beam.advance p.rendering).scanline < 240 ∧
        (p.step board).sprites = (p.selected (p.beam.advance p.rendering).scanline).filterMap
          (Sprite.fetch? p.vram board p.spriteShape p.oam (p.beam.advance p.rendering).scanline) := by
  by_cases hr : p.rendering = true
  · obtain ⟨q, he, -, hbeam, hsprites, hvram, hoam, hshape⟩ := step_search hr board
    rw [← hbeam, he, selectSprites]
    by_cases hd : q.beam.dot = 257
    · rw [if_pos hd]
      by_cases hline : q.beam.scanline < 240
      · have hv : q.beam.visible = true := decide_eq_true hline
        rw [if_pos hv, evaluateSprites, hvram, hoam, hshape]
        exact .inr (.inr ⟨⟨hr, hd⟩, hline, List.filterMap_map ..⟩)
      · have hv : ¬ q.beam.visible = true := fun hv => hline (of_decide_eq_true hv)
        rw [if_neg hv]
        exact .inr (.inl ⟨⟨hr, hd⟩, hline, rfl⟩)
    · rw [if_neg hd]
      exact .inl ⟨fun h => hd h.2, hsprites⟩
  · obtain ⟨_, _, _, _, _, hu⟩ := (p.tick.renderDot board).updateVblank_shape
    rw [step_eq_stages, hu, renderDot_tick_of_not_rendering hr]
    exact .inl ⟨fun h => hr h.1, rfl⟩

/-- A dot changes the sprites only if it is the one of the search. -/
theorem sprites_step_of_dot_ne (p : Ppu) (board : μ) (h : (p.beam.advance p.rendering).dot ≠ 257) :
    (p.step board).sprites = p.sprites := by
  rcases p.sprites_step_cases board with ⟨-, he⟩ | ⟨⟨-, hd⟩, -⟩ | ⟨⟨-, hd⟩, -⟩
  · exact he
  · exact absurd hd h
  · exact absurd hd h

/-- On a visible line the search finds the selected entries. If no byte of their shapes is missing,
each of them becomes a sprite. -/
theorem sprites_step_of_visible {p : Ppu} {board : μ} {line : Nat} (hr : p.rendering = true)
    (hd : (p.beam.advance p.rendering).dot = 257)
    (hl : (p.beam.advance p.rendering).scanline = line) (hline : line < 240)
    (hf : (p.step board).fault = false) :
    (p.step board).sprites =
        (p.selected line).filterMap (Sprite.fetch? p.vram board p.spriteShape p.oam line) ∧
      ∀ entry ∈ p.selected line,
        (Sprite.fetch? p.vram board p.spriteShape p.oam line entry).isSome = true := by
  obtain ⟨q, he, hfe, hbeam, -, hvram, hoam, hshape⟩ := step_search hr board
  rw [← hbeam] at hd hl
  have hv : q.beam.visible = true := by
    rw [Beam.visible, hl]
    exact decide_eq_true hline
  rw [hfe, selectSprites, if_pos hd, if_pos hv, evaluateSprites, hl, hvram, hoam, hshape] at hf
  rw [he, selectSprites, if_pos hd, if_pos hv, evaluateSprites, hl, hvram, hoam, hshape]
  refine ⟨List.filterMap_map .., fun entry hentry => ?_⟩
  have hfound := (Bool.or_eq_false_iff.mp hf).2
  have hsome := List.any_eq_false.mp hfound _ (List.mem_map_of_mem hentry)
  exact Option.isSome_iff_ne_none.mpr fun hnone => hsome (by rw [hnone]; rfl)

/-- Above the first visible line there are no sprites to find. -/
theorem sprites_step_of_preRender {p : Ppu} (board : μ) (hr : p.rendering = true)
    (hd : (p.beam.advance p.rendering).dot = 257)
    (hl : (p.beam.advance p.rendering).scanline = preRenderLine) :
    (p.step board).sprites = [] := by
  rcases p.sprites_step_cases board with ⟨hno, -⟩ | ⟨-, -, he⟩ | ⟨-, hline, -⟩
  · exact absurd ⟨hr, hd⟩ hno
  · exact he
  · rw [hl] at hline
    exact absurd hline (by decide)

/-! ## From the search to the pixel -/

theorem sprites_after {p : Ppu} {e : Event μ} (he : e.isDot = false) :
    (p.after e).sprites = p.sprites := by
  obtain ⟨_, _, _, _, _, _, _, _, _, _, _, h⟩ := p.after_shape he
  rw [h]

/-- What an event does to the beam since the search, and to the sprites as long as the next search
is not due. -/
theorem sinceSearch_after {p : Ppu} {line n : Nat} (hw : p.beam.WellTimed) (hline : line < 240)
    (h : p.beam.SinceSearch line n) {e : Event μ} (he : e ≠ .reset)
    (hn : n + (if e.isDot then 1 else 0) ≤ 341) :
    (p.after e).beam.SinceSearch line (n + if e.isDot then 1 else 0) ∧
      (n + (if e.isDot then 1 else 0) ≤ 339 → (p.after e).sprites = p.sprites) := by
  cases e with
  | dot board =>
      have hnext := h.advance hline hw.dot_le (Nat.le_of_succ_le_succ hn) p.rendering
      refine ⟨(p.beam_step board).symm ▸ hnext, fun hn' => sprites_step_of_dot_ne p board ?_⟩
      have hlt : n + 1 ≤ 339 := hn'
      rcases hnext with ⟨-, hd⟩ | ⟨-, hd⟩ <;> omega
  | reset => exact absurd rfl he
  | read | write | storePage | takeNmi =>
      refine ⟨?_, fun _ => sprites_after rfl⟩
      rw [beam_after]
      exact h

/-- Induction over a run that ends before the next search. -/
theorem sinceSearch_run {es : List (Event μ)} (hes : Event.reset ∉ es) {p : Ppu} {line n : Nat}
    (hw : p.beam.WellTimed) (hline : line < 240) (h : p.beam.SinceSearch line n)
    (hn : n + Event.dots es ≤ 341) :
    (run es p).beam.SinceSearch line (n + Event.dots es) ∧
      (n + Event.dots es ≤ 339 → (run es p).sprites = p.sprites) := by
  induction es generalizing p n with
  | nil => exact ⟨h, fun _ => rfl⟩
  | cons e es ih =>
      have he : e ≠ .reset := fun h' => hes (h' ▸ List.mem_cons_self)
      have htail : Event.reset ∉ es := fun h' => hes (List.mem_cons_of_mem e h')
      rw [Event.dots_cons, ← Nat.add_assoc] at hn ⊢
      obtain ⟨hbeam, hsprites⟩ := sinceSearch_after hw hline h he (by omega)
      obtain ⟨hrun, hkept⟩ := ih htail (wellTimed_after hw he) hbeam hn
      refine ⟨hrun, fun hn' => ?_⟩
      rw [run_cons, hkept hn', hsprites (by omega)]

/-! ## A picture with a sprite on a tile -/

/-- Writes that put a sprite, of palette group 1, before a tile of palette group 2 in the upper left
corner, and a colour for each. -/
def spriteOnTile : List (UInt16 × UInt8) :=
  [(0x2004, 0x00), (0x2004, 0x01), (0x2004, 0x01), (0x2004, 0x00), (0x2006, 0x20), (0x2006, 0x00),
    (0x2007, 0x01), (0x2006, 0x23), (0x2006, 0xC0), (0x2007, 0x02), (0x2006, 0x3F), (0x2006, 0x0B),
    (0x2007, 0x16), (0x2006, 0x3F), (0x2006, 0x17), (0x2007, 0x2A), (0x2006, 0x00), (0x2006, 0x00)]

section SpriteOnTile

variable {p : Ppu} (h : SameScene (run (writes UxRom.numbered spriteOnTile) powerOn) p)

include h

theorem vram_spriteOnTile : p.vram = (((Vram.blank.writeNametable .horizontal 0x2000
    0x01).writeNametable .horizontal 0x23C0 0x02).writePalette 0x3F0B 0x16).writePalette 0x3F17
    0x2A :=
  h.vram

theorem spriteShape_spriteOnTile : p.spriteShape = ⟨false, false⟩ := by
  rw [spriteShape, h.ctrl]
  decide

/-- The pixel of the tile in its row 1 and column 3, where both planes have 1. -/
theorem planePixel_spriteOnTile : p.planePixel UxRom.numbered 3 1 = 11 := by
  have hvram := vram_spriteOnTile h
  have htable : p.backgroundTable = false := by
    rw [backgroundTable, h.ctrl]
    decide
  have htile : p.peek UxRom.numbered 0x2000 = 0x01 := by
    rw [peek_nametable _ _ _ (by decide) (by decide), hvram, UxRom.mirroring_numbered,
      Vram.readNametable_writePalette, Vram.readNametable_writePalette,
      Vram.readNametable_writeNametable, if_neg (by decide), Vram.readNametable_writeNametable,
      if_pos rfl]
  have hattributes : p.peek UxRom.numbered 0x23C0 = 0x02 := by
    rw [peek_nametable _ _ _ (by decide) (by decide), hvram, UxRom.mirroring_numbered,
      Vram.readNametable_writePalette, Vram.readNametable_writePalette,
      Vram.readNametable_writeNametable, if_pos rfl]
  have hlow : p.peek UxRom.numbered 0x11 = 0x11 := p.peek_numbered (by decide)
  have hhigh : p.peek UxRom.numbered 0x19 = 0x19 := p.peek_numbered (by decide)
  rw [planePixel, htable]
  show Background.groupBits (p.peek UxRom.numbered 0x23C0) 0 0 * 4 + Pattern.bitPair
    (p.peek _ (UInt16.ofNat (0 + 16 * (p.peek UxRom.numbered 0x2000).toNat + 1)))
    (p.peek _ (UInt16.ofNat (0 + 16 * (p.peek UxRom.numbered 0x2000).toNat + 1 + 8))) 4 = 11
  rw [htile, hattributes]
  show 8 + Pattern.bitPair (p.peek _ 0x11) (p.peek _ 0x19) 4 = 11
  rw [hlow, hhigh]
  rfl

/-- The colour of the pixel that the sprite has there. -/
theorem readPalette_spriteOnTile : p.readPalette 0x17 = 0x2A := by
  rw [readPalette, vram_spriteOnTile h, Vram.readPalette_writePalette, if_pos (by decide)]

/-- All entries cover line 0, and the first of them is the sprite. -/
theorem onLine_spriteOnTile :
    ∃ rest, (p.oam.onLine p.spriteShape.height 0).take maxSprites = 0 :: rest := by
  rw [spriteShape_spriteOnTile h, h.oam]
  exact ⟨_, rfl⟩

/-- The pixel of the sprite in its row 0 and column 3, where both planes have 1. -/
theorem pixelAt_spriteOnTile : p.oam.pixelAt UxRom.numbered p.spriteShape 0 0 3 = 7 := by
  have haddress : p.oam.planeAddress ⟨false, false⟩ 0 0 = 0x10 := by
    rw [h.oam]
    decide
  have hleft : p.oam.left 0 = 0 := by
    rw [h.oam]
    decide
  have hattributes : p.oam.attributes 0 = 1 := by
    rw [h.oam]
    decide
  simp only [Oam.pixelAt, spriteShape_spriteOnTile h, haddress, hleft, hattributes,
    chrByte_numbered (show 0x10 < 0x2000 by decide),
    chrByte_numbered (show 0x10 + 8 < 0x2000 by decide)]
  decide

theorem layer_spriteOnTile :
    p.oam.layer UxRom.numbered p.spriteShape 0 3 = some (7, false) := by
  have hattributes : p.oam.attributes 0 = 1 := by
    rw [h.oam]
    decide
  have hpixel := pixelAt_spriteOnTile h
  rw [Oam.layer_of_first (onLine_spriteOnTile h) (by rw [hpixel]; decide), hpixel, hattributes]
  rfl

end SpriteOnTile

/-- With both layers switched on, in the left columns too, everything is shown. -/
theorem shows_of_mask {p : Ppu} (h : p.mask = 0x1E) :
    p.rendering = true ∧ p.showsBackground = true ∧ p.showsLeftBackground = true ∧
      p.showsSprites = true ∧ p.showsLeftSprites = true := by
  simp only [rendering, showsBackground, showsLeftBackground, showsSprites, showsLeftSprites, h]
  decide

/-- The dot after 597 is the search on line 0. -/
theorem search_spriteOnTile :
    (shown UxRom.numbered spriteOnTile 0x1E 598).beam.dot = 257 ∧
      (shown UxRom.numbered spriteOnTile 0x1E 598).beam.scanline = 0 := by
  obtain ⟨-, hline, hdot⟩ := place_shown UxRom.numbered spriteOnTile 0x1E 598 (by omega)
  exact ⟨hdot, hline⟩

theorem backgroundDigit_tick (p : Ppu) : p.tick.backgroundDigit = p.backgroundDigit := rfl

/-- The dot after 685 draws the pixel at column 3 of line 1. -/
theorem backgroundDigit_spriteOnTile :
    (shown UxRom.numbered spriteOnTile 0x1E 685).backgroundDigit.toNat = 11 := by
  have hscene := sameScene_shown UxRom.numbered spriteOnTile 0x1E 0
  have hmask := mask_shown UxRom.numbered spriteOnTile 0x1E 0
  have hfault := fault_shown UxRom.numbered spriteOnTile 0x1E 685 UxRom.completeChr_numbered
  have hdraws := draws_shown UxRom.numbered spriteOnTile 0x1E (x := 3) (y := 1) (by decide)
    (by decide)
  have hlater := shown_add UxRom.numbered spriteOnTile 0x1E 0 685
  obtain ⟨-, hline, hdot⟩ := place_shown UxRom.numbered spriteOnTile 0x1E 0 (by decide)
  have hbound : (shown UxRom.numbered spriteOnTile 0x1E 0).scroll.Bounded := by
    rw [shown]
    exact bounded_run _
  rw [Nat.zero_add] at hlater
  rw [hlater] at hfault ⊢
  generalize shown UxRom.numbered spriteOnTile 0x1E 0 = p at *
  obtain ⟨-, hshows, -⟩ := shows_of_mask hmask
  have ht : p.scroll.t = 0 := hscene.t
  have hfine : p.scroll.fineX = 0 := hscene.fineX
  have hdigit := hdraws.toNat_backgroundDigit hline (by omega) hshows hbound (by rw [ht]; decide)
    (fun _ => ⟨rfl, rfl⟩) (by decide) (by decide) hfault
  have hx : p.scroll.originX = 0 := by
    rw [Scroll.originX, ht, hfine]
    rfl
  have hy : p.scroll.originY = 0 := by
    rw [Scroll.originY, ht]
    rfl
  rw [backgroundDigit_tick, hx, hy] at hdigit
  exact hdigit.trans (planePixel_spriteOnTile hscene)

/-! ## Composition -/

/-- The palette entry for the pixels of two layers; a background pixel is transparent if it is 0
modulo 4. With the pixel of the sprite layer comes whether it is behind the background. -/
def layered (background : Nat) (sprite : Option (Nat × Bool)) : Nat :=
  match decide (background % 4 ≠ 0), sprite with
  | false, none => 0
  | true, none => background
  | false, some (pixel, _) => 16 + pixel
  | true, some (pixel, behind) => if behind then background else 16 + pixel

theorem toNat_compose (background : UInt8) (sprite : Option Sprite) (x : Nat) :
    (compose background sprite x).toNat =
      layered background.toNat (sprite.map fun s => ((s.pixelAt x).toNat, s.behind)) := by
  have hupper : ∀ s : Sprite, (s.pixelAt x ||| 0x10).toNat = 16 + (s.pixelAt x).toNat := by
    intro s
    have hlt : (s.pixelAt x).toNat < 2 ^ 4 := by
      unfold Sprite.pixelAt
      split
      · exact Pattern.digit_lt _ _
      · decide
    rw [UInt8.toNat_or, Nat.or_comm]
    exact (Nat.two_pow_add_eq_or_of_lt hlt 1).symm
  unfold compose layered
  rw [Pattern.opaquePixel_eq]
  cases decide (background.toNat % 4 ≠ 0) <;> cases sprite with
  | none => rfl
  | some s =>
      cases hb : s.behind <;> simp [hb, hupper]

/-- A dot of the picture, while something is rendered, draws one pixel. -/
theorem back_step {p : Ppu} (board : μ) {x : Fin frameWidth} {y : Fin frameHeight}
    (hr : p.rendering = true) (hd : (p.beam.advance p.rendering).dot = x + 1)
    (hl : (p.beam.advance p.rendering).scanline = y) :
    (p.step board).back =
      p.back.set x y (p.colour (compose (p.backgroundPixel x) (p.spriteAt x) x).toUInt16) := by
  have hx : x.val < 256 := x.isLt
  have hy : y.val < 240 := y.isLt
  -- the later stages of the dot, and the vertical blank, leave the pixel alone
  have hin : p.tick.beam.inPicture := by
    show (p.beam.advance p.rendering).inPicture
    rw [Beam.inPicture, hd, hl]
    omega
  have hdraw : p.tick.drawDot = p.tick.renderPixel x y := by
    rw [drawDot, dif_pos hin]
    congr 1
    · exact Fin.ext (by show (p.beam.advance p.rendering).dot - 1 = x; omega)
    · exact Fin.ext hl
  have hrender : (p.tick.renderDot board).back = p.tick.drawDot.back :=
    (p.tick.drawn_renderDot board).1.trans (if_pos hr)
  have hvblank : (p.tick.renderDot board).beam.startsVblank = false := by
    have hline : (p.tick.renderDot board).beam.scanline = y := by
      rw [beam_renderDot]
      exact hl
    rw [Beam.startsVblank, hline, vblankLine, Bool.and_eq_false_iff, decide_eq_false_iff_not]
    omega
  have hback : (p.step board).back = (p.tick.renderDot board).back := by
    rw [step_eq_stages, updateVblank, hvblank, if_neg Bool.false_ne_true, apply_ite back]
    exact ite_self _
  rw [hback, hrender, hdraw]
  rfl

/-- What the search leaves for the line it is for, seen at a column of it. -/
theorem search_eq_layer {p : Ppu} {board : μ} {y : Nat} (hy : y < 240) (hr : p.rendering = true)
    (hd : (p.step board).beam.dot = 257) (hl : (p.step board).beam.scanline = Beam.lineBefore y)
    (hf : (p.step board).fault = false) (x : Nat) :
    (Sprite.first? (p.step board).sprites x).map (fun s => ((s.pixelAt x).toNat, s.behind)) =
      if y = 0 then none else p.oam.layer board p.spriteShape (y - 1) x := by
  rw [beam_step] at hd hl
  by_cases h0 : y = 0
  · rw [Beam.lineBefore, if_pos h0] at hl
    rw [sprites_step_of_preRender board hr hd hl, if_pos h0]
    rfl
  · rw [Beam.lineBefore, if_neg h0] at hl
    obtain ⟨hs, hsome⟩ := sprites_step_of_visible hr hd hl (by omega) hf
    rw [hs, if_neg h0]
    exact Sprite.first?_eq_layer hsome x

/-- From the search to a dot of the picture on the line it is for, the sprites stay as they are. -/
theorem sprites_run_of_search {es : List (Event μ)} (hes : Event.reset ∉ es)
    (hdots : Event.dots es < dotsPerScanline) {p : Ppu} {b : μ} {y : Nat} (hw : p.beam.WellTimed)
    (hy : y < 240) (hd : p.beam.dot = 257) (hl : p.beam.scanline = Beam.lineBefore y)
    (hlast : ((run es p).step b).beam.dot ≤ 256) : (run es p).sprites = p.sprites := by
  have hsince : p.beam.SinceSearch y 0 := .inl ⟨hl, hd⟩
  have hlen : Event.dots es ≤ 340 := Nat.le_of_lt_succ hdots
  obtain ⟨hrun, hkept⟩ := sinceSearch_run hes hw hy hsince (by omega)
  have hend := hrun.advance hy (wellTimed_run hes hw).dot_le (by omega) (run es p).rendering
  rw [beam_step] at hlast
  -- the beam has come to a dot of the picture, so at most 340 dots after the search
  have hfew : 0 + Event.dots es ≤ 339 := by
    rcases hend with ⟨-, h⟩ | ⟨-, h⟩ <;> omega
  exact hkept hfew

/-- **The picture as two layers.** After a run from power-on without resets, let a dot search the
sprites of a visible line while something is rendered, and find all bytes of their shapes. Less than
a line of dots later, whatever the CPU has done in between, a dot of that line draws its pixel in
the colour that the two layers have there: the digit of the background pipeline, and the sprite
layer of sprite memory, control register and cartridge as the search found them. -/
theorem step_draws_layers {es₁ es₂ : List (Event μ)} {b₁ b : μ} {x : Fin frameWidth}
    {y : Fin frameHeight} {p q : Ppu} (hp : p = run es₁ powerOn) (hq : q = run es₂ (p.step b₁))
    (h₁ : Event.reset ∉ es₁) (h₂ : Event.reset ∉ es₂) (hdots : Event.dots es₂ < dotsPerScanline)
    (hr₁ : p.rendering = true) (hd₁ : (p.step b₁).beam.dot = 257)
    (hl₁ : (p.step b₁).beam.scanline = Beam.lineBefore y) (hf : (p.step b₁).fault = false)
    (hr : q.rendering = true) (hd : (q.step b).beam.dot = x + 1)
    (hl : (q.step b).beam.scanline = y) :
    let background :=
      if x.val < 8 ∧ q.showsLeftBackground = false then 0 else q.backgroundDigit.toNat
    let sprite :=
      if y.val = 0 ∨ q.showsSprites = false ∨ (x.val < 8 ∧ q.showsLeftSprites = false) then none
      else p.oam.layer b₁ p.spriteShape (y.val - 1) x
    ∃ c : Colour, c.val = (q.readPalette (UInt16.ofNat (layered background sprite))).toNat % 64 ∧
      (q.step b).back = q.back.set x y c ∧
      Frame.bytesOf ((q.step b).back.get x y) = [c.red, c.green, c.blue, 0xFF] := by
  have hx : x.val < 256 := x.isLt
  have hy : y.val < 240 := y.isLt
  have hw : p.beam.WellTimed := hp ▸ wellTimed_run h₁ wellTimed_powerOn
  have hw₁ : (p.step b₁).beam.WellTimed := (beam_step p b₁).symm ▸ hw.advance p.rendering
  have hlayer := search_eq_layer hy hr₁ hd₁ hl₁ hf x
  rw [← sprites_run_of_search h₂ hdots hw₁ hy hd₁ hl₁ (by rw [← hq, hd]; omega), ← hq] at hlayer
  intro background sprite
  have hbackground : (q.backgroundPixel x).toNat = background := by
    show _ = ite _ _ _
    rw [backgroundPixel, apply_ite UInt8.toNat]
    rfl
  -- what has been found on the line before is masked as the registers are now
  have hsprite : (q.spriteAt x).map (fun s => ((s.pixelAt x).toNat, s.behind)) = sprite := by
    show _ = ite _ _ _
    rw [spriteAt]
    by_cases hmask : q.showsSprites = false ∨ (x.val < 8 ∧ q.showsLeftSprites = false)
    · rw [if_pos hmask, if_pos (Or.inr hmask)]
      rfl
    · rw [if_neg hmask, hlayer]
      by_cases h0 : y.val = 0
      · rw [if_pos h0, if_pos (Or.inl h0)]
      · rw [if_neg h0, if_neg (fun h => h.elim h0 hmask)]
  rw [beam_step] at hd hl
  have hback := back_step b hr hd hl
  have hcode : (compose (q.backgroundPixel x) (q.spriteAt x) x).toUInt16 =
      UInt16.ofNat (layered background sprite) := by
    rw [← hbackground, ← hsprite, ← toNat_compose, UInt16.ofNat_uInt8ToNat]
  rw [hcode] at hback
  refine ⟨q.colour (UInt16.ofNat (layered background sprite)), rfl, hback, ?_⟩
  rw [hback, Frame.get_set_self]
  rfl

/-- Both layers are opaque at column 3 of line 1, and the sprite is in front. -/
theorem step_draws_layers_spriteOnTile :
    let p := run (pictureRun UxRom.numbered spriteOnTile 0x1E 597) powerOn
    let q := run (.replicate 87 (.dot UxRom.numbered)) (p.step UxRom.numbered)
    ((p.step UxRom.numbered).beam.scanline = 0 ∧ (p.step UxRom.numbered).beam.dot = 257) ∧
      ((q.step UxRom.numbered).beam.scanline = 1 ∧ (q.step UxRom.numbered).beam.dot = 3 + 1) ∧
      q.backgroundDigit.toNat = 11 ∧
      p.oam.layer UxRom.numbered p.spriteShape 0 3 = some (7, false) ∧
      (q.step UxRom.numbered).back = q.back.set ⟨3, by decide⟩ ⟨1, by decide⟩ 0x2A ∧
      Frame.bytesOf ((q.step UxRom.numbered).back.get ⟨3, by decide⟩ ⟨1, by decide⟩) =
        [0x4F, 0xDF, 0x4B, 0xFF] := by
  intro p q
  have hp : p = shown UxRom.numbered spriteOnTile 0x1E 597 := rfl
  have hq : q = run (.replicate 87 (.dot UxRom.numbered)) (p.step UxRom.numbered) := rfl
  clear_value p q
  have hsearch : p.step UxRom.numbered = shown UxRom.numbered spriteOnTile 0x1E 598 := by
    rw [hp, ← shown_succ]
  have hq' : q = shown UxRom.numbered spriteOnTile 0x1E 685 := by
    rw [hq, hsearch, run_replicate_dot, ← shown_add]
  have hpixel : q.step UxRom.numbered = shown UxRom.numbered spriteOnTile 0x1E 686 := by
    rw [hq', ← shown_succ]
  -- the two dots and the states before them
  have hscene := sameScene_shown UxRom.numbered spriteOnTile 0x1E
  have hfault := fault_shown UxRom.numbered spriteOnTile 0x1E 598 UxRom.completeChr_numbered
  obtain ⟨hd₁, hl₁⟩ := search_spriteOnTile
  obtain ⟨-, hl, hd⟩ := place_shown UxRom.numbered spriteOnTile 0x1E 686 (by omega)
  obtain ⟨hr₁, -⟩ := shows_of_mask (hp.symm ▸ mask_shown UxRom.numbered spriteOnTile 0x1E 597)
  obtain ⟨hr, -, hshows⟩ :=
    shows_of_mask (hq'.symm ▸ mask_shown UxRom.numbered spriteOnTile 0x1E 685)
  have hbackground : q.backgroundDigit.toNat = 11 := by
    rw [hq']
    exact backgroundDigit_spriteOnTile
  have hsprite : p.oam.layer UxRom.numbered p.spriteShape 0 3 = some (7, false) := by
    rw [hp]
    exact layer_spriteOnTile (hscene 597)
  rw [← hsearch] at hd₁ hl₁ hfault
  rw [← hpixel] at hl hd
  obtain ⟨c, hc, hback, hbytes⟩ := step_draws_layers (x := ⟨3, by decide⟩) (y := ⟨1, by decide⟩) hp
    hq (reset_notMem_pictureRun _ _ _ _) (Event.reset_notMem_replicate _ _)
    (by rw [Event.dots_replicate]; decide) hr₁ hd₁ hl₁ hfault hr hd hl
  have hentry : q.readPalette 0x17 = 0x2A := by
    rw [hq']
    exact readPalette_spriteOnTile (hscene 685)
  have hcolour : c = 0x2A := by
    simp only [hshows, hbackground, hsprite] at hc
    change c.val = (q.readPalette 0x17).toNat % 64 at hc
    rw [hentry] at hc
    exact Fin.ext hc
  rw [hcolour] at hback hbytes
  exact ⟨⟨hl₁, hd₁⟩, ⟨hl, hd⟩, hbackground, hsprite, hback, hbytes⟩

end Ppu

end Nes
