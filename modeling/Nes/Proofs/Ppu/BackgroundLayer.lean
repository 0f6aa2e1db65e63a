import Nes.Proofs.Ppu.BackgroundCourse
import Nes.Proofs.Ppu.Fault

/-!
# The background layer

The beam comes to every place of the picture (`exists_draws`), and the background pipeline is on its
course all the way (`Draws.toNat_backgroundDigit`). So the picture of the background is a part of
the plane, from the scroll position on (`background_eq_plane`).

For single pictures, `shown` is the state some dots after a picture that has been prepared is
switched on: what the writes have stored is still there (`sameScene_shown`), and the beam is where
the number of dots says (`place_shown`, `draws_shown`).
-/

set_option autoImplicit false

namespace Nes

namespace Beam

/-! ## The way of the beam -/

/-- On one of the lines for which tiles are fetched. -/
def OnLines (b : Beam) : Prop := b.dot ≤ 340 ∧ (b.scanline < 240 ∨ b.scanline = 261)

/-- Number of dots since the line that prepares the frame has begun, the skipped one counted too. -/
def progress (b : Beam) : Nat := if b.scanline = 261 then b.dot else 341 * (b.scanline + 1) + b.dot

theorem OnLines.advance {b : Beam} (h : b.OnLines) (rendering : Bool)
    (hline : (b.advance rendering).scanline ≠ 240) : (b.advance rendering).OnLines := by
  obtain ⟨hdot, hlines⟩ := h
  rcases b.advance_cases rendering with ⟨-, he⟩ | ⟨-, hd, he⟩ | ⟨-, hl, he⟩ | ⟨-, -, he⟩ <;>
    rw [he] at hline ⊢ <;> simp only [OnLines, Beam.nextFrame] at hline ⊢ <;> omega

/-- One dot more, or two over the skipped one, until the picture ends. -/
theorem OnLines.progress_advance {b : Beam} (h : b.OnLines) (rendering : Bool)
    (hend : b.progress + 1 < 341 * 241) :
    (b.advance rendering).scanline ≠ 240 ∧
      ((b.advance rendering).progress = b.progress + 1 ∨
        b.progress = 339 ∧ (b.advance rendering).progress = 341) := by
  obtain ⟨hdot, hlines⟩ := h
  unfold progress at hend ⊢
  have hstart : b.nextFrame.scanline = 0 ∧ b.nextFrame.dot = 0 := ⟨rfl, rfl⟩
  rcases b.advance_cases rendering with ⟨hs, he⟩ | ⟨-, hd, he⟩ | ⟨hd, hl, he⟩ | ⟨hd, hl, he⟩
  · rw [he, if_neg (by omega), if_pos hs.2.2.1]
    omega
  · rw [he]
    simp only
    by_cases hl : b.scanline = 261
    · rw [if_pos hl, if_pos hl]
      omega
    · rw [if_neg hl] at hend
      rw [if_neg hl, if_neg hl]
      omega
  · rw [if_neg (by omega)] at hend
    rw [he]
    simp only
    rw [if_neg (by omega), if_neg (by omega)]
    omega
  · rw [he, if_neg (by omega), if_pos (by omega)]
    omega

end Beam

namespace Ppu

variable {μ : Type} [Board μ]

/-! ## Dots with boards that show the same -/

/-- Two boards that show the picture unit the same: the same shapes of tiles, the same layout of the
nametables. -/
structure SamePictures (board board' : μ) : Prop where
  ppuRead : Board.ppuRead board' = Board.ppuRead board
  mirroring : Board.mirroring board' = Board.mirroring board

theorem step_congr {board board' : μ} (h : SamePictures board board') (p : Ppu) :
    p.step board' = p.step board := by
  have hread : ∀ s : Vram, s.read board' = s.read board := by
    intro s
    funext addr
    rw [Vram.read, h.ppuRead, h.mirroring, Vram.read]
  have hplane : ∀ (q : Ppu) (high : Bool), q.fetchPlane board' high = q.fetchPlane board high := by
    intro q high
    rw [fetchPlane, hread, fetchPlane]
  have hfetch : ∀ q : Ppu, q.fetch board' = q.fetch board := by
    intro q
    simp only [fetch, hplane, h.mirroring]
  have hentry : ∀ (s : Vram) (shape : SpriteShape) (o : Oam) (line : Nat),
      Sprite.fetch? s board' shape o line = Sprite.fetch? s board shape o line := by
    intro s shape o line
    funext entry
    simp only [Sprite.fetch?, Sprite.fetchRow?, hread]
  have hselect : ∀ q : Ppu, q.selectSprites board' = q.selectSprites board := by
    intro q
    simp only [selectSprites, evaluateSprites, hentry]
  simp only [step, render, hfetch, hselect]

/-- Two states would show the same picture: the same memories, the same control register and the
same scroll position. -/
structure SameScene (p q : Ppu) : Prop where
  vram : q.vram = p.vram
  oam : q.oam = p.oam
  ctrl : q.ctrl = p.ctrl
  t : q.scroll.t = p.scroll.t
  fineX : q.scroll.fineX = p.scroll.fineX

theorem SameScene.trans {p q r : Ppu} (h : SameScene p q) (h' : SameScene q r) : SameScene p r :=
  ⟨h'.vram.trans h.vram, h'.oam.trans h.oam, h'.ctrl.trans h.ctrl, h'.t.trans h.t,
    h'.fineX.trans h.fineX⟩

/-- Dots leave alone what the picture is made from. -/
theorem sameScene_afterDots (boards : Nat → μ) (p : Ppu) (n : Nat) :
    SameScene p (p.afterDots boards n) := by
  refine afterDots_invariant (P := SameScene p) ⟨rfl, rfl, rfl, rfl, rfl⟩ (fun i q hq => ?_) n
  obtain ⟨_, _, _, _, _, _, _, _, _, hs⟩ := q.step_shape (boards i)
  rw [hs]
  exact ⟨hq.vram, hq.oam, hq.ctrl, hq.t, hq.fineX⟩

theorem mask_afterDots (boards : Nat → μ) (p : Ppu) (n : Nat) :
    (p.afterDots boards n).mask = p.mask :=
  afterDots_invariant (P := fun q => q.mask = p.mask) rfl
    (fun i q hq => (q.mask_step (boards i)).trans hq) n

theorem bounded_afterDots {p : Ppu} (h : p.scroll.Bounded) (boards : Nat → μ) (n : Nat) :
    (p.afterDots boards n).scroll.Bounded :=
  afterDots_invariant (P := fun q => q.scroll.Bounded) h
    (fun i _ hq => bounded_step hq (boards i)) n

theorem fault_afterDots {boards : Nat → μ} (h : ∀ i, CompleteChr (boards i)) (p : Ppu) (n : Nat) :
    (p.afterDots boards n).fault = p.fault :=
  afterDots_invariant (P := fun q => q.fault = p.fault) rfl
    (fun i q hq => (q.fault_step (h i)).trans hq) n

/-! ## From the first line to the pixel -/

/-- The picture has not ended within some dots. -/
def BeforeEnd (boards : Nat → μ) (p : Ppu) (n : Nat) : Prop :=
  ∀ k ≤ n, (p.afterDots boards k).beam.scanline ≠ 240

/-- The beam comes to every place of the picture. -/
theorem exists_progress {p : Ppu} (boards : Nat → μ) (hl : p.beam.OnLines) {m : Nat}
    (hm : p.beam.progress ≤ m) (hend : m < 341 * 241) :
    ∃ n, p.BeforeEnd boards n ∧ (p.afterDots boards n).beam.OnLines ∧
      ((p.afterDots boards n).beam.progress = m ∨
        m = 340 ∧ (p.afterDots boards n).beam.progress = 341) := by
  induction hm with
  | refl =>
      refine ⟨0, fun k hk => ?_, hl, .inl rfl⟩
      rw [Nat.le_zero.mp hk]
      show p.beam.scanline ≠ 240
      rcases hl.2 with h | h <;> omega
  | @step m hm ih =>
      obtain ⟨n, hbefore, hlines, hplace⟩ := ih (by omega)
      -- the skipped dot counts as passed
      by_cases hskipped : m = 340 ∧ (p.afterDots boards n).beam.progress = 341
      · exact ⟨n, hbefore, hlines, .inl (by omega)⟩
      · have hhere : (p.afterDots boards n).beam.progress = m := by omega
        have hnext := hlines.progress_advance (p.afterDots boards n).rendering (by omega)
        have hbeam : (p.afterDots boards (n + 1)).beam =
            (p.afterDots boards n).beam.advance (p.afterDots boards n).rendering := by
          rw [afterDots_succ, beam_step]
        refine ⟨n + 1, fun k hk => ?_, ?_, ?_⟩
        · rcases Nat.le_succ_iff.mp hk with hk | hk
          · exact hbefore k hk
          · rw [hk, hbeam]
            exact hnext.1
        · rw [hbeam]
          exact hlines.advance _ hnext.1
        · rw [hbeam]
          omega

theorem rendering_of_showsBackground {p : Ppu} (h : p.showsBackground = true) :
    p.rendering = true := by
  have hbit : p.mask &&& 0x08 = (p.mask &&& 0x18) &&& 0x08 := by
    rw [UInt8.and_assoc]
    rfl
  refine decide_eq_true fun hclear => of_decide_eq_true h ?_
  rw [hbit, hclear]
  rfl

theorem OnCourse.start {board : μ} {column row : Nat} {p : Ppu} (hline : p.beam.scanline = 261)
    (hdot : p.beam.dot ≤ 256) : OnCourse board column row p where
  halves _ h := absurd h (by omega)
  begun _ h := absurd h (by omega)
  picture h := absurd h (by omega)
  turn h := absurd h (by omega)
  ahead h := absurd h (by omega)

/-- Up to the end of the picture, the pipeline is on its course. -/
theorem onCourse_afterDots {p : Ppu} {board : μ} {boards : Nat → μ} {column row : Nat}
    (h : OnCourse board column row p) (hl : p.beam.OnLines)
    (ht : p.scroll.t = Scroll.address column row) (hbound : p.scroll.Bounded)
    (hr : p.rendering = true) (hboards : ∀ i, SamePictures board (boards i)) {n : Nat}
    (hbefore : p.BeforeEnd boards n) (hf : (p.afterDots boards n).fault = false) :
    (p.afterDots boards n).beam.OnLines ∧ OnCourse board column row (p.afterDots boards n) := by
  induction n with
  | zero => exact ⟨hl, h⟩
  | succ n ih =>
      have htkept := (p.sameScene_afterDots boards n).t
      have hrn : (p.afterDots boards n).rendering = true := by
        rw [rendering, mask_afterDots]
        exact hr
      obtain ⟨_, -, -, -, -, hfault⟩ := step_pipeline hrn (boards n)
      -- a fault would have stayed, so there has been none before
      have hnext := hbefore (n + 1) (Nat.le_refl _)
      have hbeam := beam_step (p.afterDots boards n) (boards n)
      rw [afterDots_succ] at hf hnext ⊢
      obtain ⟨hlines, hcourse⟩ := ih (fun k hk => hbefore k (Nat.le_succ_of_le hk)) (hfault hf).2
      refine ⟨?_, ?_⟩
      · rw [hbeam] at hnext ⊢
        exact hlines.advance _ hnext
      · rw [step_congr (hboards n)] at hf ⊢
        exact hcourse.step (htkept.trans ht) (bounded_afterDots hbound boards n) hrn hlines.1
          hlines.2 hf

/-! ## At the pixel -/

/-- The dot of this number draws the pixel at a column of a line, before the picture has ended. -/
structure Draws (boards : Nat → μ) (p : Ppu) (n x y : Nat) : Prop where
  before : p.BeforeEnd boards n
  dot : (p.afterDots boards n).tick.beam.dot = x + 1
  scanline : (p.afterDots boards n).tick.beam.scanline = y

theorem exists_draws {p : Ppu} (boards : Nat → μ) (hline : p.beam.scanline = 261)
    (hdot : p.beam.dot ≤ 256) {x y : Nat} (hx : x < 256) (hy : y < 240) :
    ∃ n, p.Draws boards n x y := by
  have hstart : p.beam.progress = p.beam.dot := if_pos hline
  obtain ⟨n, hbefore, hlines, hplace⟩ := exists_progress (m := 341 * (y + 1) + x) boards
    ⟨by omega, .inr hline⟩ (by omega) (by omega)
  have hat : (p.afterDots boards n).beam.scanline = y ∧ (p.afterDots boards n).beam.dot = x := by
    have hle := hlines.1
    have hplace : (p.afterDots boards n).beam.progress = 341 * (y + 1) + x := by omega
    rw [Beam.progress] at hplace
    by_cases hl : (p.afterDots boards n).beam.scanline = 261
    · rw [if_pos hl] at hplace
      omega
    · rw [if_neg hl] at hplace
      omega
  have hbeam : (p.afterDots boards n).tick.beam =
      { (p.afterDots boards n).beam with dot := (p.afterDots boards n).beam.dot + 1 } := by
    show (p.afterDots boards n).beam.advance _ = _
    rcases (p.afterDots boards n).beam.advance_cases (p.afterDots boards n).rendering with
      ⟨hs, -⟩ | ⟨-, -, he⟩ | ⟨hd, -⟩ | ⟨hd, -⟩
    · omega
    · exact he
    · omega
    · omega
  refine ⟨n, hbefore, ?_, ?_⟩
  · rw [hbeam, ← hat.2]
  · rw [hbeam, ← hat.1]

/-- The dot before the one that draws a pixel. -/
theorem Draws.beam {boards : Nat → μ} {p : Ppu} {n x y : Nat} (h : p.Draws boards n x y) :
    (p.afterDots boards n).beam.dot = x ∧ (p.afterDots boards n).beam.scanline = y := by
  obtain ⟨-, hdot, hline⟩ := h
  generalize p.afterDots boards n = q at hdot hline ⊢
  have hbeam : q.tick.beam = q.beam.advance q.rendering := rfl
  rw [hbeam] at hdot hline
  rcases q.beam.advance_cases q.rendering with ⟨-, he⟩ | ⟨-, -, he⟩ | ⟨-, -, he⟩ | ⟨-, -, he⟩ <;>
    rw [he] at hdot hline <;> simp only [Beam.nextFrame] at hdot hline <;> omega

/-- At such a dot the pipeline shows the pixel of the plane. -/
theorem Draws.toNat_backgroundDigit {p : Ppu} {board : μ} {boards : Nat → μ} {n x y : Nat}
    (h : p.Draws boards n x y) (hline : p.beam.scanline = 261) (hdot : p.beam.dot ≤ 256)
    (hmask : p.showsBackground = true) (hbound : p.scroll.Bounded)
    (hrow : p.scroll.t.toNat / 32 % 32 ≤ 29) (hboards : ∀ i, SamePictures board (boards i))
    (hx : x < 256) (hy : y < 240) (hf : (p.afterDots boards n).fault = false) :
    (p.afterDots boards n).tick.backgroundDigit.toNat =
      p.planePixel board (p.scroll.originX + x) (p.scroll.originY + y) := by
  have hr := rendering_of_showsBackground hmask
  have ht := Scroll.eq_address hbound.t_lt hrow
  obtain ⟨-, hcourse⟩ := onCourse_afterDots (.start hline hdot) ⟨by omega, .inr hline⟩ ht hbound hr
    hboards h.before hf
  have hscene := p.sameScene_afterDots boards n
  obtain ⟨hatdot, hatline⟩ := h.beam
  have hwindow := (hcourse.picture (by omega) (by omega)).window
  rw [hatdot, hatline, planePixel_congr hscene.vram hscene.ctrl] at hwindow
  have hdigit : (p.afterDots boards n).tick.backgroundDigit =
      (p.afterDots boards n).background.digit p.scroll.fineX := by
    show (if (p.afterDots boards n).showsBackground then
      (p.afterDots boards n).background.digit (p.afterDots boards n).scroll.fineX else 0) = _
    rw [showsBackground, mask_afterDots, ← showsBackground, hmask, hscene.fineX]
    rfl
  -- the offset within a tile is less than what the window is ahead
  have hfinelt := hbound.fineX_lt
  have hknown : p.scroll.fineX.toNat + (16 + x) - 16 < 8 * ((16 + x) / 8) := by omega
  rw [hdigit, Background.toNat_digit _ hfinelt, hwindow _ (by omega) (by omega), if_pos hknown]
  simp only [Scroll.originX, Scroll.originY]
  congr 1 <;> omega

/-! ## Pictures that are prepared and shown -/

/-- Some writes. -/
def writes (board : μ) (ws : List (UInt16 × UInt8)) : List (Event μ) :=
  ws.map fun w => .write board w.1 w.2

/-- A run that makes some writes, switches the picture on where the line that prepares the first
frame begins, and lets some dots pass. -/
def pictureRun (board : μ) (ws : List (UInt16 × UInt8)) (mask : UInt8) (n : Nat) :
    List (Event μ) :=
  writes board ws ++ List.replicate 6821 (.dot board) ++ [.write board 0x2001 mask] ++
    List.replicate n (.dot board)

/-- The state after such a run. -/
def shown (board : μ) (ws : List (UInt16 × UInt8)) (mask : UInt8) (n : Nat) : Ppu :=
  run (pictureRun board ws mask n) powerOn

section Shown

variable (board : μ) (ws : List (UInt16 × UInt8)) (mask : UInt8) (n k : Nat)

omit [Board μ] in
theorem pictureRun_add :
    pictureRun board ws mask (n + k) = pictureRun board ws mask n ++ .replicate k (.dot board) := by
  rw [pictureRun, pictureRun, List.append_assoc _ (List.replicate n _),
    List.replicate_append_replicate]

omit [Board μ] in
theorem mem_pictureRun {e : Event μ} (h : e ∈ pictureRun board ws mask n) :
    e = .dot board ∨ ∃ addr value, e = .write board addr value := by
  rcases List.mem_append.mp h with h | h
  · rcases List.mem_append.mp h with h | h
    · rcases List.mem_append.mp h with h | h
      · obtain ⟨w, -, rfl⟩ := List.mem_map.mp h
        exact .inr ⟨w.1, w.2, rfl⟩
      · exact .inl (List.eq_of_mem_replicate h)
    · exact .inr ⟨_, _, List.mem_singleton.mp h⟩
  · exact .inl (List.eq_of_mem_replicate h)

omit [Board μ] in
theorem reset_notMem_pictureRun : Event.reset ∉ pictureRun board ws mask n := by
  intro h
  rcases mem_pictureRun board ws mask n h with h | ⟨_, _, h⟩ <;> cases h

theorem shown_add :
    shown board ws mask (n + k) = (shown board ws mask n).afterDots (fun _ => board) k := by
  rw [shown, pictureRun_add, run_append, run_replicate_dot, ← shown]

theorem shown_succ : shown board ws mask (n + 1) = (shown board ws mask n).step board :=
  shown_add board ws mask n 1

theorem sameScene_write_mask (p : Ppu) : SameScene p (p.after (.write board 0x2001 mask)) :=
  ⟨rfl, rfl, rfl, rfl, rfl⟩

/-- What is shown is what has been prepared. -/
theorem sameScene_shown :
    SameScene (run (writes board ws) powerOn) (shown board ws mask n) := by
  rw [shown, pictureRun, run_append, run_append, run_append, run_replicate_dot, run_replicate_dot]
  exact ((sameScene_afterDots _ _ _).trans (sameScene_write_mask board mask _)).trans
    (sameScene_afterDots _ _ _)

theorem mask_shown : (shown board ws mask n).mask = mask := by
  rw [shown, pictureRun, run_append, run_append, run_replicate_dot, mask_afterDots]
  rfl

theorem fault_shown (h : CompleteChr board) : (shown board ws mask n).fault = false := by
  refine fault_run (fun e he => ?_) rfl
  rcases mem_pictureRun board ws mask n he with rfl | ⟨_, _, rfl⟩ <;> exact h

/-- Where the beam is. -/
theorem place_shown (hn : n ≤ 89681) :
    (shown board ws mask n).beam.frame = (89001 + n) / 89342 ∧
      (shown board ws mask n).beam.scanline = (89001 + n) % 89342 / 341 ∧
      (shown board ws mask n).beam.dot = (89001 + n) % 89342 % 341 := by
  have hwrites : Event.dots (writes board ws) = 0 := by
    rw [writes, Event.dots, List.countP_map, List.countP_eq_zero]
    exact fun _ _ => Bool.false_ne_true
  have hwrite : Event.dots [Event.write board 0x2001 mask] = 0 := rfl
  have hdots : Event.dots (pictureRun board ws mask n) = 6821 + n := by
    rw [pictureRun, Event.dots_append, Event.dots_append, Event.dots_append,
      Event.dots_replicate, Event.dots_replicate, hwrites, hwrite, Nat.zero_add, Nat.add_zero]
  have hplace := place_run_powerOn (reset_notMem_pictureRun board ws mask n) (by omega)
  rw [hdots, ← Nat.add_assoc, ← shown] at hplace
  exact hplace

/-- The dot that draws a pixel of the first frame. -/
theorem draws_shown {x y : Nat} (hx : x < 256) (hy : y < 240) :
    (shown board ws mask 0).Draws (fun _ => board) (341 * (y + 1) + x) x y := by
  have hplace := fun i hi => place_shown board ws mask i hi
  have hnext : ((shown board ws mask 0).afterDots (fun _ => board) (341 * (y + 1) + x)).tick.beam =
      (shown board ws mask (341 * (y + 1) + x + 1)).beam := by
    rw [shown_succ, beam_step, ← Nat.zero_add (341 * (y + 1) + x), shown_add, Nat.zero_add]
    rfl
  obtain ⟨-, hline, hdot⟩ := hplace (341 * (y + 1) + x + 1) (by omega)
  refine ⟨fun i hi => ?_, ?_, ?_⟩
  · obtain ⟨-, hbefore, -⟩ := hplace (0 + i) (by omega)
    rw [shown_add] at hbefore
    omega
  · rw [hnext]
    omega
  · rw [hnext]
    omega

end Shown

/-! ## A picture with one tile in it -/

theorem peek_numbered (p : Ppu) {addr : UInt16} (h : addr.toNat < 0x2000) :
    p.peek UxRom.numbered addr = UInt8.ofNat addr.toNat := by
  rw [peek, Vram.read_of_lt _ _ h, UxRom.ppuRead_numbered h]
  rfl

theorem chrByte_numbered {address : Nat} (h : address < 0x2000) :
    chrByte UxRom.numbered address = UInt8.ofNat address := by
  have haddr : (UInt16.ofNat address).toNat = address :=
    UInt16.toNat_ofNat_of_lt' (Nat.lt_trans h (by decide))
  rw [chrByte, UxRom.ppuRead_numbered (haddr.symm ▸ h), haddr]
  rfl

/-- Writes that put a tile of palette group 3 in the third nametable, take the tiles from the upper
table and scroll to column 381 and row 151 of the plane. -/
def farTile : List (UInt16 × UInt8) :=
  [(0x2006, 0x2A), (0x2006, 0x4F), (0x2007, 0x35), (0x2006, 0x2B), (0x2006, 0xE3), (0x2007, 0xE4),
    (0x2005, 0x7D), (0x2005, 0x97), (0x2000, 0x11)]

/-- The pixel of the tile in its row 6 and column 4, where the planes have 0 and 1. -/
theorem planePixel_farTile {p : Ppu}
    (h : SameScene (run (writes UxRom.numbered farTile) powerOn) p) :
    p.planePixel UxRom.numbered 636 390 = 14 := by
  have hvram : p.vram =
      (Vram.blank.writeNametable .horizontal 0x2A4F 0x35).writeNametable .horizontal 0x2BE3 0xE4 :=
    h.vram
  have htable : p.backgroundTable = true := by
    rw [backgroundTable, h.ctrl]
    decide
  have htile : p.peek UxRom.numbered 0x2A4F = 0x35 := by
    rw [peek_nametable _ _ _ (by decide) (by decide), hvram, UxRom.mirroring_numbered,
      Vram.readNametable_writeNametable, if_neg (by decide), Vram.readNametable_writeNametable,
      if_pos rfl]
  have hattributes : p.peek UxRom.numbered 0x2BE3 = 0xE4 := by
    rw [peek_nametable _ _ _ (by decide) (by decide), hvram, UxRom.mirroring_numbered,
      Vram.readNametable_writeNametable, if_pos rfl]
  have hlow : p.peek UxRom.numbered 0x1356 = 0x56 := p.peek_numbered (by decide)
  have hhigh : p.peek UxRom.numbered 0x135E = 0x5E := p.peek_numbered (by decide)
  rw [planePixel, htable]
  show Background.groupBits (p.peek UxRom.numbered 0x2BE3) 15 18 * 4 + Pattern.bitPair
    (p.peek _ (UInt16.ofNat (0x1000 + 16 * (p.peek UxRom.numbered 0x2A4F).toNat + 6)))
    (p.peek _ (UInt16.ofNat (0x1000 + 16 * (p.peek UxRom.numbered 0x2A4F).toNat + 6 + 8))) 3 = 14
  rw [htile, hattributes]
  show 12 + Pattern.bitPair (p.peek _ 0x1356) (p.peek _ 0x135E) 3 = 14
  rw [hlow, hhigh]
  rfl

/-! ## The layer -/

/-- **The picture of the background is a part of the plane**, from the scroll position on. Nothing
but dots comes between the line that prepares the frame and the pixel; the beam comes to it, and the
pixel is the one of the plane unless the cartridge has lacked a byte on the way. -/
theorem background_eq_plane {es : List (Event μ)} {p : Ppu} (hp : p = run es powerOn)
    (hline : p.beam.scanline = 261) (hdot : p.beam.dot ≤ 256) (hmask : p.showsBackground = true)
    (hrow : p.scroll.t.toNat / 32 % 32 ≤ 29) {board : μ} {boards : Nat → μ}
    (hboards : ∀ i, SamePictures board (boards i)) {x y : Nat} (hx : x < 256) (hy : y < 240) :
    (∃ n, p.Draws boards n x y) ∧
      ∀ n, p.Draws boards n x y → (p.afterDots boards n).fault = false →
        (p.afterDots boards n).tick.backgroundDigit.toNat =
          p.planePixel board (p.scroll.originX + x) (p.scroll.originY + y) := by
  have hbound : p.scroll.Bounded := by
    rw [hp]
    exact bounded_run es
  exact ⟨exists_draws boards hline hdot hx hy, fun _ hn hf =>
    hn.toNat_backgroundDigit hline hdot hmask hbound hrow hboards hx hy hf⟩

/-- The last pixel of the picture lies on the tile. -/
theorem background_eq_plane_farTile :
    let p := run (pictureRun UxRom.numbered farTile 0x08 0) powerOn
    let n := 341 * (239 + 1) + 255
    p.scroll.originX = 381 ∧ p.scroll.originY = 151 ∧
      p.Draws (fun _ => UxRom.numbered) n 255 239 ∧
      (p.afterDots (fun _ => UxRom.numbered) n).tick.backgroundDigit.toNat =
        p.planePixel UxRom.numbered (381 + 255) (151 + 239) ∧
      (p.afterDots (fun _ => UxRom.numbered) n).tick.backgroundDigit.toNat = 14 := by
  intro p n
  have hscene := sameScene_shown UxRom.numbered farTile 0x08 0
  have hmask := mask_shown UxRom.numbered farTile 0x08 0
  have hfault := fault_shown UxRom.numbered farTile 0x08 0 UxRom.completeChr_numbered
  have hdraws := draws_shown UxRom.numbered farTile 0x08 (x := 255) (y := 239) (by decide)
    (by decide)
  obtain ⟨-, hline, hdot⟩ := place_shown UxRom.numbered farTile 0x08 0 (by decide)
  have hp : p = shown UxRom.numbered farTile 0x08 0 := rfl
  rw [← hp] at hscene hmask hfault hdraws hline hdot
  have hshows : p.showsBackground = true := by
    rw [showsBackground, hmask]
    decide
  have ht : p.scroll.t = 0x764F := hscene.t
  have hfine : p.scroll.fineX = 5 := hscene.fineX
  have hx : p.scroll.originX = 381 := by
    rw [Scroll.originX, ht, hfine]
    rfl
  have hy : p.scroll.originY = 151 := by
    rw [Scroll.originY, ht]
    rfl
  obtain ⟨-, hpixel⟩ := background_eq_plane (x := 255) (y := 239) hp hline (by omega) hshows
    (by rw [ht]; decide) (fun _ => ⟨rfl, rfl⟩) (by decide) (by decide)
  have hdigit := hpixel n hdraws ?_
  · rw [hx, hy] at hdigit
    exact ⟨hx, hy, hdraws, hdigit, hdigit.trans (planePixel_farTile hscene)⟩
  · rw [fault_afterDots (fun _ => UxRom.completeChr_numbered), hfault]

end Ppu

end Nes
