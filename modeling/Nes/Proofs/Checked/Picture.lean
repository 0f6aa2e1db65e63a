import Nes.Proofs.Checked.Tiles
import Nes.Proofs.Ppu.Position
import Nes.Proofs.Ppu.ScrollBounds
import Nes.Proofs.Ppu.SpriteLayer

/-!
# The checked picture unit

Dots and register accesses with every operation checked: the counters of the beam and of the
countdown, the columns and rows of the picture and the bytes of the frame, the table of colours, and
the memories. In a sound state (`Ppu.Sound`) on a board with all bytes of picture memory, all of
them have their plain result (`stepChecked_eq`, `readRegisterChecked_eq`,
`writeRegisterChecked_eq`), and every event leads from a sound state to a sound one (`Sound.after`).
-/

set_option autoImplicit false

namespace Nes

/-! ## Counters -/

/-- One dot of the countdown. -/
def NmiLatch.tickChecked (l : NmiLatch) : Option NmiLatch :=
  if l.delay = 0 then some l
  else do
    let delay ← Checked.sub l.delay 1
    some { l with delay, pending := l.pending || (delay == 0 && l.line) }

theorem NmiLatch.tickChecked_eq (l : NmiLatch) : l.tickChecked = some l.tick := by
  unfold tickChecked tick
  split
  · rfl
  · next h =>
      have hlast : (l.delay - 1 == 0) = (l.delay == 1) := by
        rw [Bool.eq_iff_iff, beq_iff_eq, beq_iff_eq]
        omega
      rw [Checked.sub_eq (by omega)]
      simp only [Option.bind_eq_bind, Option.bind_some, hlast]

namespace Beam

/-- The first dot of the next frame. -/
def nextFrameChecked (b : Beam) : Option Beam := do
  let frame ← Checked.add 64 b.frame 1
  some { dot := 0, scanline := 0, frame, odd := !b.odd }

/-- One dot further. -/
def advanceChecked (b : Beam) (rendering : Bool) : Option Beam :=
  if rendering ∧ b.odd ∧ b.scanline = preRenderLine ∧ b.dot = 339 then b.nextFrameChecked
  else do
    let dot ← Checked.add 32 b.dot 1
    if dot ≤ 340 then some { b with dot }
    else do
      let scanline ← Checked.add 32 b.scanline 1
      if scanline ≤ preRenderLine then some { b with dot := 0, scanline } else b.nextFrameChecked

theorem advanceChecked_eq {b : Beam} (h : b.WellTimed) (hframe : b.frame + 1 < 2 ^ 64)
    (rendering : Bool) : b.advanceChecked rendering = some (b.advance rendering) := by
  have hnext : b.nextFrameChecked = some b.nextFrame := by
    rw [nextFrameChecked, Checked.add_eq hframe]
    rfl
  have hdot := h.dot_le
  have hline := h.scanline_le
  unfold advanceChecked advance
  split
  · exact hnext
  · rw [Checked.add_eq (by omega)]
    simp only [Option.bind_eq_bind, Option.bind_some]
    by_cases hd : b.dot < 340
    · rw [if_pos hd]
      exact if_pos hd
    · rw [if_neg hd, if_neg (by omega), Checked.add_eq (by omega), Option.bind_some]
      by_cases hl : b.scanline < preRenderLine
      · rw [if_pos hl]
        exact if_pos hl
      · rw [if_neg hl, if_neg (by omega), hnext]

end Beam

/-! ## Frames -/

/-- The colour that a byte of palette memory names, which has a row in the table. -/
def Colour.ofByteChecked (b : UInt8) : Option Colour := do
  let index ← Checked.mod b.toNat 64
  if h : index < table.size then some ⟨index, h⟩ else none

theorem Colour.ofByteChecked_eq (b : UInt8) : ofByteChecked b = some (ofByte b) := by
  have hlt : b.toNat % 64 < table.size := Nat.mod_lt _ (by decide)
  rw [ofByteChecked, Checked.mod_eq (by decide)]
  exact dif_pos hlt

/-- Draws a pixel, whose bytes have to lie within the frame. -/
def Frame.setChecked (f : Frame) (x y : Nat) (c : Colour) : Option Frame := do
  let row ← Checked.mul 64 y frameWidth
  let pixel ← Checked.add 64 row x
  let start ← Checked.mul 64 pixel bytesPerPixel
  let stop ← Checked.add 64 start bytesPerPixel
  let _ ← Checked.below (frameBytes + 1) stop
  let pixels ← Checked.store f.pixels pixel c
  some ⟨pixels⟩

theorem Frame.setChecked_eq (f : Frame) (x : Fin frameWidth) (y : Fin frameHeight) (c : Colour) :
    f.setChecked x y c = some (f.set x y c) := by
  have hlt : y.val * frameWidth + x.val < frameWidth * frameHeight := (index x y).isLt
  have hpixels : frameWidth * frameHeight = 61440 := rfl
  have hbytes : frameBytes = 245760 := rfl
  have hwide : bytesPerPixel = 4 := rfl
  have hrow : y.val * frameWidth < 2 ^ 64 := by omega
  have hpixel : y.val * frameWidth + x.val < 2 ^ 64 := by omega
  have hend : (y.val * frameWidth + x.val) * bytesPerPixel + bytesPerPixel < frameBytes + 1 := by
    rw [hwide, hbytes]
    omega
  have hstop : (y.val * frameWidth + x.val) * bytesPerPixel + bytesPerPixel < 2 ^ 64 := by omega
  have hstart : (y.val * frameWidth + x.val) * bytesPerPixel < 2 ^ 64 := by omega
  rw [setChecked, Checked.mul_eq hrow]
  simp only [Option.bind_eq_bind, Option.bind_some, Checked.add_eq hpixel, Checked.mul_eq hstart,
    Checked.add_eq hstop, Checked.below_eq hend, Checked.store_eq f.pixels hlt]
  rfl

namespace Ppu

/-! ## Sound states -/

/-- The registers are within their bounds, no slot is missing for a sprite, and the beam is on the
screen. -/
structure Sound (p : Ppu) : Prop where
  scroll : p.scroll.Bounded
  slots : p.sprites.length ≤ maxSprites
  beam : p.beam.WellTimed

theorem sound_powerOn : powerOn.Sound :=
  ⟨⟨by decide, by decide, by decide⟩, Nat.zero_le _, wellTimed_powerOn⟩

section Runs

variable {μ : Type} [Board μ]

theorem slots_step {p : Ppu} (h : p.sprites.length ≤ maxSprites) (board : μ) :
    (p.step board).sprites.length ≤ maxSprites := by
  rcases p.sprites_step_cases board with ⟨-, he⟩ | ⟨-, -, he⟩ | ⟨-, -, he⟩ <;> rw [he]
  · exact h
  · exact Nat.zero_le _
  · refine Nat.le_trans (List.length_filterMap_le _ _) ?_
    rw [selected, List.length_take]
    exact Nat.min_le_left _ _

theorem Sound.after {p : Ppu} (h : p.Sound) {e : Event μ} (he : e ≠ .reset) :
    (p.after e).Sound := by
  refine ⟨bounded_after h.scroll e, ?_, wellTimed_after h.beam he⟩
  cases e with
  | dot board => exact slots_step h.slots board
  | reset => exact absurd rfl he
  | read | write | storePage | takeNmi =>
      rw [sprites_after rfl]
      exact h.slots

/-- **A run without resets stays sound.** -/
theorem Sound.run {es : List (Event μ)} (hes : Event.reset ∉ es) {p : Ppu} (h : p.Sound) :
    (Ppu.run es p).Sound :=
  run_invariant h fun _ he _ hq => hq.after (ne_of_mem_of_not_mem he hes)

end Runs

/-! ## Pixels -/

/-- The digit of the background at the current dot, 0 if it is not rendered. -/
def backgroundDigitChecked (p : Ppu) : Option UInt8 :=
  if p.showsBackground then p.background.digitChecked p.scroll.fineX else some 0

/-- The sprite that shows at a column and its pixel, if sprites are rendered. -/
def spriteFoundChecked (p : Ppu) (x : Nat) : Option (Option (Sprite × UInt8)) :=
  if p.showsSprites then Sprite.firstChecked x 0 p.sprites else some none

/-- The palette entry for a background pixel and a sprite with its pixel. -/
def composeFound (background : UInt8) : Option (Sprite × UInt8) → UInt8
  | none => if Pattern.opaquePixel background then background else 0
  | some (s, pixel) =>
      if Pattern.opaquePixel background && s.behind then background else pixel ||| 0x10

/-- Draws the pixel of a dot of the picture. Both layers are looked up before the left columns are
left out. -/
def renderPixelChecked (p : Ppu) : Option Ppu := do
  let x ← Checked.sub p.beam.dot 1
  let digit ← p.backgroundDigitChecked
  let found ← p.spriteFoundChecked x
  let background := if x < 8 ∧ p.showsLeftBackground = false then 0 else digit
  let sprite := if x < 8 ∧ p.showsLeftSprites = false then none else found
  let byte ← p.vram.readPaletteChecked (composeFound background sprite).toUInt16
  let colour ← Colour.ofByteChecked byte
  let back ← p.back.setChecked x p.beam.scanline colour
  some { p with
    back
    spriteZeroHit :=
      p.spriteZeroHit || meetsSpriteZero background (sprite.map fun found => found.1) x }

/-- Draws the pixel of this dot, if there is one. -/
def drawDotChecked (p : Ppu) : Option Ppu :=
  if p.beam.inPicture then p.renderPixelChecked else some p

theorem backgroundDigitChecked_eq {p : Ppu} (h : p.scroll.Bounded) :
    p.backgroundDigitChecked = some p.backgroundDigit := by
  unfold backgroundDigitChecked backgroundDigit
  split
  · exact p.background.digitChecked_eq h.fineX_lt
  · rfl

/-- A sprite that shows at a column, with its pixel there. -/
theorem spriteFoundChecked_eq {p : Ppu} (h : p.sprites.length ≤ maxSprites) {x : Nat}
    (hx : x < 2 ^ 31) :
    ∃ found, p.spriteFoundChecked x = some found ∧
      (if x < 8 ∧ p.showsLeftSprites = false then none else found) =
        (p.spriteAt x).map fun s => (s, s.pixelAt x) := by
  unfold spriteFoundChecked spriteAt
  cases hs : p.showsSprites with
  | false => exact ⟨none, rfl, by simp⟩
  | true =>
      refine ⟨_, Sprite.firstChecked_eq hx p.sprites (by omega), ?_⟩
      by_cases hleft : x < 8 ∧ p.showsLeftSprites = false
      · simp [hleft]
      · rw [if_neg hleft, if_neg (by simpa using hleft)]

theorem composeFound_eq (background : UInt8) (sprite : Option Sprite) (x : Nat) :
    composeFound background (sprite.map fun s => (s, s.pixelAt x)) =
      compose background sprite x := by
  cases sprite <;> rfl

theorem drawDotChecked_eq {p : Ppu} (hscroll : p.scroll.Bounded)
    (hslots : p.sprites.length ≤ maxSprites) : p.drawDotChecked = some p.drawDot := by
  unfold drawDotChecked drawDot
  split
  · next hin =>
      obtain ⟨hline, hfirst, hlast⟩ := hin
      obtain ⟨found, hfound, hsprite⟩ := spriteFoundChecked_eq hslots (x := p.beam.dot - 1)
        (by omega)
      rw [renderPixelChecked, Checked.sub_eq hfirst]
      simp only [Option.bind_eq_bind, Option.bind_some, backgroundDigitChecked_eq hscroll, hfound,
        hsprite, composeFound_eq, Vram.readPaletteChecked_eq, Colour.ofByteChecked_eq]
      have hx : p.beam.dot - 1 < frameWidth := by
        simp only [frameWidth]
        omega
      have hset : ∀ c, p.back.setChecked (p.beam.dot - 1) p.beam.scanline c =
          some (p.back.set ⟨p.beam.dot - 1, hx⟩ ⟨p.beam.scanline, hline⟩ c) :=
        p.back.setChecked_eq ⟨p.beam.dot - 1, hx⟩ ⟨p.beam.scanline, hline⟩
      have hfirst : ∀ sprite : Option Sprite,
          ((sprite.map fun s => (s, s.pixelAt (p.beam.dot - 1))).map fun found => found.1) =
            sprite := by
        intro sprite
        cases sprite <;> rfl
      rw [hset, Option.bind_some, hfirst]
      rfl
  · rfl

/-! ## The fetch cycle -/

/-- Fetches one plane of a row of the next tile. -/
def fetchPlaneChecked (p : Ppu) (u : UxRom) (high : Bool) : Option Ppu := do
  let start ← Background.patternAddressChecked p.backgroundTable p.background.tile p.scroll.v
  let address ← Checked.add 16 start (if high then 8 else 0)
  let value ← p.vram.readShapeChecked u address
  some (if high then { p with background := { p.background with high := value } }
    else { p with background := { p.background with low := value } })

/-- One dot of the fetch cycle. -/
def fetchChecked (p : Ppu) (u : UxRom) : Option Ppu :=
  let p := { p with background := p.background.shift }
  match p.beam.dot % 8 with
  | 1 => do
      let address := Background.tileAddress p.scroll.v
      let tile ← p.vram.readNametableChecked u.cartridge.mirroring address
      some { p with background := { p.background with tile } }
  | 3 => do
      let address := Background.attributeAddress p.scroll.v
      let attributes ← p.vram.readNametableChecked u.cartridge.mirroring address
      let palette ← Background.groupOfChecked p.scroll.v attributes
      some { p with background := { p.background with palette } }
  | 5 => p.fetchPlaneChecked u false
  | 7 => p.fetchPlaneChecked u true
  | 0 => do
      let v ← Scroll.nextColumnChecked p.scroll.v
      some { p with background := p.background.store, scroll := { p.scroll with v } }
  | _ => some p

/-- Moves the current address at the dots at which it moves as a whole. -/
def moveAddressChecked (p : Ppu) : Option Ppu :=
  if p.beam.dot = 256 then do
    let v ← Scroll.nextRowChecked p.scroll.v
    some { p with scroll := { p.scroll with v } }
  else some p.moveAddress

/-- Finds the sprites of the next line, or clears them if this line has none. -/
def selectSpritesChecked (p : Ppu) (u : UxRom) : Option Ppu :=
  if p.beam.dot = 257 then
    if p.beam.visible then do
      let found ← Sprite.searchChecked p.vram u p.spriteShape p.oam p.beam.scanline
        (List.finRange 64) 0 []
      some { p with
        sprites := found.2
        spriteOverflow := p.spriteOverflow || decide (maxSprites < found.1) }
    else some { p with sprites := [] }
  else some p

variable {u : UxRom}

theorem fetchPlaneChecked_eq (p : Ppu) (hu : 0x2000 ≤ u.cartridge.chr.size) (high : Bool) :
    p.fetchPlaneChecked u high = some (p.fetchPlane u high) := by
  have hlt := Background.patternAddress_lt p.backgroundTable p.background.tile p.scroll.v
  rw [fetchPlaneChecked, Background.patternAddressChecked_eq, fetchPlane]
  generalize Background.patternAddress p.backgroundTable p.background.tile p.scroll.v = start
    at hlt ⊢
  simp only [Option.bind_eq_bind, Option.bind_some]
  have hplane : ∀ address : UInt16, address.toNat < 0x2000 →
      ∃ value, p.vram.readShapeChecked u address.toNat = some value ∧
        p.vram.read u address = some value := by
    intro address haddress
    have hsome := (UxRom.completeChr hu).isSome_read p.vram address
    obtain ⟨value, hvalue⟩ := Option.isSome_iff_exists.mp hsome
    exact ⟨value, (p.vram.readShapeChecked_eq u address haddress).trans hvalue, hvalue⟩
  cases high with
  | true =>
      have hsum : (start + 8).toNat = start.toNat + 8 := by
        rw [UInt16.toNat_add]
        exact Nat.mod_eq_of_lt (Nat.lt_trans hlt (by decide))
      obtain ⟨value, hchecked, hread⟩ := hplane (start + 8) (by omega)
      rw [if_pos rfl, if_pos rfl, Checked.add_eq (by omega), Option.bind_some, ← hsum, hchecked,
        hread]
      rfl
  | false =>
      obtain ⟨value, hchecked, hread⟩ := hplane start (by omega)
      rw [if_neg Bool.false_ne_true, if_neg Bool.false_ne_true, Checked.add_eq (by omega),
        Option.bind_some, Nat.add_zero, hchecked, hread]
      rfl

theorem fetchChecked_eq (p : Ppu) (hu : 0x2000 ≤ u.cartridge.chr.size) :
    p.fetchChecked u = some (p.fetch u) := by
  unfold fetchChecked fetch
  dsimp only
  have hlt : p.beam.dot % 8 < 8 := Nat.mod_lt _ (by decide)
  generalize p.beam.dot % 8 = position at hlt ⊢
  match position, hlt with
  | 1, _ =>
      rw [Vram.readNametableChecked_eq]
      rfl
  | 3, _ =>
      simp only [Option.bind_eq_bind, Option.bind_some, Vram.readNametableChecked_eq,
        Background.groupOfChecked_eq]
      rfl
  | 5, _ => exact fetchPlaneChecked_eq _ hu false
  | 7, _ => exact fetchPlaneChecked_eq _ hu true
  | 0, _ =>
      rw [Scroll.nextColumnChecked_eq]
      rfl
  | 2, _ | 4, _ | 6, _ => rfl

theorem moveAddressChecked_eq (p : Ppu) : p.moveAddressChecked = some p.moveAddress := by
  unfold moveAddressChecked
  split
  · next h =>
      rw [Scroll.nextRowChecked_eq, moveAddress, if_pos h]
      rfl
  · rfl

theorem selectSpritesChecked_eq (p : Ppu) (hu : 0x2000 ≤ u.cartridge.chr.size) :
    p.selectSpritesChecked u = some (p.selectSprites u) := by
  unfold selectSpritesChecked selectSprites
  split
  · split
    · next hv =>
        have hline : p.beam.scanline < 240 := of_decide_eq_true hv
        have hentries : 0 + (List.finRange 64).length < 2 ^ 64 := by
          rw [List.length_finRange]
          decide
        have hsearch := Sprite.searchChecked_eq p.vram hu p.spriteShape p.oam
          (by omega : p.beam.scanline < 2 ^ 31) (List.finRange 64)
          (rfl : ([] : List Sprite).length = min 0 maxSprites) hentries
        have hcomplete := UxRom.completeChr hu
        have hfound : ((p.oam.onLine p.spriteShape.height p.beam.scanline).take maxSprites |>.map
            (Sprite.fetch? p.vram u p.spriteShape p.oam p.beam.scanline)).any Option.isNone =
              false := by
          rw [List.any_map, List.any_eq_false]
          intro entry _ hnone
          have hsome :=
            hcomplete.isSome_fetchSprite p.vram p.spriteShape p.oam p.beam.scanline entry
          exact Option.isSome_iff_ne_none.mp hsome (Option.isNone_iff_eq_none.mp hnone)
        rw [hsearch, evaluateSprites, hfound, List.filterMap_map, Bool.or_false]
        simp only [Option.bind_eq_bind, Option.bind_some, Nat.zero_add, List.nil_append,
          Nat.sub_zero]
        rfl
    · rfl
  · rfl

/-! ## Dots -/

/-- Moves the countdown of the interrupt line and the beam on. -/
def tickChecked (p : Ppu) : Option Ppu := do
  let nmi ← p.nmi.tickChecked
  let beam ← p.beam.advanceChecked p.rendering
  some { p with nmi, beam }

/-- The fetch cycle at a dot, if it has one. -/
def fetchDotChecked (p : Ppu) (u : UxRom) : Option Ppu :=
  if p.beam.renders && p.beam.fetches then p.fetchChecked u else some p

/-- The movement of the current address at a dot, if it has one. -/
def moveDotChecked (p : Ppu) : Option Ppu :=
  if p.beam.renders then p.moveAddressChecked else some p

/-- What a dot does to the picture before the vertical blank is looked at. -/
def renderDotChecked (p : Ppu) (u : UxRom) : Option Ppu :=
  if p.rendering then do
    let drawn ← p.drawDotChecked
    let fetched ← drawn.fetchDotChecked u
    let moved ← fetched.moveDotChecked
    moved.selectSpritesChecked u
  else some p

/-- One dot. -/
def stepChecked (p : Ppu) (u : UxRom) : Option Ppu := do
  let ticked ← p.tickChecked
  let rendered ← ticked.renderDotChecked u
  some rendered.updateVblank

theorem tickChecked_eq {p : Ppu} (h : p.beam.WellTimed) (hframe : p.beam.frame + 1 < 2 ^ 64) :
    p.tickChecked = some p.tick := by
  rw [tickChecked, NmiLatch.tickChecked_eq, Beam.advanceChecked_eq h hframe]
  rfl

theorem fetchDotChecked_eq (p : Ppu) (hu : 0x2000 ≤ u.cartridge.chr.size) :
    p.fetchDotChecked u = some (p.fetchDot u) := by
  unfold fetchDotChecked fetchDot
  split
  · exact p.fetchChecked_eq hu
  · rfl

theorem moveDotChecked_eq (p : Ppu) : p.moveDotChecked = some p.moveDot := by
  unfold moveDotChecked moveDot
  split
  · exact p.moveAddressChecked_eq
  · rfl

theorem renderDotChecked_eq {p : Ppu} (hscroll : p.scroll.Bounded)
    (hslots : p.sprites.length ≤ maxSprites) (hu : 0x2000 ≤ u.cartridge.chr.size) :
    p.renderDotChecked u = some (p.renderDot u) := by
  unfold renderDotChecked renderDot
  split
  · simp only [Option.bind_eq_bind, Option.bind_some, drawDotChecked_eq hscroll hslots,
      fetchDotChecked_eq _ hu, moveDotChecked_eq, selectSpritesChecked_eq _ hu]
    rfl
  · rfl

/-- **A dot of a sound state does not fail.** -/
theorem stepChecked_eq {p : Ppu} (h : p.Sound) (hframe : p.beam.frame + 1 < 2 ^ 64)
    (hu : 0x2000 ≤ u.cartridge.chr.size) : p.stepChecked u = some (p.step u) := by
  -- the counters move first, and leave the registers and the slots alone
  have hrender := renderDotChecked_eq (p := p.tick) h.scroll h.slots hu
  simp only [stepChecked, tickChecked_eq h.beam hframe, Option.bind_eq_bind, Option.bind_some,
    hrender]
  rfl

/-! ## Registers -/

/-- Reads picture memory at the current address. -/
def readDataChecked (p : Ppu) (u : UxRom) : Option (UInt8 × Ppu) := do
  let v := p.scroll.v
  let value ← p.vram.readChecked u v
  if v % 0x4000 < 0x3F00 then
    some (p.buffer, ({ p with buffer := value }).advanceAddress)
  else do
    let buffer ← p.vram.readChecked u (v - 0x1000)
    some (value, ({ p with buffer }).advanceAddress)

/-- Writes picture memory at the current address. -/
def writeDataChecked (p : Ppu) (u : UxRom) (value : UInt8) : Option (Ppu × UxRom) := do
  let r ← p.vram.writeChecked u p.scroll.v value
  some (({ p with vram := r.1 }).advanceAddress, r.2)

/-- Writes a byte of sprite memory and moves its address on. -/
def writeOamChecked (p : Ppu) (value : UInt8) : Option Ppu := do
  let oam ← Checked.store p.oam p.oamAddr.toNat value
  some { p with oam, oamAddr := p.oamAddr + 1 }

/-- Stores a page in sprite memory, starting at its address. -/
def writeOamPageChecked (p : Ppu) (page : UInt8) (bytes : Array UInt8) : Option Ppu :=
  bytes.foldlM writeOamChecked { p with latch := page }

/-- A read by the CPU. -/
def readRegisterChecked (p : Ppu) (u : UxRom) (addr : UInt16) : Option (UInt8 × Ppu) :=
  match Register.at? addr with
  | some .oamData => (p.oam[p.oamAddr.toNat]?).map fun value => (value, p)
  | some .data => p.readDataChecked u
  | _ => some (p.readRegister u addr)

/-- A write by the CPU. -/
def writeRegisterChecked (p : Ppu) (u : UxRom) (addr : UInt16) (value : UInt8) :
    Option (Ppu × UxRom) :=
  match Register.at? addr with
  | some .oamData => (({ p with latch := value } : Ppu).writeOamChecked value).map fun p => (p, u)
  | some .data => ({ p with latch := value } : Ppu).writeDataChecked u value
  | _ => some (p.writeRegister u addr value)

/-- On a complete cartridge every address leads to a byte, and none is found to be missing. -/
theorem readChecked_eq_peek (p : Ppu) (hu : 0x2000 ≤ u.cartridge.chr.size) (addr : UInt16) :
    p.vram.readChecked u addr = some (p.peek u addr) := by
  have hsome := (UxRom.completeChr hu).isSome_read p.vram addr
  rw [Vram.readChecked_eq, peek, ← Option.some_get hsome, Option.getD_some]

theorem lacksByte_eq_false (p : Ppu) (hu : 0x2000 ≤ u.cartridge.chr.size) :
    p.lacksByte u = false :=
  (UxRom.completeChr hu).lacksByte_eq_false p

theorem readDataChecked_eq (p : Ppu) (hu : 0x2000 ≤ u.cartridge.chr.size) :
    p.readDataChecked u = some (p.readData u) := by
  simp only [readDataChecked, readData, readChecked_eq_peek p hu, lacksByte_eq_false p hu,
    Bool.or_false, Option.bind_eq_bind, Option.bind_some]
  split <;> rfl

theorem writeDataChecked_eq (p : Ppu) (hu : 0x2000 ≤ u.cartridge.chr.size) (value : UInt8) :
    p.writeDataChecked u value = some (p.writeData u value) := by
  rw [writeDataChecked, p.vram.writeChecked_eq hu, writeData, lacksByte_eq_false p hu,
    Bool.or_false]
  rfl

theorem writeOamChecked_eq (p : Ppu) (value : UInt8) :
    p.writeOamChecked value = some (p.writeOam value) := by
  rw [writeOamChecked, Checked.store_eq p.oam p.oamAddr.toNat_lt]
  rfl

theorem writeOamPageChecked_eq (p : Ppu) (page : UInt8) (bytes : Array UInt8) :
    p.writeOamPageChecked page bytes = some (p.writeOamPage page bytes) := by
  have hpure : writeOamChecked = fun p value => pure (p.writeOam value) :=
    funext fun p => funext fun value => p.writeOamChecked_eq value
  rw [writeOamPageChecked, hpure, Array.foldlM_pure]
  rfl

/-- **Reads of registers do not fail.** -/
theorem readRegisterChecked_eq (p : Ppu) (hu : 0x2000 ≤ u.cartridge.chr.size) (addr : UInt16) :
    p.readRegisterChecked u addr = some (p.readRegister u addr) := by
  unfold readRegisterChecked
  split
  · next h =>
      rw [Vector.getElem?_eq_getElem p.oamAddr.toNat_lt, readRegister, h]
      rfl
  · next h => rw [readDataChecked_eq p hu, readRegister, h]
  · rfl

/-- **Writes of registers do not fail.** -/
theorem writeRegisterChecked_eq (p : Ppu) (hu : 0x2000 ≤ u.cartridge.chr.size) (addr : UInt16)
    (value : UInt8) :
    p.writeRegisterChecked u addr value = some (p.writeRegister u addr value) := by
  unfold writeRegisterChecked
  split
  · next h =>
      rw [writeOamChecked_eq, writeRegister, h]
      rfl
  · next h =>
      rw [writeDataChecked_eq _ hu, writeRegister, h]
  · rfl

end Ppu

end Nes
