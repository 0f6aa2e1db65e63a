import Nes.Ppu.Registers

/-!
# Dots

`Ppu.step` moves the picture unit on by one dot. While something is rendered, a dot of a visible
line draws a pixel, the fetch cycle goes on, the current address moves and, once a line, the sprites
of the next line are found. The vertical blank starts and ends whether or not anything is rendered;
when it starts, the frame that has been drawn comes to the front.
-/

set_option autoImplicit false

namespace Nes.Ppu

variable {μ : Type} [Board μ]

/-! ## Pixels -/

/-- The digit of the background at the current dot, 0 if it is not rendered. -/
def backgroundDigit (p : Ppu) : UInt8 :=
  if p.showsBackground then p.background.digit p.scroll.fineX else 0

/-- The pixel of the background at a column, as far as it shows there. -/
def backgroundPixel (p : Ppu) (x : Nat) : UInt8 :=
  if x < 8 ∧ p.showsLeftBackground = false then 0 else p.backgroundDigit

/-- The sprite that shows at a column, if one does. -/
def spriteAt (p : Ppu) (x : Nat) : Option Sprite :=
  if p.showsSprites = false ∨ x < 8 ∧ p.showsLeftSprites = false then none
  else Sprite.first? p.sprites x

/-- The palette entry for a background pixel and a sprite at a column. Sprites have the upper half
of the palette; where neither layer shows, it is the first entry. -/
def compose (background : UInt8) (sprite : Option Sprite) (x : Nat) : UInt8 :=
  match sprite with
  | none => if Pattern.opaquePixel background then background else 0
  | some s =>
      if Pattern.opaquePixel background && s.behind then background else s.pixelAt x ||| 0x10

/-- Whether the sprite of the first entry meets the background at a column; the last column does not
count. -/
def meetsSpriteZero (background : UInt8) (sprite : Option Sprite) (x : Nat) : Bool :=
  match sprite with
  | none => false
  | some s => Pattern.opaquePixel background && s.entry.val == 0 && decide (x < 255)

/-- Draws a pixel. -/
def renderPixel (p : Ppu) (x : Fin frameWidth) (y : Fin frameHeight) : Ppu :=
  let background := p.backgroundPixel x
  let sprite := p.spriteAt x
  let colour := p.colour (compose background sprite x).toUInt16
  { p with
    back := p.back.set x y colour
    spriteZeroHit := p.spriteZeroHit || meetsSpriteZero background sprite x }

/-! ## The fetch cycle -/

/-- Fetches one plane of a row of the next tile. -/
def fetchPlane (p : Ppu) (board : μ) (high : Bool) : Ppu :=
  let address := Background.patternAddress p.backgroundTable p.background.tile p.scroll.v
  match p.vram.read board (if high then address + 8 else address) with
  | none => { p with fault := true }
  | some value =>
      if high then { p with background := { p.background with high := value } }
      else { p with background := { p.background with low := value } }

/-- One dot of the fetch cycle, by its position among the eight dots of a tile. -/
def fetch (p : Ppu) (board : μ) : Ppu :=
  let p := { p with background := p.background.shift }
  match p.beam.dot % 8 with
  | 1 =>
      let address := Background.tileAddress p.scroll.v
      let tile := p.vram.readNametable (Board.mirroring board) address
      { p with background := { p.background with tile } }
  | 3 =>
      let address := Background.attributeAddress p.scroll.v
      let attributes := p.vram.readNametable (Board.mirroring board) address
      { p with
        background := { p.background with palette := Background.groupOf p.scroll.v attributes } }
  | 5 => p.fetchPlane board false
  | 7 => p.fetchPlane board true
  | 0 => { p with background := p.background.store, scroll := p.scroll.incrementX }
  | _ => p

/-! ## Sprites -/

/-- Finds the sprites of the next line among the entries that cover this one. -/
def evaluateSprites (p : Ppu) (board : μ) : Ppu :=
  let shape := p.spriteShape
  let entries := p.oam.onLine shape.height p.beam.scanline
  let found := (entries.take maxSprites).map
    (Sprite.fetch? p.vram board shape p.oam p.beam.scanline)
  { p with
    sprites := found.filterMap id
    spriteOverflow := p.spriteOverflow || decide (maxSprites < entries.length)
    fault := p.fault || found.any Option.isNone }

/-! ## One dot -/

/-- Moves the countdown of the interrupt line and the beam on. -/
def tick (p : Ppu) : Ppu :=
  { p with nmi := p.nmi.tick, beam := p.beam.advance p.rendering }

/-- Draws the pixel of this dot, if there is one. -/
def drawDot (p : Ppu) : Ppu :=
  if h : p.beam.inPicture then
    p.renderPixel ⟨p.beam.dot - 1, by have := h.2; simp only [frameWidth]; omega⟩
      ⟨p.beam.scanline, h.1⟩
  else p

/-- Moves the current address at the dots at which it moves as a whole: down at the end of a line,
back to the left at the next dot, and up to the top while the frame is prepared. -/
def moveAddress (p : Ppu) : Ppu :=
  if p.beam.dot = 256 then { p with scroll := p.scroll.incrementY }
  else if p.beam.dot = 257 then { p with scroll := p.scroll.copyX }
  else if p.beam.preRender && decide (280 ≤ p.beam.dot) && decide (p.beam.dot ≤ 304) then
    { p with scroll := p.scroll.copyY }
  else p

/-- Finds the sprites of the next line, or clears them if this line has none. -/
def selectSprites (p : Ppu) (board : μ) : Ppu :=
  if p.beam.dot = 257 then
    if p.beam.visible then p.evaluateSprites board else { p with sprites := [] }
  else p

/-- What happens at a dot while something is rendered. -/
def render (p : Ppu) (board : μ) : Ppu :=
  let p := p.drawDot
  let p := if p.beam.renders && p.beam.fetches then p.fetch board else p
  let p := if p.beam.renders then p.moveAddress else p
  p.selectSprites board

/-- Starts the vertical blank: the frame that has been drawn comes to the front. -/
def startVblank (p : Ppu) : Ppu :=
  { p with front := p.back, back := p.front, nmi := p.nmi.setOccurred true }

/-- Ends the vertical blank and clears the sprite flags. -/
def endVblank (p : Ppu) : Ppu :=
  { p with nmi := p.nmi.setOccurred false, spriteZeroHit := false, spriteOverflow := false }

/-- Starts or ends the vertical blank at the dots at which it does. -/
def updateVblank (p : Ppu) : Ppu :=
  if p.beam.startsVblank then p.startVblank
  else if p.beam.endsVblank then p.endVblank
  else p

/-- One dot. -/
def step (p : Ppu) (board : μ) : Ppu :=
  let p := p.tick
  let p := if p.rendering then p.render board else p
  p.updateVblank

/-- As many dots as the number says. -/
def steps (board : μ) : Nat → Ppu → Ppu
  | 0, p => p
  | n + 1, p => steps board n (p.step board)

end Nes.Ppu
