import Nes.Ppu.Pattern
import Nes.Ppu.Vram

/-!
# Sprites

Sprite memory holds 64 entries of four bytes: the line above the sprite, the number of its tile, its
attributes and its left column. Sprites are eight pixels wide and, all of them, eight or sixteen
lines high. Of the entries that cover a line, the first eight become the sprites drawn on the next
one.
-/

set_option autoImplicit false

namespace Nes

/-- The 256 bytes of sprite memory. -/
abbrev Oam := Vector UInt8 256

namespace Oam

/-- One of the four bytes of an entry. -/
def byte (o : Oam) (entry : Fin 64) (field : Fin 4) : UInt8 :=
  have h : entry.val * 4 + field.val < 256 := by omega
  o[entry.val * 4 + field.val]

/-- The line above the sprite. -/
def line (o : Oam) (entry : Fin 64) : UInt8 := o.byte entry ⟨0, by decide⟩

/-- The number of the tile. -/
def tile (o : Oam) (entry : Fin 64) : UInt8 := o.byte entry ⟨1, by decide⟩

/-- The attributes: palette group (bits 0 and 1), behind the background (5), flipped horizontally
(6) and vertically (7). -/
def attributes (o : Oam) (entry : Fin 64) : UInt8 := o.byte entry ⟨2, by decide⟩

/-- The left column. -/
def left (o : Oam) (entry : Fin 64) : UInt8 := o.byte entry ⟨3, by decide⟩

/-- Whether an entry covers a line. -/
def covers (o : Oam) (height scanline : Nat) (entry : Fin 64) : Bool :=
  decide ((o.line entry).toNat ≤ scanline) && decide (scanline < (o.line entry).toNat + height)

/-- The entries that cover a line, in their order. -/
def onLine (o : Oam) (height scanline : Nat) : List (Fin 64) :=
  (List.finRange 64).filter (o.covers height scanline)

end Oam

/-- How sprites are shaped: their height, and for those of eight lines the table of their tiles. -/
structure SpriteShape where
  tall : Bool
  upperTable : Bool
  deriving DecidableEq, Repr

/-- Height of the sprites in lines. -/
def SpriteShape.height (s : SpriteShape) : Nat := if s.tall then 16 else 8

/-- A sprite on the line being drawn. -/
structure Sprite where
  /-- The row of its shape on this line, flipped if it is to be. -/
  pattern : UInt32
  left : UInt8
  /-- Drawn only where the background is transparent. -/
  behind : Bool
  /-- Its entry in sprite memory. -/
  entry : Fin 64
  deriving DecidableEq, Repr

namespace Sprite

/-! ## Shapes -/

/-- Where the low plane of a row of a sprite is stored; the high plane is eight bytes further. A
sprite of sixteen lines takes its table from the lowest bit of the tile number, and consists of the
even tile and the odd one below it. -/
def patternAddress (shape : SpriteShape) (tile : UInt8) (row : UInt16) : UInt16 :=
  if shape.tall then
    let half : UInt16 := row >>> 3
    let inHalf : UInt16 := row &&& 7
    (tile &&& 1).toUInt16 * 0x1000 + ((tile &&& 0xFE).toUInt16 + half) * 16 + inHalf
  else
    let table : UInt16 := if shape.upperTable then 0x1000 else 0
    table + tile.toUInt16 * 16 + row

/-- The row of the shape shown on a row of the sprite. -/
def shapeRow (shape : SpriteShape) (attributes : UInt8) (row : UInt16) : UInt16 :=
  if attributes &&& 0x80 ≠ 0 then UInt16.ofNat (shape.height - 1) - row else row

/-- Where the low plane is stored for a row of the sprite of an entry. -/
def rowAddress (shape : SpriteShape) (oam : Oam) (entry : Fin 64) (row : UInt16) : UInt16 :=
  patternAddress shape (oam.tile entry) (shapeRow shape (oam.attributes entry) row)

/-- A row made of the bytes of its planes, with the palette group and the horizontal flip of the
attributes. -/
def decode (attributes low high : UInt8) : UInt32 :=
  let palette := (attributes &&& 3) <<< 2
  if attributes &&& 0x40 ≠ 0 then Pattern.row palette (Pattern.reverse low) (Pattern.reverse high)
  else Pattern.row palette low high

variable {μ : Type} [Board μ]

/-- One row of the sprite of an entry, if the cartridge has the bytes of its shape. -/
def fetchRow? (vram : Vram) (board : μ) (shape : SpriteShape) (oam : Oam) (entry : Fin 64)
    (row : UInt16) : Option UInt32 :=
  let address := rowAddress shape oam entry row
  match vram.read board address, vram.read board (address + 8) with
  | some low, some high => some (decode (oam.attributes entry) low high)
  | _, _ => none

/-- The sprite of an entry on a line it covers. -/
def fetch? (vram : Vram) (board : μ) (shape : SpriteShape) (oam : Oam) (scanline : Nat)
    (entry : Fin 64) : Option Sprite :=
  let row := UInt16.ofNat (scanline - (oam.line entry).toNat)
  (fetchRow? vram board shape oam entry row).map fun pattern =>
    { pattern
      left := oam.left entry
      behind := decide ((oam.attributes entry >>> 5) &&& 1 ≠ 0)
      entry }

/-! ## Drawing -/

/-- The pixel of a sprite at a column, 0 outside it. -/
def pixelAt (s : Sprite) (x : Nat) : UInt8 :=
  if s.left.toNat ≤ x ∧ x ≤ s.left.toNat + 7 then
    Pattern.digit s.pattern (UInt32.ofNat (x - s.left.toNat))
  else 0

/-- The first of the sprites that shows at a column. -/
def first? (sprites : List Sprite) (x : Nat) : Option Sprite :=
  sprites.find? fun s => Pattern.opaquePixel (s.pixelAt x)

end Sprite

/-- Number of sprites drawn on a line. -/
def maxSprites : Nat := 8

end Nes
