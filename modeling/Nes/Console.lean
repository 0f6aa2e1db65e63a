import Nes.Board.UxRom
import Nes.Cartridge.INes
import Nes.Machine.Step

/-!
# The console

A console is a machine with the board of a cartridge, reset before its first step. Bring-up fails if
the image cannot be read, then if no board is known for the cartridge, then if its program memory
does not fill a bank.
-/

set_option autoImplicit false

namespace Nes

/-- A machine with the board of a cartridge. -/
abbrev Console := Machine UxRom

namespace Console

/-- The console with a cartridge, after its first reset. -/
def ofCartridge (c : Cartridge) (journal : Journal) : Except Error Console := do
  let board ← boardFor c
  return ({ board, journal } : Console).reset

/-- The console with the cartridge of an image, after its first reset. -/
def ofImage (image : Array UInt8) (journal : Journal) : Except Error Console :=
  let loaded := INes.load image journal
  loaded.2.bind fun c => ofCartridge c loaded.1

/-- The state of a console cannot be saved. -/
def saveState (_ : Console) : Except Error (Array UInt8) := .error .saveStateUnsupported

/-- The state of a console cannot be restored. -/
def loadState (_ : Console) (_ : Array UInt8) : Except Error Console :=
  .error .saveStateUnsupported

end Console

end Nes
