/-!
# Why a console cannot be brought up

Only bring-up fails: reading a cartridge image, or finding a board for the cartridge. A console
that exists can always be stepped. Saving and restoring a running console is not offered.
-/

set_option autoImplicit false

namespace Nes

/-- The consecutive parts of a cartridge image. -/
inductive ImageSection
  | header
  | trainer
  | prgRom
  | chrRom
  deriving DecidableEq, Repr

/-- The name of an image section in a message. -/
def ImageSection.name : ImageSection → String
  | header => "header"
  | trainer => "trainer"
  | prgRom => "PRG ROM"
  | chrRom => "CHR ROM"

/-- The causes of failure. -/
inductive Error
  /-- No board is known for the cartridge's mapper number. -/
  | unsupportedMapper (id : UInt8)
  /-- The image does not start with the four bytes that mark the format. -/
  | badMagic
  /-- The image ends before the end of a section that its header promises. -/
  | truncated (missing : ImageSection)
  /-- The program memory does not fill one bank. -/
  | noPrgBank
  /-- The image file cannot be read. -/
  | unreadable
  /-- The state of a running console can be neither saved nor restored. -/
  | saveStateUnsupported
  deriving DecidableEq, Repr

/-- The text shown for a cause. -/
def Error.message : Error → String
  | unsupportedMapper id => s!"unsupported mapper id: {id}"
  | badMagic => "invalid iNES header: bad magic (expected NES<1A>)"
  | truncated missing => "iNES image truncated: missing " ++ missing.name
  | noPrgBank => "invalid cartridge geometry: PRG ROM smaller than one 16 KiB bank"
  | unreadable => "I/O error"
  | saveStateUnsupported => "save states are not supported"

end Nes
