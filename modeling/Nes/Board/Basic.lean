import Nes.Cartridge.Basic

/-!
# Cartridge boards

A board owns a cartridge and answers for it on two buses. The CPU reaches it from 6000 on, the
picture unit below 2000; a board also picks the layout of the nametables, is told of every dot
and may hold down the interrupt line of the CPU. A read may change the board.

Picture memory can be shorter than its window. A read past its end has no result (`none`), and a
write there is lost; whoever makes such an access has to say what follows.
-/

set_option autoImplicit false

namespace Nes

/-- What a cartridge board of type `μ` does. -/
class Board (μ : Type) where
  /-- The cartridge on the board. -/
  cartridge : μ → Cartridge
  /-- A read by the CPU. -/
  cpuRead : μ → UInt16 → UInt8 × μ
  /-- A write by the CPU. -/
  cpuWrite : μ → UInt16 → UInt8 → μ
  /-- A read by the picture unit. -/
  ppuRead : μ → UInt16 → Option UInt8
  /-- A write by the picture unit. -/
  ppuWrite : μ → UInt16 → UInt8 → μ
  /-- The layout of the nametables, by default the one the cartridge is wired for. -/
  mirroring : μ → Mirroring := fun b => (cartridge b).mirroring
  /-- One dot passes. -/
  step : μ → μ := fun b => b
  /-- Whether the interrupt line is held down. -/
  irqPending : μ → Bool := fun _ => false
  /-- The console is reset. -/
  reset : μ → μ := fun b => b

end Nes
