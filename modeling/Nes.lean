import Nes.Board.IrqWindow
import Nes.Main
import Nes.Memory.Flat
import Nes.Proofs.Checked.Console
import Nes.Proofs.Cpu.Cost
import Nes.Proofs.Cpu.DecimalRuns
import Nes.Proofs.Cpu.EffectiveAddress
import Nes.Proofs.Cpu.Footprint
import Nes.Proofs.Cpu.LongShifts
import Nes.Proofs.Cpu.RoundTrip
import Nes.Proofs.Cpu.StackOrder
import Nes.Proofs.Machine.FrameRun
import Nes.Proofs.Machine.HostAccess
import Nes.Proofs.Machine.IrqService
import Nes.Proofs.Machine.NmiService
import Nes.Proofs.Machine.PageCopy
import Nes.Proofs.Machine.Reset
import Nes.Proofs.Machine.Routing
import Nes.Proofs.Machine.Screen
import Nes.Proofs.Machine.StatusHistory
import Nes.Proofs.Machine.TransferWait
import Nes.Proofs.Ppu.BackgroundLayer
import Nes.Proofs.Ppu.FrameParity
import Nes.Proofs.Ppu.FrameTiming
import Nes.Proofs.Ppu.NmiHistory
import Nes.Proofs.Ppu.Presentation
import Nes.Proofs.Ppu.ReadBack
import Nes.Proofs.Ppu.ScrollSteps
import Nes.Proofs.Ppu.SpriteSearch
import Nes.Proofs.Ppu.Transfers
