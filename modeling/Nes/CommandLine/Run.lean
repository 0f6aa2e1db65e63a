import Nes.CommandLine.Request
import Nes.Console
import Nes.Decimal.Writer

/-!
# Carrying out an invocation

An invocation brings up a console with the image, runs it, and reports the state in which the CPU
ends. All it leaves behind is an exit code and its notices. There is neither a window nor a way to
save a picture: asking for a window ends the invocation before it runs, and asking for a screenshot
only adds a notice at the end.
-/

set_option autoImplicit false

namespace Nes.CommandLine

/-- What an invocation leaves behind. -/
structure Outcome where
  exitCode : UInt8
  journal : Journal
  deriving Repr

/-- An invocation that failed. -/
def Outcome.failure (journal : Journal) (e : Error) : Outcome :=
  { exitCode := 1, journal := journal.record .error fun _ => e.message }

/-- The notice before a run. -/
def Extent.announcement : Extent → String
  | frames count => s!"running {count.toNat} frames"
  | seconds time => "running " ++ Decimal.floatText time ++ "s of emulated time"

/-- Runs a console. -/
def Extent.run : Extent → Console → Console
  | frames count, c => c.stepFrames count.toNat
  | seconds time, c => c.stepSeconds time

/-- The notice after a run. -/
def closing (c : Console) : String :=
  s!"done: frame {c.ppu.beam.frame} cycles {c.cpu.cycles}" ++
    " pc $" ++ Hex.word c.cpu.pc ++ " a $" ++ Hex.byte c.cpu.a ++ " x $" ++ Hex.byte c.cpu.x ++
    " y $" ++ Hex.byte c.cpu.y ++ " p $" ++ Hex.byte c.cpu.p ++ " sp $" ++ Hex.byte c.cpu.sp

namespace Invocation

/-- The most detailed notices that are kept. -/
def threshold (i : Invocation) : Level := if i.verbose then .debug else .info

/-- Runs a console for as long as asked, and reports how it ends. -/
def runConsole (i : Invocation) (c : Console) : Console :=
  let c := c.note .info fun _ => i.extent.announcement
  let c := i.extent.run c
  let c := c.note .info fun _ => closing c
  match i.screenshot with
  | none => c
  | some path =>
      c.note .error fun _ => "built without the `screenshot` feature; not writing " ++ path

/-- Carries out an invocation whose image has the given content, or cannot be read. -/
def run (i : Invocation) (image : Option (Array UInt8)) : Outcome :=
  let journal : Journal := { threshold := some i.threshold }
  match image with
  | none => .failure journal .unreadable
  | some image =>
      match Console.ofImage image journal with
      | .error e => .failure (INes.load image journal).1 e
      | .ok c =>
          if i.display then
            let c := c.note .error fun _ =>
              "built without the `display` feature; rebuild with --features display"
            { exitCode := 0, journal := c.journal }
          else { exitCode := 0, journal := (i.runConsole c).journal }

end Invocation

end Nes.CommandLine
