import Nes.CommandLine.Run

/-!
# The program

Reads the command line and the image it names, and prints the notices of the run.
-/

set_option autoImplicit false

namespace Nes.CommandLine

/-- How the program is called. -/
def usage : String :=
  "usage: nes [-f FRAMES | -s SECONDS] [--screenshot PATH] [-d] [-v] ROM"

/-- The content of a file, if it can be read. -/
def readImage? (path : String) : IO (Option (Array UInt8)) := do
  try
    let content ← IO.FS.readBinFile path
    return some content.data
  catch _ => return none

/-- Answers a request, and gives the exit code. -/
def answer : Request → IO UInt32
  | .help => do
      IO.println usage
      return 0
  | .version => do
      IO.println "nes 0.1.0"
      return 0
  | .refuse => do
      IO.eprintln usage
      return 2
  | .run i => do
      let outcome := i.run (← readImage? i.image)
      for line in outcome.journal.lines do
        IO.eprintln line
      return outcome.exitCode.toUInt32

end Nes.CommandLine

/-- The program's entry. -/
def main (arguments : List String) : IO UInt32 :=
  Nes.CommandLine.answer (Nes.CommandLine.Request.ofArguments arguments)
