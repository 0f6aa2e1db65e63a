import Nes.CommandLine.Item
import Nes.Decimal.Reader

/-!
# What a command line asks for

A command line names a cartridge image and says how long to run it: for a number of frames, sixty
unless said otherwise, or for a time in seconds. The items are taken in order, and the first that is
malformed, repeated or has a value of the wrong form refuses the whole line. A request for help or
for the version wins over everything behind it.
-/

set_option autoImplicit false

namespace Nes.CommandLine

/-- How long to run. -/
inductive Extent
  | frames (count : UInt64)
  | seconds (time : Float)
  deriving Repr

/-- One run of an image. -/
structure Invocation where
  /-- The path of the cartridge image. -/
  image : String
  extent : Extent
  /-- Where the last frame is to be saved. -/
  screenshot : Option String
  /-- Whether the frames are to be shown in a window. -/
  display : Bool
  /-- Whether detailed notices are kept. -/
  verbose : Bool
  deriving Repr

/-- What a command line asks for. -/
inductive Request
  | run (invocation : Invocation)
  | help
  | version
  /-- The command line cannot be read. -/
  | refuse
  deriving Repr

/-- What the items so far have given. -/
structure Given where
  image : Option String := none
  frames : Option UInt64 := none
  seconds : Option Float := none
  screenshot : Option String := none
  display : Bool := false
  verbose : Bool := false
  deriving Repr

namespace Given

/-- A path has at least one character. -/
def path? (text : String) : Option String := if text.isEmpty then none else some text

/-- Takes the value of a setting, which must be the first for this setting and of its form. -/
def setting? (g : Given) (s : Setting) (value : String) : Option Given :=
  match s with
  | .frames =>
      if g.frames.isSome then none
      else (Decimal.natural? value).map fun n => { g with frames := some n }
  | .seconds =>
      if g.seconds.isSome then none
      else (Decimal.float? value).map fun x => { g with seconds := some x }
  | .screenshot =>
      if g.screenshot.isSome then none
      else (path? value).map fun p => { g with screenshot := some p }

/-- Takes the path of the image, which must be the only positional text. -/
def positional? (g : Given) (text : String) : Option Given :=
  if g.image.isSome then none else (path? text).map fun p => { g with image := some p }

/-- Takes one item, or knows from it what the whole line asks for. -/
def take (g : Given) : Item → Except Request Given
  | .switch .display => if g.display then .error .refuse else .ok { g with display := true }
  | .switch .verbose => if g.verbose then .error .refuse else .ok { g with verbose := true }
  | .switch .help => .error .help
  | .switch .version => .error .version
  | .setting s value => ((g.setting? s value).map Except.ok).getD (.error .refuse)
  | .positional text => ((g.positional? text).map Except.ok).getD (.error .refuse)
  | .malformed => .error .refuse

/-- How long to run. Frames and seconds exclude each other. -/
def extent? (g : Given) : Option Extent :=
  match g.frames, g.seconds with
  | none, none => some (.frames 60)
  | some n, none => some (.frames n)
  | none, some x => some (.seconds x)
  | some _, some _ => none

/-- What the whole line asks for, once all items are taken. -/
def request (g : Given) : Request :=
  match g.image, g.extent? with
  | some image, some extent =>
      .run
        { image
          extent
          screenshot := g.screenshot
          display := g.display
          verbose := g.verbose }
  | _, _ => .refuse

end Given

/-- Reads a command line, without the name of the program. -/
def Request.ofArguments (arguments : List String) : Request :=
  match (items arguments).foldlM Given.take {} with
  | .ok g => g.request
  | .error r => r

end Nes.CommandLine
