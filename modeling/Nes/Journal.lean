/-!
# The journal of a run

Parts of the machine report what they do as notices: a level and a text. A journal keeps the
notices that are at least as grave as its threshold, in the order in which they were recorded,
and a journal without a threshold keeps nothing. Texts are passed unevaluated, so a notice
that is not kept costs nothing.
-/

set_option autoImplicit false

namespace Nes

/-- How grave a notice is, from the gravest on. -/
inductive Level
  | error
  | warn
  | info
  | debug
  | trace
  deriving DecidableEq, Repr

namespace Level

/-- Position in the order of gravity: the larger, the more detailed. -/
def detail : Level → Nat
  | error => 0
  | warn => 1
  | info => 2
  | debug => 3
  | trace => 4

/-- The word a notice of this level starts with. -/
def label : Level → String
  | error => "ERROR"
  | warn => "WARN"
  | info => "INFO"
  | debug => "DEBUG"
  | trace => "TRACE"

end Level

/-- One reported fact. -/
structure Notice where
  level : Level
  text : String
  deriving DecidableEq, Repr

/-- A notice as a line: its level, a blank and its text. -/
def Notice.line (n : Notice) : String := n.level.label ++ " " ++ n.text

/-- The notices kept so far, and the most detailed level that is kept. -/
structure Journal where
  threshold : Option Level := none
  notices : Array Notice := #[]
  deriving Repr

namespace Journal

/-- Whether notices of this level are kept. -/
def keeps (j : Journal) (level : Level) : Bool :=
  match j.threshold with
  | none => false
  | some t => decide (level.detail ≤ t.detail)

/-- Adds a notice if its level is kept. -/
@[inline] def record (j : Journal) (level : Level) (text : Unit → String) : Journal :=
  if j.keeps level then { j with notices := j.notices.push ⟨level, text ()⟩ } else j

/-- The lines of all notices kept so far. -/
def lines (j : Journal) : Array String := j.notices.map Notice.line

/-- The same journal with its notices removed. -/
def clear (j : Journal) : Journal := { j with notices := #[] }

end Journal

end Nes
