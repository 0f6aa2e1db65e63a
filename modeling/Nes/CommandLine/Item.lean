/-!
# The items of a command line

The words of a command line are read from left to right into items: a switch, a setting with its
value, a positional text, or a word that cannot be read.

A word of two hyphens and a name is one item; the value of a setting may follow the name after an
equals sign. A word of one hyphen and letters gives an item for each letter, and the letters after
that of a setting are its value, less an equals sign in front. A setting without a value in its own
word takes the next word, which must not itself look like an option. Two hyphens alone end the
options, and one hyphen alone is an ordinary text.
-/

set_option autoImplicit false

namespace Nes.CommandLine

/-- An option that is present or absent. -/
inductive Switch
  | display
  | verbose
  | help
  | version
  deriving DecidableEq, Repr

/-- An option with a value. -/
inductive Setting
  | frames
  | seconds
  | screenshot
  deriving DecidableEq, Repr

/-- The switch with a long name. -/
def Switch.ofName? : String → Option Switch
  | "display" => some display
  | "verbose" => some verbose
  | "help" => some help
  | "version" => some version
  | _ => none

/-- The switch with a letter. -/
def Switch.ofLetter? : Char → Option Switch
  | 'd' => some display
  | 'v' => some verbose
  | 'h' => some help
  | 'V' => some version
  | _ => none

/-- The setting with a long name. -/
def Setting.ofName? : String → Option Setting
  | "frames" => some frames
  | "seconds" => some seconds
  | "screenshot" => some screenshot
  | _ => none

/-- The setting with a letter. A screenshot has none. -/
def Setting.ofLetter? : Char → Option Setting
  | 'f' => some frames
  | 's' => some seconds
  | _ => none

/-- One item of a command line. -/
inductive Item
  | switch (s : Switch)
  | setting (s : Setting) (value : String)
  | positional (text : String)
  /-- A word that is no item, or a setting whose value is missing. -/
  | malformed
  deriving DecidableEq, Repr

/-- The items of one word, and the setting that waits for the next word as its value. -/
structure Word where
  items : List Item
  awaiting : Option Setting := none
  deriving Repr

/-- A word after two hyphens: a name, and the text after an equals sign. -/
def Word.ofName (body : List Char) : Word :=
  let name := String.ofList (body.takeWhile (· != '='))
  let value? := match body.dropWhile (· != '=') with
    | [] => none
    | _ :: rest => some (String.ofList rest)
  match Switch.ofName? name, Setting.ofName? name, value? with
  | some s, _, none => { items := [.switch s] }
  | none, some s, some value => { items := [.setting s value] }
  | none, some s, none => { items := [], awaiting := some s }
  | _, _, _ => { items := [.malformed] }

/-- A word after one hyphen: letters of switches, and at most one setting behind them. -/
def Word.ofLetters : List Char → Word
  | [] => { items := [] }
  | c :: rest =>
      match Switch.ofLetter? c, Setting.ofLetter? c with
      | some s, _ =>
          let w := Word.ofLetters rest
          { w with items := .switch s :: w.items }
      | none, some s =>
          match rest with
          | [] => { items := [], awaiting := some s }
          | '=' :: value => { items := [.setting s (String.ofList value)] }
          | value => { items := [.setting s (String.ofList value)] }
      | none, none => { items := [.malformed] }

/-- A whole word. -/
def Word.ofText (text : String) : Word :=
  match text.toList with
  | '-' :: '-' :: body => Word.ofName body
  | '-' :: c :: letters => Word.ofLetters (c :: letters)
  | _ => { items := [.positional text] }

/-- Whether a word may be the value of the setting before it. -/
def isValue (text : String) : Bool :=
  match text.toList with
  | '-' :: _ :: _ => false
  | _ => true

/-- The items of a command line, if a setting may be waiting for its value. -/
def itemsAfter : Option Setting → List String → List Item
  | none, [] => []
  | some _, [] => [.malformed]
  | some s, text :: rest =>
      if isValue text then .setting s text :: itemsAfter none rest else [.malformed]
  | none, text :: rest =>
      if text = "--" then rest.map .positional
      else
        let w := Word.ofText text
        w.items ++ itemsAfter w.awaiting rest

/-- The items of a command line. -/
def items (arguments : List String) : List Item := itemsAfter none arguments

end Nes.CommandLine
