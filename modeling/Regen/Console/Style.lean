import Regen.Console.Color
import Regen.Text.Lower

/-! # Styles

    A style is written as words: attributes, each of which may be switched off by `not`, a colour,
    a background behind `on` and a target behind `link`.  Of several words for one part the last
    one counts.  Styles that do the same have one text, by which markup opens and closes them. -/

namespace Regen.Console

/-! ## Attributes -/

/-- What a style does to text besides its colours, in the order in which it is written. -/
inductive Attribute where
  | bold
  | dim
  | italic
  | underline
  | blink
  | blink2
  | reverse
  | conceal
  | strike
  | underline2
  | frame
  | encircle
  | overline
  deriving DecidableEq, Repr

namespace Attribute

def all : List Attribute :=
  [bold, dim, italic, underline, blink, blink2, reverse, conceal, strike, underline2, frame,
    encircle, overline]

/-- The spellings of an attribute, its name first. -/
def spellings : Attribute → List String
  | bold => ["bold", "b"]
  | dim => ["dim", "d"]
  | italic => ["italic", "i"]
  | underline => ["underline", "u"]
  | blink => ["blink"]
  | blink2 => ["blink2"]
  | reverse => ["reverse", "r"]
  | conceal => ["conceal", "c"]
  | strike => ["strike", "s"]
  | underline2 => ["underline2", "uu"]
  | frame => ["frame"]
  | encircle => ["encircle"]
  | overline => ["overline", "o"]

def name (a : Attribute) : String := a.spellings.headD ""

/-- The attribute that a word spells. -/
def ofWord? (word : List Char) : Option Attribute :=
  all.find? fun a => a.spellings.contains (String.ofList word)

end Attribute

/-! ## Styles -/

/-- A style. -/
structure Style where
  /-- The attributes that it switches on or off, the latest first. -/
  switches : List (Attribute × Bool)
  color : Option String
  background : Option String
  link : Option (List Char)
  deriving DecidableEq, Repr

namespace Style

def plain : Style := ⟨[], none, none, none⟩

/-- How a style writes an attribute, if it switches it. -/
def switchText? (s : Style) (a : Attribute) : Option String :=
  match s.switches.find? (·.1 == a) with
  | some (_, on) => some (if on then a.name else "not " ++ a.name)
  | none => none

/-- The text of a style. -/
def text (s : Style) : String :=
  let words := Attribute.all.filterMap s.switchText? ++ s.color.toList ++
    (s.background.toList.flatMap fun c => ["on", c]) ++
    (s.link.toList.flatMap fun l => ["link", String.ofList l])
  if words.isEmpty then "none" else String.intercalate " " words

/-- Words between blanks. -/
def words (cs : List Char) : List (List Char) :=
  (Text.splitAt Text.isBlank cs).filter (!·.isEmpty)

/-- Add what words say to a style.  A word behind `on` or `link` is taken as it is, and one behind
    `not` must be an attribute in lower case. -/
def addWords (s : Style) : List (List Char) → Except StyleError Style
  | [] => .ok s
  | word :: rest =>
    let word := Text.lower word
    match String.ofList word, rest with
    | "on", color :: rest => do
      addWords { s with background := some (← Color.ofWord (Text.lower color)) } rest
    | "not", word :: rest =>
      match Attribute.ofWord? word with
      | some a => addWords { s with switches := (a, false) :: s.switches } rest
      | none => .error .noStyle
    | "link", target :: rest => addWords { s with link := some target } rest
    | "on", [] | "not", [] | "link", [] => .error .noStyle
    | _, rest =>
      match Attribute.ofWord? word with
      | some a => addWords { s with switches := (a, true) :: s.switches } rest
      | none => do addWords { s with color := some (← Color.ofWord word) } rest

/-- The style that a text describes. -/
def ofText (cs : List Char) : Except StyleError Style :=
  if Text.trimBoth Text.isBlank cs == "none".toList then .ok plain else plain.addWords (words cs)

/-- The name under which markup opens and closes a style: the style's text, or the name itself in
    lower case if it is no style. -/
def nameOf (cs : List Char) : Except Fault String :=
  match ofText cs with
  | .ok s => .ok s.text
  | .error .noStyle => .ok (String.ofList (Text.lower (Text.trimBoth Text.isBlank cs)))
  | .error (.fault f) => .error f

/-- A fault in a style that is to be shown.  A text that is no style shows as plain text. -/
def fault? (cs : List Char) : Option Fault :=
  match ofText cs with
  | .error (.fault f) => some f
  | _ => none

end Style

end Regen.Console
