import Regen.Console.Style
import Regen.Failure
import Regen.Sort

/-! # Markup

    Text for the console may hold tags in brackets that style what they enclose.  A console
    without styles prints the text without its tags.  A closing tag must close an open one, by
    the name of its style or, without a name, the latest.  A tag whose name starts with an at sign
    gives an action to what it encloses, and its parameters are checked when it is closed. -/

namespace Regen.Markup

/-! ## Pieces -/

/-- A piece of text with markup. -/
inductive Piece where
  | plain (cs : List Char)
  /-- A tag's text and the position of its bracket. -/
  | tag (cs : List Char) (position : Nat)
  deriving Repr, DecidableEq

/-- May the character follow the bracket of a tag? -/
def startsTag (c : Char) : Bool := ('a' ≤ c && c ≤ 'z') || c == '#' || c == '/' || c == '@'

/-- The text of a tag and what follows it, behind an opening bracket. -/
def takeTag? (cs : List Char) : Option (List Char × List Char) :=
  match cs with
  | c :: rest =>
    if startsTag c then
      match rest.dropWhile fun c => c != '[' && c != ']' with
      | ']' :: after => some (c :: rest.takeWhile (· != ']'), after)
      | _ => none
    else none
  | [] => none

/-- Cut text into plain pieces and tags.  Backslashes in front of a tag count in pairs as one
    each; one that is left over makes the tag plain.  `plain` holds plain text in reverse, and
    `fuel` bounds the length of the text. -/
def piecesFrom : Nat → Nat → List Char → List Char → List Piece
  | 0, _, plain, cs => [.plain (plain.reverse ++ cs)]
  | _, _, plain, [] => [.plain plain.reverse]
  | fuel + 1, position, plain, c :: cs =>
    let slashes := (c :: cs).takeWhile (· == '\\')
    let rest := (c :: cs).dropWhile (· == '\\')
    let count := slashes.length
    match rest with
    | '[' :: inner =>
      match takeTag? inner with
      | some (tag, after) =>
        let next := position + count + tag.length + 2
        let halves := List.replicate (count / 2) '\\'
        .plain plain.reverse :: .plain halves ::
          (if count % 2 = 1 then .plain ('[' :: tag ++ [']']) else .tag tag (position + count)) ::
          piecesFrom fuel next [] after
      | none => piecesFrom fuel (position + count + 1) ('[' :: slashes ++ plain) inner
    | _ =>
      if count = 0 then piecesFrom fuel (position + 1) (c :: plain) cs
      else piecesFrom fuel (position + count) (slashes ++ plain) rest

/-- Cut text into plain pieces and tags. -/
def pieces (cs : List Char) : List Piece := piecesFrom (cs.length + 1) 0 [] cs

/-! ## Plain text -/

/-- Controls that are never printed. -/
def isSilent (c : Char) : Bool :=
  c.toNat == 7 || c.toNat == 8 || (11 ≤ c.toNat && c.toNat ≤ 13)

/-- A backslash in front of a bracket is not printed. -/
def dropEscapes : List Char → List Char
  | [] => []
  | '\\' :: '[' :: rest => '[' :: dropEscapes rest
  | c :: rest => c :: dropEscapes rest

/-- The plain text of a plain piece. -/
def printable (cs : List Char) : List Char := (dropEscapes cs).filter fun c => !isSilent c

/-! ## Rendering -/

/-- A tag that is open. -/
structure OpenTag where
  /-- The name of its style. -/
  name : String
  /-- The text behind an equals sign. -/
  parameters : Option (List Char)
  /-- How many characters of plain text stand before it. -/
  start : Nat
  deriving Repr

/-- Does the tag stand for an action? -/
def OpenTag.isAction (t : OpenTag) : Bool := t.name.startsWith "@"

/-- A range of plain text and the text of its style. -/
structure StyledRange where
  start : Nat
  stop : Nat
  style : List Char
  deriving Repr

/-- The range from a tag to a place. -/
def OpenTag.rangeTo (t : OpenTag) (stop : Nat) : StyledRange :=
  ⟨t.start, stop, match t.parameters with
    | some cs => t.name.toList ++ ' ' :: cs
    | none => t.name.toList⟩

/-- Plain text with the styles of its ranges, in the order of their starts. -/
structure Rendered where
  text : List Char
  ranges : List StyledRange
  deriving Repr

/-- The state of rendering. -/
structure Rendering where
  /-- The plain text so far, the last character first. -/
  reversed : List Char
  length : Nat
  /-- The open tags, the latest first. -/
  opened : List OpenTag
  /-- The closed ranges, the latest first. -/
  ranges : List StyledRange

namespace Rendering

def start : Rendering := ⟨[], 0, [], []⟩

/-- Add plain text. -/
def put (r : Rendering) (cs : List Char) : Rendering :=
  { r with reversed := cs.reverseAux r.reversed, length := r.length + cs.length }

/-- Open a tag. -/
def openTag (r : Rendering) (name : List Char) (parameters : Option (List Char)) :
    Except Failure Rendering := do
  let name ← (Console.Style.nameOf name).mapError .value
  pure { r with opened := ⟨name, parameters, r.length⟩ :: r.opened }

/-- The text of a tag in messages. -/
def tagText (cs : List Char) : String := String.ofList ('[' :: cs ++ [']'])

/-- The latest open tag with a name, or the latest of all. -/
def latest? (r : Rendering) (name : Option String) : Option OpenTag :=
  r.opened.find? fun t => name.all (· == t.name)

/-- Close a tag. -/
def closeTag (r : Rendering) (tag name : List Char) (position : Nat) :
    Except Failure Rendering := do
  let name := Text.trimBoth Text.isBlank name
  let wanted ← if name.isEmpty then pure none
    else ((Console.Style.nameOf name).map some).mapError .value
  match r.latest? wanted with
  | none =>
    let shown := if wanted.isNone then "[/]" else tagText tag
    .error (.markup (.closingTag shown position))
  | some t =>
    let opened := r.opened.eraseP fun t => wanted.all (· == t.name)
    if t.isAction then do
      let given := t.parameters.getD []
      if !given.isEmpty then
        (Console.Action.checkParameters given).mapError fun f => .markup (.parameters f)
      pure { r with opened }
    else pure { r with opened, ranges := t.rangeTo r.length :: r.ranges }

/-- Add a piece. -/
def add (r : Rendering) (p : Piece) : Except Failure Rendering :=
  match p with
  | .plain cs => .ok (r.put (printable cs))
  | .tag cs position =>
    let name := cs.takeWhile (· != '=')
    match name with
    | '/' :: name => r.closeTag cs name position
    | _ => r.openTag name (if cs.contains '=' then some (cs.drop (name.length + 1)) else none)

/-- The end of the text closes all tags, the latest first. -/
def finish (r : Rendering) : Rendered :=
  let ranges := r.opened.foldl (fun rs t => t.rangeTo r.length :: rs) r.ranges
  ⟨r.reversed.reverse, sortBy (fun a b => a.start ≤ b.start) ranges⟩

end Rendering

/-- The text that a console prints for text with markup, and its styles. -/
def render (s : String) : Except Failure Rendered := do
  let r ← (pieces s.toList).foldlM Rendering.add .start
  pure r.finish

/-! ## Showing styles -/

/-- Does a range have something to show?  An empty one has only in a text of one line, and line
    ends do not count. -/
def Rendered.shows (r : Rendered) (range : StyledRange) : Bool :=
  !r.text.contains '\n' ||
    ((r.text.drop range.start).take (range.stop - range.start)).any (· != '\n')

/-- The first fault of a style that is to be shown. -/
def Rendered.fault? (r : Rendered) : Option Fault :=
  (r.ranges.filter r.shows).findSome? fun range => Console.Style.fault? range.style

end Regen.Markup
