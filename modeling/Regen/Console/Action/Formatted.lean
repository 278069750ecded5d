import Regen.Console.Action.Escape
import Regen.Console.Action.Token

/-! # Formatted texts

    A quoted text with the letter `f` in front holds expressions in braces.  Behind an expression
    may stand an equals sign, a conversion and a format, and a format may hold expressions in
    turn.  Doubled braces stand for themselves. -/

namespace Regen.Console.Action

/-! ## Literal pieces -/

/-- How a literal piece of a formatted text ends. -/
inductive PieceEnd where
  | atEnd
  /-- In front of a brace that is given with what follows. -/
  | atBrace (rest : List Char)
  /-- Between two equal braces. -/
  | doubled (rest : List Char)
  /-- In front of a closing brace that closes nothing. -/
  | lone

/-- The literal piece in front of a brace, which is doubled or starts an expression or, in a
    format, ends it.  `piece` is the piece in reverse. -/
def endPiece (isFormat : Bool) (piece : List Char) (brace : Char) (rest : List Char) :
    List Char × PieceEnd :=
  if isFormat then (piece.reverse, .atBrace (brace :: rest))
  else if rest.head? == some brace then ((brace :: piece).reverse, .doubled (rest.drop 1))
  else if brace == '\x7d' then (piece.reverse, .lone)
  else (piece.reverse, .atBrace (brace :: rest))

def isBrace (c : Char) : Bool := c == '\x7b' || c == '\x7d'

/-- The literal piece in front.  `piece` holds its first characters in reverse.  A backslash keeps
    the brace of a name from being one, but not other braces. -/
def takePiece (isRaw isFormat : Bool) (piece : List Char) (cs : List Char) :
    List Char × PieceEnd :=
  match cs with
  | [] => (piece.reverse, .atEnd)
  | c :: rest =>
    if c == '\\' && !isRaw then
      match rest with
      | 'N' :: d :: rest =>
        let name := if d == '\x7b' then rest.takeWhile (· != '\x7d') else []
        let taken := if d == '\x7b' then name.length + 1 else 0
        takePiece isRaw isFormat ((rest.take taken).reverseAux (d :: 'N' :: c :: piece))
          (rest.drop taken)
      | d :: rest =>
        if isBrace d then endPiece isFormat (c :: piece) d rest
        else takePiece isRaw isFormat (d :: c :: piece) rest
      | [] => ((c :: piece).reverse, .atEnd)
    else if isBrace c then endPiece isFormat piece c rest
    else takePiece isRaw isFormat (c :: piece) rest
termination_by cs.length

/-! ## Expressions -/

/-- Where the end of an expression is looked for. -/
structure ExpressionScan where
  /-- The expression so far, in reverse. -/
  taken : List Char
  /-- The quote inside which the place is, and whether it stands three times. -/
  quote : Option (Char × Bool)
  /-- The open brackets, the innermost first. -/
  opened : List Char

/-- The expression in front and what follows, unless the text ends before. -/
def takeExpression (x : ExpressionScan) (cs : List Char) :
    Except SyntaxFault (List Char × List Char) :=
  match cs with
  | [] =>
    match x.quote, x.opened with
    | some _, _ => .error .quoteMissing
    | none, o :: _ => .error (.strayBracket o)
    | none, [] => .ok (x.taken.reverse, [])
  | c :: rest =>
    let isTriple := rest.take 2 == [c, c]
    if c == '\\' then .error .backslash
    else match x.quote with
    | some (q, triple) =>
      if c != q || (triple && !isTriple) then takeExpression { x with taken := c :: x.taken } rest
      else if triple then
        takeExpression { x with taken := c :: c :: c :: x.taken, quote := none } (rest.drop 2)
      else takeExpression { x with taken := c :: x.taken, quote := none } rest
    | none =>
      if c == '\'' || c == '"' then
        if isTriple then
          takeExpression { x with taken := c :: c :: c :: x.taken, quote := some (c, true) }
            (rest.drop 2)
        else takeExpression { x with taken := c :: x.taken, quote := some (c, false) } rest
      else if "([\x7b".toList.contains c then
        if maxDepth ≤ x.opened.length then .error .tooManyBrackets
        else takeExpression { x with taken := c :: x.taken, opened := c :: x.opened } rest
      else if c == '#' then .error .hashMark
      else match x.opened with
      | [] =>
        if "!=<>".toList.contains c && rest.head? == some '=' then
          takeExpression { x with taken := '=' :: c :: x.taken } (rest.drop 1)
        else if "!:\x7d=".toList.contains c then .ok (x.taken.reverse, c :: rest)
        else if c == ')' || c == ']' then .error (.strayBracket c)
        else takeExpression { x with taken := c :: x.taken } rest
      | o :: opened =>
        match opening? c with
        | some found =>
          if found == o then takeExpression { x with taken := c :: x.taken, opened } rest
          else .error (.wrongBracket c o)
        | none => takeExpression { x with taken := c :: x.taken } rest
termination_by cs.length
decreasing_by all_goals simp; try omega

/-- Characters that may stand around an expression in parentheses. -/
def isMargin (c : Char) : Bool := c == ' ' || c == '\t' || c == '\n' || c == '\x0c'

/-- What follows the equals sign and the conversion behind an expression. -/
def skipConversion (cs : List Char) : Except SyntaxFault (List Char) :=
  let cs := if cs.head? == some '=' then cs.drop 1 else cs
  match cs with
  | '!' :: c :: rest =>
    if c == 's' || c == 'r' || c == 'a' then .ok rest else .error .conversion
  | ['!'] => .error .braceMissing
  | cs => .ok cs

/-- How deep expressions may stand in formats. -/
def maxFormats : Nat := 2

/-- Check a formatted text of which `formats` formats are open, and give what follows.  `own` is
    how the faults of the text itself are put, and `inner` finds the fault of an expression. -/
def checkFormatted (isRaw : Bool) (own : SyntaxFault → SyntaxFault)
    (inner : List Char → Option SyntaxFault) :
    Nat → Nat → List Char → Except SyntaxFault (List Char)
  | 0, _, cs => .ok cs
  | fuel + 1, formats, cs => do
    let (piece, e) := takePiece isRaw (formats != 0) [] cs
    if e matches .lone then .error (own .loneBrace)
    if let some f := textFault? ⟨isRaw, piece⟩ then .error (own f)
    match e with
    | .atEnd | .lone => if formats = 0 then pure [] else .error (own .braceMissing)
    | .doubled rest => checkFormatted isRaw own inner fuel formats rest
    | .atBrace ('\x7b' :: rest) =>
      if maxFormats ≤ formats then .error (own .tooDeep)
      let (text, rest) ← (takeExpression ⟨[], none, []⟩ rest).mapError own
      if rest.isEmpty then .error (own .braceMissing)
      if text.all isMargin then
        .error (own (.noExpression (rest.head?.filter (· != '\x7d'))))
      if let some f := inner text then .error f
      match ← (skipConversion rest).mapError own with
      | ':' :: rest =>
        if rest.isEmpty then .error (own .braceMissing)
        match ← checkFormatted isRaw own inner fuel (formats + 1) rest with
        | '\x7d' :: rest => checkFormatted isRaw own inner fuel formats rest
        | _ => .error (own .braceMissing)
      | '\x7d' :: rest => checkFormatted isRaw own inner fuel formats rest
      | _ => .error (own .braceMissing)
    | .atBrace rest => pure rest

end Regen.Console.Action
