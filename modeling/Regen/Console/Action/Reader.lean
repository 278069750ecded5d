import Regen.Console.Action.Formatted
import Regen.Console.Action.Grammar
import Regen.Number.Limit
import Std.Data.HashMap

/-! # Reading parameters

    A text is read by its grammar: the first production of a rule that fits is taken.  If the
    text does not fit it is read once more with the rules that explain a failure, and the first
    mistake that fits is named. -/

namespace Regen.Console.Action

/-! ## Progress -/

/-- Where reading is. -/
structure Place where
  rest : List Token
  /-- How many tokens were taken. -/
  taken : Nat
  /-- How many brackets are open behind the last one. -/
  depth : Nat
  deriving Inhabited

/-- How far reading has come. -/
structure Progress where
  place : Place
  /-- The most tokens that were looked at. -/
  seen : Nat
  explains : Bool
  /-- What rules read at places, by the number of tokens in front. -/
  kept : Std.HashMap (Rule × Nat) (Option Phrase × Place)

/-- What reading depends on. -/
structure Surroundings where
  finish : TokenEnd
  /-- Is the text an expression inside a formatted text? -/
  isInner : Bool
  /-- The fault of an expression inside a formatted text. -/
  inner : List Char → Option SyntaxFault

/-- How a fault of the text itself is put. -/
def Surroundings.own (s : Surroundings) (f : SyntaxFault) : SyntaxFault :=
  if s.isInner then .inFormatted f else f

/-- What whoever asks for a token behind the last one is told. -/
def Surroundings.asked? (s : Surroundings) : Option SyntaxFault :=
  match s.finish with
  | .clean => none
  | .broken f => some f
  | .early f _ => some (s.own f)

/-- What is wrong at the end although nobody asked for a further token than one on the given
    line. -/
def Surroundings.unasked? (s : Surroundings) (line : Nat) : Option SyntaxFault :=
  match s.finish with
  | .clean | .early _ none => none
  | .broken f => some f
  | .early _ (some (opening, on)) => if on < line then some (s.own (.unclosed opening)) else none

/-- A step of reading; it stops at a fault, and how far it came stays known. -/
abbrev Reading := ReaderT Surroundings (ExceptT SyntaxFault (StateM Progress))

namespace Reading

/-- Stop at a fault of the text itself. -/
def fault {α : Type} (f : SyntaxFault) : Reading α := do throw ((← read).own f)

def place : Reading Place := do pure (← get).place

def goTo (p : Place) : Reading Unit := modify fun s => { s with place := p }

/-- The next token without taking it. -/
def peek : Reading (Option Token) := do
  let p ← place
  match p.rest, (← read).asked? with
  | [], some f => throw f
  | ts, _ =>
    modify fun s => { s with seen := max s.seen (p.taken + 1) }
    pure ts.head?

/-- Take the next token if it is as described. -/
def takeIf (fits : Token → Bool) : Reading (Option Token) := do
  match ← peek with
  | some t =>
    if fits t then
      let p ← place
      goTo ⟨p.rest.drop 1, p.taken + 1, t.depth⟩
      pure (some t)
    else pure none
  | none => pure none

/-- Keep what a rule reads at a place. -/
def keep (r : Rule) (start : Place) (x : Option Phrase) : Reading Unit :=
  modify fun s => { s with kept := s.kept.insert (r, start.taken) (x, s.place) }

/-! ## Tokens -/

/-- Words that are no names. -/
def reserved : List String :=
  ["False", "None", "True", "and", "as", "assert", "async", "await", "break", "class", "continue",
    "def", "del", "elif", "else", "except", "finally", "for", "from", "global", "if", "import",
    "in", "is", "lambda", "nonlocal", "not", "or", "pass", "raise", "return", "try", "while",
    "with", "yield"]

def isMark (texts : List String) (t : Token) : Bool :=
  (t.kind == .mark || (t.kind == .name && reserved.contains t.text)) && texts.contains t.text

def isName (t : Token) : Bool := t.kind == .name && !reserved.contains t.text

def isText (t : Token) : Bool := match t.kind with
  | .text .. => true
  | _ => false

/-- Does the letter `b` stand in front of the quoted text? -/
def isBytes (t : Token) : Bool := t.kind matches .text true _

/-- Does the letter `f` stand in front of the quoted text? -/
def isFormatted (t : Token) : Bool := t.kind matches .text _ true

/-- What a number stands for.  A long integer must not be decimal. -/
def numberOf (t : Token) : Reading Phrase := do
  let cs := t.text.toList
  let digits := cs.filter (· != '_')
  if Number.maxDigits < digits.length && digits.all Char.isDigit && cs.head? != some '0' then
    fault (.longNumber digits.length)
  pure (.number (cs.getLast?.any fun c => c == 'j' || c == 'J'))

/-- Check a quoted text in a row that starts with bytes or with a text. -/
def checkText (startsWithBytes : Bool) (t : Token) : Reading Unit := do
  let parts := quotedParts t.text.toList
  let isPlain := !isFormatted t
  let found := if isBytes t then bytesFault? parts else if isPlain then textFault? parts else none
  if let some f := found then fault f
  if isBytes t != startsWithBytes then fault .mixedBytes
  if !isPlain then
    let s ← read
    match checkFormatted parts.isRaw s.own s.inner (2 * parts.inside.length + 2) 0 parts.inside with
    | .ok _ => pure ()
    | .error f => throw f

/-- What quoted texts in a row stand for. -/
def joined (first : Token) (others : List Token) : Reading Phrase := do
  (first :: others).forM (checkText (isBytes first))
  pure (if (first :: others).any isFormatted then .other "f-string expression" else .text)

/-- Quoted texts in a row. -/
def takeTexts : Nat → List Token → Reading (List Token)
  | 0, found => pure found.reverse
  | fuel + 1, found => do
    match ← takeIf isText with
    | some t => takeTexts fuel (t :: found)
    | none => pure found.reverse

/-! ## Rules -/

/-- What comes of elements. -/
inductive Match where
  | fits (ps : List Phrase)
  /-- They do not fit, and `final` if no other production may be tried. -/
  | misfits (final : Bool)

mutual

/-- The phrase of a rule. -/
def rule : Nat → Rule → Reading (Option Phrase)
  | 0, _ => pure none
  | fuel + 1, r => do
    if r.explains && !(← get).explains then pure none
    else
      let _ ← peek
      let start ← place
      match (← get).kept.get? (r, start.taken) with
      | some (x, p) =>
        goTo p
        pure x
      | none =>
        if r.grows then
          keep r start none
          grow fuel r start none start
        else
          let x ← firstOf fuel r.productions
          if r.isKept then keep r start x
          pure x

/-- Read a rule that starts with itself again as long as it reads more. -/
def grow : Nat → Rule → Place → Option Phrase → Place → Reading (Option Phrase)
  | 0, _, _, best, _ => pure best
  | fuel + 1, r, start, best, stop => do
    goTo start
    let x ← firstOf fuel r.productions
    let p ← place
    if x.isSome && stop.taken < p.taken then
      keep r start x
      grow fuel r start x p
    else
      goTo stop
      pure best

/-- The first production that fits. -/
def firstOf : Nat → List Production → Reading (Option Phrase)
  | 0, _ => pure none
  | _, [] => pure none
  | fuel + 1, a :: as => do
    let start ← place
    match ← sequence fuel a.elements [] false with
    | .fits ps =>
      match a.result with
      | .phrase f => pure (some (f ps))
      | .mistake f =>
        match f ps with
        | some e => fault e
        | none => pure none
    | .misfits final =>
      goTo start
      if final then pure none else firstOf fuel as

/-- Elements in a row.  `found` holds the phrases so far, the latest first, and `final` says
    whether a cut was passed. -/
def sequence : Nat → List Element → List Phrase → Bool → Reading Match
  | 0, _, _, final => pure (.misfits final)
  | _, [], found, _ => pure (.fits found.reverse)
  | fuel + 1, x :: xs, found, final => do
    match ← element fuel x with
    | some ps => sequence fuel xs (ps.reverseAux found) (final || x matches .cut)
    | none => pure (.misfits final)

/-- The phrases of an element. -/
def element : Nat → Element → Reading (Option (List Phrase))
  | 0, _ => pure none
  | fuel + 1, x => do
    match x with
    | .mark texts => pure ((← takeIf (isMark texts)).map fun _ => [])
    | .name => pure ((← takeIf isName).map fun t => [.name t.text])
    | .statementName =>
      let fits (t : Token) : Bool := isName t && ["_", "case", "match"].contains t.text
      pure ((← takeIf fits).map fun _ => [])
    | .number =>
      match ← takeIf (·.kind == .number) with
      | some t => do pure (some [← numberOf t])
      | none => pure none
    | .text => pure ((← takeIf isText).map fun _ => [])
    | .texts =>
      let p ← place
      match ← takeTexts (p.rest.length + 1) [] with
      | [] => pure none
      | t :: ts => do pure (some [← joined t ts])
    | .lineEnd => pure ((← takeIf (·.kind == .newline)).map fun _ => [])
    | .ending => pure (if (← peek).isNone then some [] else none)
    | .rule r => pure ((← rule fuel r).map ([·]))
    | .maybe xs => do pure (some (← optional fuel xs))
    | .repeated xs => do pure (some (← repetition fuel xs []))
    | .listed r =>
      match ← rule fuel r with
      | some x => do pure (some (← repetition fuel [comma, .rule r] [x]))
      | none => pure none
    | .ahead xs => do pure (if ← isAhead fuel xs then some [] else none)
    | .notAhead xs => do pure (if ← isAhead fuel xs then none else some [])
    | .bracketed => do pure (if (← place).depth = 0 then none else some [])
    | .quietly r =>
      let explains := (← get).explains
      modify fun s => { s with explains := false }
      let x ← rule fuel r
      modify fun s => { s with explains }
      pure (x.map ([·]))
    | .cut => pure (some [])

/-- Elements that may be missing. -/
def optional : Nat → List Element → Reading (List Phrase)
  | 0, _ => pure []
  | fuel + 1, xs => do
    let start ← place
    match ← sequence fuel xs [] false with
    | .fits ps => pure ps
    | .misfits _ =>
      goTo start
      pure []

/-- Elements any number of times.  `found` holds the phrases so far, the latest first. -/
def repetition : Nat → List Element → List Phrase → Reading (List Phrase)
  | 0, _, found => pure found.reverse
  | fuel + 1, xs, found => do
    let start ← place
    match ← sequence fuel xs [] false with
    | .fits ps => repetition fuel xs (ps.reverseAux found)
    | .misfits _ =>
      goTo start
      pure found.reverse

/-- Do elements follow? -/
def isAhead : Nat → List Element → Reading Bool
  | 0, _ => pure false
  | fuel + 1, xs => do
    let start ← place
    let m ← sequence fuel xs [] false
    goTo start
    pure (m matches .fits _)

end

end Reading

/-! ## Whole texts -/

/-- A text in tokens and what its reading depends on. -/
structure Input where
  tokens : List Token
  surroundings : Surroundings

namespace Input

/-- Read a rule.  The fuel is more than a reading of so many tokens needs. -/
def parse (s : Input) (r : Rule) (explains : Bool) :
    Except SyntaxFault (Option Phrase) × Progress :=
  (Reading.rule (1000 * (s.tokens.length + 1)) r s.surroundings).run
    ⟨⟨s.tokens, 0, 0⟩, 0, explains, ∅⟩

/-- A fault, unless the tokens end with one that nobody asked for.  `seen` tokens were looked
    at. -/
def orLater (s : Input) (seen : Nat) (f : SyntaxFault) : SyntaxFault :=
  let line := (s.tokens[seen - 1]?).elim 1 (·.line)
  (s.surroundings.unasked? line).getD f

/-- Why a text does not fit, if `seen` tokens of it were looked at. -/
def explain (s : Input) (r : Rule) (seen : Nat) : SyntaxFault :=
  match s.parse r true with
  | (.error f, p) => s.orLater (max seen p.seen) f
  | (.ok _, p) =>
    if (s.tokens[seen - 1]?).any (·.kind == .indent) then s.surroundings.own .indent
    else s.orLater (max seen p.seen) (s.surroundings.own .general)

/-- What a text writes by a rule. -/
def phrase (s : Input) (r : Rule) : Except SyntaxFault Phrase :=
  match s.parse r false with
  | (.error f, p) => .error (s.orLater p.seen f)
  | (.ok (some x), _) => .ok x
  | (.ok none, p) => .error (s.explain r p.seen)

end Input

/-- The fault of an expression inside a formatted text, which is read in parentheses.  `fuel`
    bounds how deep formatted texts stand in one another. -/
def innerFault? : Nat → List Char → Option SyntaxFault
  | 0, _ => none
  | fuel + 1, text =>
    let run := tokens ('(' :: text ++ [')'])
    match Input.phrase ⟨run.tokens, run.finish, true, innerFault? fuel⟩ .starExpressions with
    | .ok _ => none
    | .error f => some f

/-- The expression that a text writes. -/
def read (text : List Char) : Except SyntaxFault Phrase :=
  let run := tokens text
  Input.phrase ⟨run.tokens, run.finish, false, innerFault? text.length⟩ .whole

end Regen.Console.Action
