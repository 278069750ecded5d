import Regen.Console.Action.Fault
import Regen.Text.Lines
import Regen.Text.Name
import Regen.Text.Printable

/-! # Tokens of parameters

    The parameters of an action are written as an expression of literals.  Its text is cut into
    names, numbers, quoted texts and marks.  What is wrong with the form of a token ends the
    cutting. -/

namespace Regen.Console.Action

open Text

/-! ## Tokens -/

/-- The kind of a token. -/
inductive TokenKind where
  | name
  | number
  /-- A quoted text; `bytes` if the letter `b` stands in front and `formatted` if `f` does. -/
  | text (bytes formatted : Bool)
  | mark
  | newline
  | indent
  deriving DecidableEq, Repr

/-- A token with its text. -/
structure Token where
  kind : TokenKind
  text : String
  /-- The line on which it starts. -/
  line : Nat
  /-- How many brackets are open behind it. -/
  depth : Nat
  deriving DecidableEq, Repr

/-- How the tokens of a text end. -/
inductive TokenEnd where
  /-- With the text. -/
  | clean
  /-- In front of something that is no token. -/
  | broken (f : SyntaxFault)
  /-- Before they should: the fault is for those who ask for a further token.  A bracket may be
      open, on the given line. -/
  | early (f : SyntaxFault) (opened : Option (Char × Nat))
  deriving DecidableEq, Repr

/-- The tokens of a text. -/
structure TokenRun where
  tokens : List Token
  finish : TokenEnd
  deriving DecidableEq, Repr

/-- Is the character taken for a part of a name?  Above ASCII all are. -/
def isTakenForName (c : Char) : Bool := isWordChar c || 0x80 ≤ c.toNat

/-! ## Numbers -/

/-- Words that may follow a number directly. -/
def mayFollowNumber (cs : List Char) : Bool :=
  let word := String.ofList (cs.takeWhile isTakenForName)
  ["and", "else", "for", "or", "not"].contains word ||
    (word.startsWith "if" || word.startsWith "in" || word.startsWith "is")

/-- A number may not go over into a name that starts with an ASCII character. -/
def endNumber (kind : String) (cs : List Char) : Except SyntaxFault (List Char) :=
  let isJoined := (cs.take 1).any fun c => isTakenForName c && c.toNat < 0x80
  if isJoined && !mayFollowNumber cs then .error (.number kind) else .ok cs

/-- Digits with single underscores between them, from a digit on. -/
def digitTail (isDigit : Char → Bool) (fault : Option Char → SyntaxFault) :
    Nat → List Char → Except SyntaxFault (List Char)
  | 0, cs => .ok cs
  | fuel + 1, cs =>
    match cs.dropWhile isDigit with
    | '_' :: rest =>
      if (rest.take 1).any isDigit then digitTail isDigit fault fuel rest
      else .error (fault rest.head?)
    | rest => .ok rest

/-- A decimal tail. -/
def decimalTail (cs : List Char) : Except SyntaxFault (List Char) :=
  digitTail Char.isDigit (fun _ => .number "decimal") cs.length cs

/-- The digits behind the mark of a base, which one underscore may follow. -/
def basedNumber (kind : String) (isDigit : Char → Bool) (cs : List Char) :
    Except SyntaxFault (List Char) := do
  let fault (c : Option Char) : SyntaxFault := match c with
    | some c => if kind != "hexadecimal" && c.isDigit then .digit c kind else .number kind
    | none => .number kind
  let cs := match cs with
    | '_' :: rest => rest
    | _ => cs
  if !(cs.take 1).any isDigit then .error (fault cs.head?)
  let rest ← digitTail isDigit fault cs.length cs
  if (rest.take 1).any Char.isDigit then .error (fault rest.head?)
  endNumber kind rest

/-- What may follow the digits of a decimal: an exponent, and the mark of an imaginary number. -/
def exponentAndMark (cs : List Char) : Except SyntaxFault (List Char) := do
  let (cs, ended) ← match cs with
    | e :: rest =>
      if e == 'e' || e == 'E' then
        match rest with
        | sign :: more =>
          if sign == '+' || sign == '-' then
            if (more.take 1).any Char.isDigit then do pure (← decimalTail more, false)
            else .error (.number "decimal")
          else if sign.isDigit then do pure (← decimalTail rest, false)
          else do pure (← endNumber "decimal" cs, true)
        | [] => do pure (← endNumber "decimal" cs, true)
      else pure (cs, false)
    | [] => pure (cs, false)
  match cs with
  | c :: rest =>
    if ended then pure cs
    else if c == 'j' || c == 'J' then endNumber "imaginary" rest
    else endNumber "decimal" cs
  | [] => pure []

/-- What may follow the point of a decimal. -/
def fraction (cs : List Char) : Except SyntaxFault (List Char) := do
  exponentAndMark (← if (cs.take 1).any Char.isDigit then decimalTail cs else pure cs)

/-- Zeros with single underscores between them and a digit behind each underscore. -/
def skipZeros : List Char → Except SyntaxFault (List Char)
  | '0' :: rest => skipZeros rest
  | '_' :: rest =>
    if (rest.take 1).any Char.isDigit then skipZeros rest else .error (.number "decimal")
  | cs => .ok cs

/-- The text behind a number that starts with a zero; the digits behind zeros must belong to a
    number that is no integer. -/
def zeroNumber (cs : List Char) : Except SyntaxFault (List Char) := do
  let rest ← skipZeros cs
  let isZero := !(rest.take 1).any Char.isDigit
  let rest ← if isZero then pure rest else decimalTail rest
  match rest with
  | '.' :: more => fraction more
  | c :: _ =>
    if c == 'e' || c == 'E' || c == 'j' || c == 'J' then exponentAndMark rest
    else if isZero then endNumber "decimal" rest
    else .error .leadingZeros
  | [] => if isZero then pure [] else .error .leadingZeros

/-- The text behind the number in front. -/
def numberRest (cs : List Char) : Except SyntaxFault (List Char) :=
  let isHex (c : Char) : Bool := c.isDigit || ('a' ≤ c.toLower && c.toLower ≤ 'f')
  match cs with
  | '.' :: rest => fraction rest
  | '0' :: c :: rest =>
    if c == 'x' || c == 'X' then basedNumber "hexadecimal" isHex rest
    else if c == 'o' || c == 'O' then basedNumber "octal" (fun d => '0' ≤ d && d ≤ '7') rest
    else if c == 'b' || c == 'B' then basedNumber "binary" (fun d => d == '0' || d == '1') rest
    else zeroNumber (c :: rest)
  | ['0'] => .ok []
  | _ => do
    match ← decimalTail cs with
    | '.' :: rest => fraction rest
    | rest => exponentAndMark rest

/-! ## Quoted texts -/

/-- The text behind the closing quotes, `closing` of them in a row; none if they are missing.
    `found` is how many of them were just read. -/
def textRest? (quote : Char) (closing : Nat) : Nat → List Char → Option (List Char)
  | found, cs =>
    if found = closing then some cs
    else match cs with
      | [] => none
      | c :: rest =>
        if c == '\n' && closing = 1 then none
        else if c == quote then textRest? quote closing (found + 1) rest
        else if c == '\\' then
          match rest with
          | _ :: rest => textRest? quote closing 0 rest
          | [] => none
        else textRest? quote closing 0 rest
  termination_by _ cs => cs.length

/-- The text behind the quoted text in front, which starts on the given line. -/
def quotedRest (line : Nat) (cs : List Char) : Except SyntaxFault (List Char) :=
  match cs with
  | a :: b :: c :: rest =>
    if a == b && b == c then
      match textRest? a 3 0 rest with
      | some rest => .ok rest
      | none => .error (.unterminatedTriple (line + rest.count '\n'))
    else if a == b then .ok (c :: rest)
    else single a (b :: c :: rest)
  | [a, b] => if a == b then .ok [] else single a [b]
  | [a] => single a []
  | [] => .ok []
where
  single (quote : Char) (rest : List Char) : Except SyntaxFault (List Char) :=
    match textRest? quote 1 0 rest with
    | some rest => .ok rest
    | none =>
      -- a backslash at the end of a line lets the text go on
      .error (.unterminated (line + (firstLine rest).count '\n'))
  firstLine : List Char → List Char
    | '\\' :: c :: rest => '\\' :: c :: firstLine rest
    | '\n' :: _ => []
    | c :: rest => c :: firstLine rest
    | [] => []

/-- The letters that may stand in front of a quoted text, if it starts here. -/
def textMarks? (cs : List Char) : Option (List Char) :=
  let letters := cs.takeWhile Char.isAlpha
  let isQuoted := (cs.drop letters.length).head?.any fun c => c == '\'' || c == '"'
  if isQuoted && ["", "b", "u", "r", "f", "br", "rb", "fr", "rf"].contains
      (String.ofList (letters.map Char.toLower)) then some letters
  else none

/-! ## Names and marks -/

/-- The first character of a name that may not stand there. -/
def nameFault? (word : List Char) : Option SyntaxFault :=
  let bad := match word with
    | [] => none
    | c :: rest => if isNameStart c then rest.find? (!isNameChar ·) else some c
  bad.map fun c => if isPrintable c then .character c else .unprintable c

/-- The marks of more than one character, the longer ones first. -/
def longMarks : List String :=
  ["**=", "//=", "<<=", ">>=", "...", "!=", "%=", "&=", "**", "*=", "+=", "-=", "->", "//", "/=",
    ":=", "<<", "<=", "<>", "==", ">=", ">>", "@=", "^=", "|="]

/-- The mark in front. -/
def markOf (cs : List Char) : String :=
  (longMarks.find? fun m => m.toList.isPrefixOf cs).getD (String.ofList (cs.take 1))

/-- The bracket that a closing one closes. -/
def opening? : Char → Option Char
  | ')' => some '('
  | ']' => some '['
  | '\x7d' => some '\x7b'
  | _ => none

/-- How many brackets may be open. -/
def maxDepth : Nat := 200

/-! ## Cutting -/

/-- The state of cutting. -/
structure Cutting where
  rest : List Char
  /-- The tokens so far, the latest first. -/
  tokens : List Token
  /-- The open brackets with their lines, the innermost first. -/
  opened : List (Char × Nat)
  line : Nat
  /-- Does a line start here? -/
  atStart : Bool

namespace Cutting

/-- Put a token and go on behind it. -/
def push (x : Cutting) (kind : TokenKind) (rest : List Char) : Cutting :=
  let taken := x.rest.take (x.rest.length - rest.length)
  { x with
    rest
    tokens := ⟨kind, String.ofList taken, x.line, x.opened.length⟩ :: x.tokens
    line := x.line + taken.count '\n'
    atStart := false }

/-- A closing bracket. -/
def close (x : Cutting) (closing opening : Char) : Except SyntaxFault Cutting :=
  match x.opened with
  | [] => .error (.unmatched closing)
  | (found, line) :: opened =>
    if found == opening then
      .ok ({ x with opened }.push .mark (x.rest.drop 1))
    else
      .error (.mismatch closing found (if line = x.line then none else some line))

/-- The tokens of the text. -/
def finish (x : Cutting) (e : TokenEnd) : TokenRun := ⟨x.tokens.reverse, e⟩

/-- The tokens of a text that ends here. -/
def atEnd (x : Cutting) : TokenRun :=
  x.finish (match x.opened with
    | [] => .clean
    | o :: _ => .early (.unclosed o.1) (some o))

/-- The end of a line.  It counts outside brackets and behind something. -/
def endLine (x : Cutting) (rest : List Char) : Cutting :=
  if x.opened.isEmpty && !x.atStart then { x.push .newline rest with atStart := true }
  else { x with rest, line := x.line + 1 }

/-- Take the blanks and the comment in front.  Blanks at the start of a line that is not empty
    are a token; those in front of a form feed do not count. -/
def skipBlanks (x : Cutting) : Cutting :=
  let blanks := x.rest.takeWhile fun c => c == ' ' || c == '\t' || c == '\x0c'
  let rest := x.rest.drop blanks.length
  let rest := if rest.head? == some '#' then rest.dropWhile (· != '\n') else rest
  let isBlankLine := rest.isEmpty || rest.head? == some '\n'
  { x with
    rest
    tokens :=
      if x.atStart && !isBlankLine && blanks.getLast?.any (· != '\x0c') then
        ⟨.indent, "", x.line, 0⟩ :: x.tokens
      else x.tokens
    atStart := x.atStart && isBlankLine }

/-- Take the token in front, which starts with the given character. -/
def token (x : Cutting) (c : Char) : Except SyntaxFault Cutting := do
  match textMarks? x.rest with
  | some marks =>
    let has (letter : Char) : Bool := marks.any fun m => m.toLower == letter
    pure (x.push (.text (has 'b') (has 'f')) (← quotedRest x.line (x.rest.drop marks.length)))
  | none =>
    if isTakenForName c && !c.isDigit then
      let word := x.rest.takeWhile isTakenForName
      match nameFault? word with
      | some f => .error f
      | none => pure (x.push .name (x.rest.drop word.length))
    else if c.isDigit || (c == '.' && ((x.rest.drop 1).take 1).any Char.isDigit) then
      pure (x.push .number (← numberRest x.rest))
    else if "([\x7b".toList.contains c then
      if maxDepth ≤ x.opened.length then .error .tooNested
      else pure ({ x with opened := (c, x.line) :: x.opened }.push .mark (x.rest.drop 1))
    else match opening? c with
      | some o => x.close c o
      | none =>
        if isPrintable c then pure (x.push .mark (x.rest.drop (markOf x.rest).length))
        else .error (.unprintable c)

/-- Cut a text into tokens. -/
def run : Nat → Cutting → TokenRun
  | 0, x => x.atEnd
  | fuel + 1, x =>
    let x := x.skipBlanks
    match x.rest with
    | [] => x.atEnd
    | '\n' :: rest => run fuel (x.endLine rest)
    | ['\\', '\n'] => x.atEnd
    | '\\' :: '\n' :: rest => run fuel { x with rest, line := x.line + 1 }
    | '\\' :: _ => x.finish (.early .continuation x.opened.head?)
    | c :: _ =>
      match x.token c with
      | .ok x => run fuel x
      | .error f => x.finish (.broken f)

end Cutting

/-- The tokens of a text. -/
def tokens (text : List Char) : TokenRun :=
  let text := unifyNewlines text
  Cutting.run (text.length + 1) ⟨text, [], [], 1, true⟩

end Regen.Console.Action
