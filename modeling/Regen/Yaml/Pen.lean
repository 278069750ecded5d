import Regen.Yaml.Spelling

/-! # Writing with columns

    A pen remembers the column and whether it stands behind a blank or in the indentation of a
    line.  Long scalars are folded at spaces behind column 80. -/

namespace Regen.Yaml

/-- What has been written and where the pen stands. -/
structure Pen where
  /-- The text so far, the last character first. -/
  reversed : List Char
  column : Nat
  /-- Is the last character a blank, or nothing written yet? -/
  afterBlank : Bool
  /-- Is the line so far only indentation and indicators that keep it open? -/
  inIndent : Bool

namespace Pen

def start : Pen := ⟨[], 0, true, true⟩

def text (p : Pen) : List Char := p.reversed.reverse

/-- The column behind which lines are folded. -/
def width : Nat := 80

/-- Write characters on the current line. -/
def put (p : Pen) (cs : List Char) : Pen :=
  { p with reversed := cs.reverseAux p.reversed, column := p.column + cs.length }

/-- Write an indicator, behind a blank if it needs one.  Some indicators keep the line's
    indentation open, so that a block may start behind them. -/
def indicator (p : Pen) (cs : List Char) (needsBlank : Bool) (keepsIndent : Bool) : Pen :=
  let p' := p.put (if needsBlank && !p.afterBlank then ' ' :: cs else cs)
  { p' with afterBlank := false, inIndent := p.inIndent && keepsIndent }

/-- End the line with a line end. -/
def breakLine (p : Pen) (c : Char) : Pen :=
  { p with reversed := c :: p.reversed, column := 0, afterBlank := true, inIndent := true }

/-- Move to a column, on a new line unless the pen can still get there on this one. -/
def indentTo (p : Pen) (indent : Nat) : Pen :=
  let p := if !p.inIndent || indent < p.column || (p.column == indent && !p.afterBlank) then
      p.breakLine '\n'
    else p
  if p.column < indent then
    { p.put (List.replicate (indent - p.column) ' ') with afterBlank := true }
  else p

/-! ## Scalars -/

/-- A run of equal kind in a text. -/
inductive Run where
  | spaces (count : Nat)
  | breaks (cs : List Char)
  | word (cs : List Char)
  deriving DecidableEq, Repr

/-- Cut a text into runs of spaces, of line ends and of other characters. -/
def runs : List Char → List Run
  | [] => []
  | c :: rest =>
    let more := runs rest
    if c == ' ' then
      match more with
      | .spaces n :: more => .spaces (n + 1) :: more
      | _ => .spaces 1 :: more
    else if isBreak c then
      match more with
      | .breaks cs :: more => .breaks (c :: cs) :: more
      | _ => .breaks [c] :: more
    else
      match more with
      | .word cs :: more => .word (c :: cs) :: more
      | _ => .word [c] :: more

/-- One run of a plain scalar; a single space behind the width becomes a line end. -/
def plainRun (indent : Nat) (fold : Bool) (p : Pen) : Run → Pen
  | .spaces n =>
    if n = 1 && width < p.column && fold then
      { p.indentTo indent with afterBlank := false, inIndent := false }
    else p.put (List.replicate n ' ')
  | .breaks cs | .word cs => p.put cs

/-- Write a plain scalar. -/
def plain (p : Pen) (indent : Nat) (fold : Bool) (cs : List Char) : Pen :=
  if cs.isEmpty then p
  else
    let p := if p.afterBlank then p else p.put [' ']
    (runs cs).foldl (plainRun indent fold) { p with afterBlank := false, inIndent := false }

/-- Line ends between single quotes: a line feed is written twice, since one is folded. -/
def quotedBreaks (indent : Nat) (p : Pen) (cs : List Char) : Pen :=
  let p := if cs.head? == some '\n' then p.breakLine '\n' else p
  (cs.foldl breakLine p).indentTo indent

/-- Runs between single quotes; a single space behind the width becomes a line end unless it
    stands at either end.  `first` says whether the first run starts the scalar. -/
def singleQuotedRuns (indent : Nat) (fold : Bool) (first : Bool) (p : Pen) : List Run → Pen
  | [] => p
  | r :: rest =>
    let p := match r with
      | .spaces n =>
        if n = 1 && width < p.column && fold && !first && !rest.isEmpty then p.indentTo indent
        else p.put (List.replicate n ' ')
      | .breaks cs => quotedBreaks indent p cs
      | .word cs => p.put (cs.flatMap fun c => if c == '\'' then ['\'', '\''] else [c])
    singleQuotedRuns indent fold false p rest

/-- Write a scalar in single quotes. -/
def singleQuoted (p : Pen) (indent : Nat) (fold : Bool) (cs : List Char) : Pen :=
  let p := p.indicator ['\''] true false
  (singleQuotedRuns indent fold true p (runs cs)).indicator ['\''] false false

/-- May the character stand between double quotes without an escape? -/
def isPlainInDouble (c : Char) : Bool :=
  let n := c.toNat
  c != '"' && c != '\\' && c != '\u0085' && c != '\u2028' && c != '\u2029' && c != '\uFEFF' &&
    ((0x20 ≤ n && n ≤ 0x7E) || (0xA0 ≤ n && n ≤ 0xD7FF) || (0xE000 ≤ n && n ≤ 0xFFFD))

/-- The letters of the escapes that have one. -/
def escapeLetter? : Char → Option Char
  | '\x00' => some '0'
  | '\x07' => some 'a'
  | '\x08' => some 'b'
  | '\t' => some 't'
  | '\n' => some 'n'
  | '\x0b' => some 'v'
  | '\x0c' => some 'f'
  | '\r' => some 'r'
  | '\x1b' => some 'e'
  | '"' => some '"'
  | '\\' => some '\\'
  | '\u0085' => some 'N'
  | '\u00a0' => some '_'
  | '\u2028' => some 'L'
  | '\u2029' => some 'P'
  | _ => none

/-- A character as an escape between double quotes. -/
def escaped (c : Char) : List Char :=
  match escapeLetter? c with
  | some e => ['\\', e]
  | none =>
    let upper (cs : List Char) : List Char := cs.map Char.toUpper
    let n := Text.codeOf c
    if n ≤ 0xFF then '\\' :: 'x' :: upper (Text.hex 2 n)
    else if n ≤ 0xFFFF then '\\' :: 'u' :: upper (Text.hex 4 n)
    else '\\' :: 'U' :: upper (Text.hex 8 n)

/-- Fold a line between double quotes: a backslash ends it, and another one protects a space at
    the start of the next. -/
def foldDouble (p : Pen) (indent : Nat) (next : Option Char) : Pen :=
  let p := { (p.put ['\\']).indentTo indent with afterBlank := false, inIndent := false }
  if next == some ' ' then p.put ['\\'] else p

/-- Characters between double quotes.  `pending` are characters that are not yet written, the
    last one first; `first` says whether the next character starts the scalar.  A line is folded
    at a space, at an escape or at the start of a run, but not at either end of the scalar. -/
def doubleQuotedFrom (indent : Nat) (fold : Bool) :
    List Char → Bool → List Char → Pen → Pen
  | [], _, pending, p => p.put pending.reverse
  | c :: rest, first, pending, p =>
    let inside := !first && !rest.isEmpty && fold
    if isPlainInDouble c then
      if inside && (c == ' ' || pending.isEmpty) && width < p.column + pending.length then
        doubleQuotedFrom indent fold rest false [c]
          (foldDouble (p.put pending.reverse) indent (some c))
      else doubleQuotedFrom indent fold rest false (c :: pending) p
    else
      let p := (p.put pending.reverse).put (escaped c)
      if inside && width + 1 < p.column then
        doubleQuotedFrom indent fold rest false [] (foldDouble p indent rest.head?)
      else doubleQuotedFrom indent fold rest false [] p

/-- Write a scalar in double quotes. -/
def doubleQuoted (p : Pen) (indent : Nat) (fold : Bool) (cs : List Char) : Pen :=
  let p := p.indicator ['"'] true false
  (doubleQuotedFrom indent fold cs true [] p).indicator ['"'] false false

/-- The hints behind a block's indicator: an indentation when the text starts with a blank, and
    what happens to its last line ends. -/
def blockHints (cs : List Char) : List Char :=
  let front := if (cs.take 1).any fun c => c == ' ' || isBreak c then ['2'] else []
  let back := match cs.reverse with
    | [] => []
    | c :: rest =>
      if !isBreak c then ['-'] else if (rest.take 1).all isBreak then ['+'] else []
  front ++ back

/-- Write a scalar as a block of lines. -/
def block (p : Pen) (indent : Nat) (cs : List Char) : Pen :=
  let p := (p.indicator ('|' :: blockHints cs) true false).breakLine '\n'
  let p := (runsOfLines cs).foldl (fun p r => match r with
    | .breaks bs => bs.foldl breakLine p
    | .word ws => (p.indentTo indent).put ws
    | .spaces _ => p) p
  if cs.getLast?.any (!isBreak ·) then p.breakLine '\n' else p
where
  /-- Lines and the line ends between them. -/
  runsOfLines : List Char → List Run
    | [] => []
    | c :: rest =>
      let more := runsOfLines rest
      if isBreak c then
        match more with
        | .breaks cs :: more => .breaks (c :: cs) :: more
        | _ => .breaks [c] :: more
      else
        match more with
        | .word cs :: more => .word (c :: cs) :: more
        | _ => .word [c] :: more

end Pen

end Regen.Yaml
