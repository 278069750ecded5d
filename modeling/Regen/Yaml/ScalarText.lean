import Regen.Text.Surrogate
import Regen.Yaml.Cursor

/-! # Texts of scalars

    How the text of a scalar is read in each of its four spellings: plain, in single quotes, in
    double quotes and as a block.  Line ends inside a scalar are folded: a single one becomes a
    space, further ones are kept. -/

namespace Regen.Yaml

/-! ## Plain scalars -/

/-- The number of characters up to the end of a piece of a plain scalar: a blank, a colon that
    ends a key, or inside brackets an indicator. -/
def plainLength (flow : Bool) : List Char → Nat
  | [] => 0
  | c :: rest =>
    if isSpaceOrTab c || isBreak c then 0
    else if c == ':' && (endsWord rest ||
        (flow && (rest.take 1).any (",[]\x7b\x7d".toList.contains ·))) then 0
    else if flow && ",?[]\x7b\x7d".toList.contains c then 0
    else 1 + plainLength flow rest

/-- What stands between two pieces of a plain scalar. -/
structure Gap where
  /-- The characters that the gap stands for; none when nothing may follow. -/
  text : List Char
  /-- Did a line end here? -/
  brokeLine : Bool
  cursor : Cursor

/-- Blank lines behind a line end, up to the next piece; none at a document marker. -/
def plainBreaks : Nat → Cursor → Option (List Char) × Cursor
  | 0, c => (some [], c)
  | fuel + 1, c =>
    match c.rest with
    | ' ' :: _ => plainBreaks fuel c.next
    | _ =>
      match c.lineBreak? with
      | some (b, c) =>
        if c.atDocumentMark then (none, c)
        else
          let (breaks, c) := plainBreaks fuel c
          (breaks.map (b :: ·), c)
      | none => (some [], c)

/-- Read the gap behind a piece of a plain scalar. -/
def plainGap (c : Cursor) : Gap :=
  let (spaces, c) := c.span (· == ' ')
  match c.lineBreak? with
  | some (b, c) =>
    if c.atDocumentMark then ⟨[], true, c⟩
    else match plainBreaks (c.remaining + 1) c with
      | (none, c) => ⟨[], true, c⟩
      | (some breaks, c) =>
        let front := if b != '\n' then [b] else if breaks.isEmpty then [' '] else []
        ⟨front ++ breaks, true, c⟩
  | none => ⟨spaces, false, c⟩

/-- Pieces of a plain scalar with the gaps between them; `gap` is what stands before the next
    piece.  Outside brackets a piece must be indented.  The result says whether the last gap ended
    a line. -/
def plainPieces (flow : Bool) (indent : Int) : Nat → Gap → List Char × Bool × Cursor
  | 0, gap => ([], gap.brokeLine, gap.cursor)
  | fuel + 1, gap =>
    let c := gap.cursor
    let n := if c.rest.head? == some '#' then 0 else plainLength flow c.rest
    if n = 0 then ([], gap.brokeLine, c)
    else
      let front := gap.text ++ c.rest.take n
      let gap := plainGap (c.skip n)
      let stop := gap.text.isEmpty || gap.cursor.rest.head? == some '#' ||
        (!flow && (gap.cursor.column : Int) < indent)
      if stop then (front, gap.brokeLine, gap.cursor)
      else
        let (text, brokeLine, c) := plainPieces flow indent fuel gap
        (front ++ text, brokeLine, c)

/-- Read a plain scalar: its text, whether a line ended behind it, and the place behind it. -/
def plainScalar (flow : Bool) (indent : Int) (c : Cursor) : List Char × Bool × Cursor :=
  plainPieces flow indent (c.remaining + 1) ⟨[], false, c⟩

/-! ## Quoted scalars -/

/-- Line ends and blanks inside quotes, behind a first line end.  A document marker may not stand
    there. -/
def quotedBreaks : Nat → Cursor → Except ReadError (List Char × Cursor)
  | 0, c => .ok ([], c)
  | fuel + 1, c =>
    if c.atDocumentMark then .error .malformed
    else
      let c := c.skipWhile isSpaceOrTab
      match c.lineBreak? with
      | some (b, c) => do
        let (breaks, c) ← quotedBreaks fuel c
        pure (b :: breaks, c)
      | none => .ok ([], c)

/-- Blanks inside quotes: kept inside a line, folded at a line end. -/
def quotedBlanks (c : Cursor) : Except ReadError (List Char × Cursor) :=
  let (blanks, c) := c.span isSpaceOrTab
  match c.lineBreak? with
  | some (b, c) => do
    let (breaks, c) ← quotedBreaks (c.remaining + 1) c
    let front := if b != '\n' then [b] else if breaks.isEmpty then [' '] else []
    pure (front ++ breaks, c)
  | none => if c.rest.isEmpty then .error .malformed else .ok (blanks, c)

/-- The character that a single-letter escape stands for. -/
def escaped? : Char → Option Char
  | '0' => some '\x00'
  | 'a' => some '\x07'
  | 'b' => some '\x08'
  | 't' => some '\t'
  | '\t' => some '\t'
  | 'n' => some '\n'
  | 'v' => some '\x0b'
  | 'f' => some '\x0c'
  | 'r' => some '\r'
  | 'e' => some '\x1b'
  | ' ' => some ' '
  | '"' => some '"'
  | '\\' => some '\\'
  | '/' => some '/'
  | 'N' => some '\u0085'
  | '_' => some '\u00a0'
  | 'L' => some '\u2028'
  | 'P' => some '\u2029'
  | _ => none

/-- How many hexadecimal digits follow a numeric escape. -/
def escapeDigits? : Char → Option Nat
  | 'x' => some 2
  | 'u' => some 4
  | 'U' => some 8
  | _ => none

/-- The value of a hexadecimal digit. -/
def hexValue? (c : Char) : Option Nat :=
  if c.isDigit then some (c.toNat - 0x30)
  else if 'a' ≤ c && c ≤ 'f' then some (c.toNat - 0x57)
  else if 'A' ≤ c && c ≤ 'F' then some (c.toNat - 0x37)
  else none

/-- The value of `n` hexadecimal digits. -/
def hexNumber? (n : Nat) (cs : List Char) : Option Nat :=
  let ds := cs.take n
  if ds.length < n then none
  else ds.foldl (fun acc c => acc.bind fun a => (hexValue? c).map (a * 16 + ·)) (some 0)

/-- The character of a numeric escape. -/
def numericCharacter (n : Nat) : Except ReadError Char :=
  if n ≤ 0x10FFFF then .ok (Text.ofCode n)
  else .error (.fault (if n < 0x80000000 then .character else .characterTooLarge))

/-- An escape behind its backslash. -/
def escape (c : Cursor) : Except ReadError (List Char × Cursor) :=
  match c.rest with
  | [] => .error .malformed
  | ch :: rest =>
    match escaped? ch with
    | some e => .ok ([e], c.next)
    | none =>
      match escapeDigits? ch with
      | some n =>
        match hexNumber? n rest with
        | some v => do pure ([← numericCharacter v], c.skip (n + 1))
        | none => .error .malformed
      | none =>
        if isBreak ch then quotedBreaks c.remaining c.next
        else .error .malformed

/-- Does the character stand for itself between quotes, without being looked at? -/
def isOrdinary (c : Char) : Bool :=
  !(c == '\'' || c == '"' || c == '\\' || isSpaceOrTab c || isBreak c)

/-- The text up to the closing quote, and the place behind it. -/
def quotedBody (double : Bool) : Nat → Cursor → Except ReadError (List Char × Cursor)
  | 0, _ => .error .malformed
  | fuel + 1, c =>
    match c.rest with
    | [] => .error .malformed
    | ch :: rest =>
      if ch == (if double then '"' else '\'') && (double || rest.head? != some '\'') then
        .ok ([], c.next)
      else do
        let (front, c) ←
          if isSpaceOrTab ch || isBreak ch then quotedBlanks c
          else if double && ch == '\\' then escape c.next
          else if !double && ch == '\'' then pure ([ch], c.skip 2)
          else if isOrdinary ch then pure (c.span isOrdinary)
          else pure ([ch], c.next)
        let (text, c) ← quotedBody double fuel c
        pure (front ++ text, c)

/-- Read a quoted scalar from its opening quote on. -/
def quotedScalar (double : Bool) (c : Cursor) : Except ReadError (List Char × Cursor) :=
  quotedBody double (c.remaining + 1) c.next

/-! ## Block scalars -/

/-- What happens to the line ends behind a block scalar. -/
inductive Chomping where
  | strip
  | clip
  | keep
  deriving DecidableEq, Repr

def chompingSign? : List Char → Option Chomping
  | '+' :: _ => some .keep
  | '-' :: _ => some .strip
  | _ => none

def indentDigit? : List Char → Option Nat
  | c :: _ => if c.isDigit then some (c.toNat - 0x30) else none
  | [] => none

/-- The indicators behind `|` or `>`: chomping and relative indentation in either order. -/
def blockHeader (c : Cursor) : Except ReadError (Chomping × Option Nat × Cursor) := do
  let (chomping, increment, c) ← match chompingSign? c.rest with
    | some chomping =>
      let c := c.next
      match indentDigit? c.rest with
      | some 0 => .error .malformed
      | some n => pure (chomping, some n, c.next)
      | none => pure (chomping, none, c)
    | none =>
      match indentDigit? c.rest with
      | some 0 => .error .malformed
      | some n =>
        let c := c.next
        match chompingSign? c.rest with
        | some chomping => pure (chomping, some n, c.next)
        | none => pure (.clip, some n, c)
      | none => pure (.clip, none, c)
  if endsField c.rest then pure (chomping, increment, c) else .error .malformed

/-- The rest of a line that may hold a comment only. -/
def restOfLine (c : Cursor) : Except ReadError Cursor :=
  let c := c.skipSpaces.skipComment
  match c.lineBreak? with
  | some (_, c) => .ok c
  | none => if c.rest.isEmpty then .ok c else .error .malformed

/-- Leading blank lines of a block scalar without a given indentation, with the greatest column
    that their spaces reach. -/
def leadingBreaks : Nat → Cursor → Nat → List Char × Nat × Cursor
  | 0, c, widest => ([], widest, c)
  | fuel + 1, c, widest =>
    match c.lineBreak? with
    | some (b, c) =>
      let (breaks, widest, c) := leadingBreaks fuel c widest
      (b :: breaks, widest, c)
    | none =>
      if c.rest.head? == some ' ' then leadingBreaks fuel c.next (max widest c.next.column)
      else ([], widest, c)

/-- Move past spaces, at most up to a column. -/
def skipIndent (indent : Nat) : Nat → Cursor → Cursor
  | 0, c => c
  | fuel + 1, c =>
    if c.column < indent && c.rest.head? == some ' ' then skipIndent indent fuel c.next else c

/-- Blank lines between the lines of a block scalar. -/
def blockBreaks (indent : Nat) : Nat → Cursor → List Char × Cursor
  | 0, c => ([], c)
  | fuel + 1, c =>
    let c := skipIndent indent c.remaining c
    match c.lineBreak? with
    | some (b, c) =>
      let (breaks, c) := blockBreaks indent fuel c
      (b :: breaks, c)
    | none => ([], c)

/-- The line end in front as text, empty at the end of the document, and the place behind it. -/
def lineEnd (c : Cursor) : List Char × Cursor :=
  match c.lineBreak? with
  | some (b, c) => ([b], c)
  | none => ([], c)

/-- What was read of a block scalar: the text without its last line end, that line end, the blank
    lines behind it and the place behind them. -/
structure BlockText where
  text : List Char
  ending : List Char
  breaks : List Char
  cursor : Cursor

/-- The lines of a block scalar; `breaks` are the blank lines before the first of them. -/
def blockLines (folded : Bool) (indent : Nat) : Nat → List Char → Cursor → BlockText
  | 0, breaks, c => ⟨[], [], breaks, c⟩
  | fuel + 1, breaks, c =>
    if c.column != indent || c.rest.isEmpty then ⟨[], [], breaks, c⟩
    else
      let startsBlank := (c.rest.take 1).any isSpaceOrTab
      let (line, c) := c.span (!isBreak ·)
      let (ending, c) := lineEnd c
      let (nextBreaks, c) := blockBreaks indent (c.remaining + 1) c
      if c.column != indent || c.rest.isEmpty then ⟨breaks ++ line, ending, nextBreaks, c⟩
      else
        let folds := folded && ending == ['\n'] && !startsBlank && !(c.rest.take 1).any isSpaceOrTab
        let joint := if folds then (if nextBreaks.isEmpty then [' '] else []) else ending
        let more := blockLines folded indent fuel nextBreaks c
        { more with text := breaks ++ line ++ joint ++ more.text }

/-- Read a block scalar from its indicator on, inside a block of the given indentation. -/
def blockScalar (folded : Bool) (outer : Int) (c : Cursor) :
    Except ReadError (List Char × Cursor) := do
  let (chomping, increment, c) ← blockHeader c.next
  let c ← restOfLine c
  let least := (max (outer + 1) 1).toNat
  let fuel := c.remaining + 1
  let (breaks, indent, c) := match increment with
    | some n =>
      let indent := least + n - 1
      let (breaks, c) := blockBreaks indent fuel c
      (breaks, indent, c)
    | none =>
      let (breaks, widest, c) := leadingBreaks fuel c 0
      (breaks, max least widest, c)
  let block := blockLines folded indent fuel breaks c
  let tail := match chomping with
    | .strip => []
    | .clip => block.ending
    | .keep => block.ending ++ block.breaks
  pure (block.text ++ tail, block.cursor)

end Regen.Yaml
