import Regen.Fault

/-! # Places in a document's text

    A cursor is the text that is still to be read with the line and column of its start.  Columns
    decide the nesting of blocks, so moving a cursor keeps them. -/

namespace Regen.Yaml

/-- Why a document cannot be read: its text is malformed, or a scalar has no value. -/
inductive ReadError where
  | malformed
  | fault (fault : Fault)
  deriving DecidableEq, Repr

/-- Does the character end a line? -/
def isBreak (c : Char) : Bool :=
  c == '\n' || c == '\u0085' || c == '\u2028' || c == '\u2029'

/-- Is the character a space or a tab? -/
def isSpaceOrTab (c : Char) : Bool := c == ' ' || c == '\t'

/-- Does the text end, or go on with a blank or a line end? -/
def endsWord : List Char → Bool
  | [] => true
  | c :: _ => isSpaceOrTab c || isBreak c

/-- Does the text end, or go on with a space or a line end? -/
def endsField : List Char → Bool
  | [] => true
  | c :: _ => c == ' ' || isBreak c

/-- Does a line end here? -/
def atLineEnd : List Char → Bool
  | [] => true
  | c :: _ => isBreak c

/-- May the character stand in a document?  Controls other than tab, line feed, carriage return
    and next line may not. -/
def isAllowed (c : Char) : Bool :=
  let n := c.toNat
  n == 0x09 || n == 0x0A || n == 0x0D || (0x20 ≤ n && n ≤ 0x7E) || n == 0x85 ||
    (0xA0 ≤ n && n ≤ 0xD7FF) || (0xE000 ≤ n && n ≤ 0xFFFD) || 0x10000 ≤ n

/-- A place in a document. -/
structure Cursor where
  rest : List Char
  /-- How many characters are still to be read. -/
  remaining : Nat
  index : Nat
  line : Nat
  column : Nat
  remaining_eq : remaining = rest.length
  deriving Repr

namespace Cursor

/-- The start of a text. -/
def start (text : List Char) : Cursor := ⟨text, text.length, 0, 0, 0, rfl⟩

/-- Move past one character.  A byte order mark takes no column. -/
def next (c : Cursor) : Cursor :=
  match h : c.rest with
  | [] => c
  | ch :: rest =>
    have fewer : c.remaining - 1 = rest.length := by simp [c.remaining_eq, h]
    if isBreak ch then ⟨rest, c.remaining - 1, c.index + 1, c.line + 1, 0, fewer⟩
    else if ch == '\uFEFF' then ⟨rest, c.remaining - 1, c.index + 1, c.line, c.column, fewer⟩
    else ⟨rest, c.remaining - 1, c.index + 1, c.line, c.column + 1, fewer⟩

/-- Move past some characters. -/
def skip : Nat → Cursor → Cursor
  | 0, c => c
  | n + 1, c => skip n c.next

/-- The characters in front that satisfy `p`, and the place behind them. -/
def span (p : Char → Bool) (c : Cursor) : List Char × Cursor :=
  let taken := c.rest.takeWhile p
  (taken, c.skip taken.length)

/-- The place behind the characters in front that satisfy `p`. -/
def skipWhile (p : Char → Bool) (c : Cursor) : Cursor := (c.span p).2

/-- The place behind the spaces in front. -/
def skipSpaces (c : Cursor) : Cursor := c.skipWhile (· == ' ')

/-- The place at the end of the line if a comment starts here. -/
def skipComment (c : Cursor) : Cursor :=
  if c.rest.head? == some '#' then c.skipWhile (!isBreak ·) else c

/-- The line end in front, if there is one: next line counts as a line feed. -/
def lineBreak? (c : Cursor) : Option (Char × Cursor) :=
  match c.rest with
  | ch :: _ => if isBreak ch then some (if ch == '\u0085' then '\n' else ch, c.next) else none
  | [] => none

/-- Do three of these characters and the end of a word follow? -/
def atMark (mark : Char) (c : Cursor) : Bool :=
  c.rest.take 3 == [mark, mark, mark] && endsWord (c.rest.drop 3)

/-- Does a document marker follow: three hyphens or three dots? -/
def atDocumentMark (c : Cursor) : Bool := c.atMark '-' || c.atMark '.'

/-- Moving drops one character. -/
theorem rest_next (c : Cursor) : c.next.rest = c.rest.drop 1 := by
  unfold next
  split
  next h => simp [h]
  next h => split <;> (try split) <;> simp [h]

/-- Moving drops characters. -/
theorem rest_skip (n : Nat) (c : Cursor) : (c.skip n).rest = c.rest.drop n := by
  induction n generalizing c with
  | zero => rfl
  | succ n ih => rw [skip, ih, rest_next, List.drop_drop, Nat.add_comm]

end Cursor

end Regen.Yaml
