import Regen.Yaml.Tag

/-! # Spellings of scalars

    A scalar is written plainly where its plain text reads back as the same value, otherwise in
    single quotes, and in double quotes where it holds characters that need an escape.  Long
    byte strings are written as blocks. -/

namespace Regen.Yaml

/-- How a scalar is written. -/
inductive Spelling where
  | plain
  | singleQuoted
  | doubleQuoted
  | block
  deriving DecidableEq, Repr

/-- Is the character a blank or a line end, or the sentinel that readers put behind a text? -/
def isBlankOrEnd (c : Char) : Bool :=
  isSpaceOrTab c || isBreak c || c == '\r' || c == '\x00'

/-- May the character be written without an escape? -/
def isWritable (c : Char) : Bool :=
  let n := Text.codeOf c
  c == '\n' || (0x20 ≤ n && n ≤ 0x7E) || n == 0x85 || (0xA0 ≤ n && n ≤ 0xD7FF) ||
    (0xE000 ≤ n && n ≤ 0xFFFD && c != '\uFEFF') || (0x10000 ≤ n && n < 0x10FFFF)

/-- Does a character that satisfies `p` stand directly before one that satisfies `q`? -/
def adjacent (p q : Char → Bool) : List Char → Bool
  | a :: b :: rest => (p a && q b) || adjacent p q (b :: rest)
  | _ => false

/-- Does a text go on with a blank, or end? -/
def blankFollows (cs : List Char) : Bool := (cs.take 1).all isBlankOrEnd

/-- Does an indicator stand inside a text that would end a plain scalar: a colon before a blank,
    or a number sign behind one? -/
def hasInnerIndicator : List Char → Bool
  | a :: b :: rest =>
    (b == ':' && blankFollows rest) || (b == '#' && isBlankOrEnd a) || hasInnerIndicator (b :: rest)
  | _ => false

/-- Does a text start like something other than a plain scalar? -/
def hasLeadingIndicator (cs : List Char) : Bool :=
  match cs with
  | [] => false
  | c :: rest =>
    cs.take 3 == ['-', '-', '-'] || cs.take 3 == ['.', '.', '.'] ||
      "#,[]\x7b\x7d&*!|>'\"%@`".toList.contains c ||
      ((c == '?' || c == ':' || c == '-') && blankFollows rest)

/-- What a text allows. -/
structure Analysis where
  isEmpty : Bool
  hasBreaks : Bool
  allowsPlain : Bool
  allowsSingleQuotes : Bool
  allowsBlock : Bool
  deriving Repr

def analyze (cs : List Char) : Analysis :=
  if cs.isEmpty then ⟨true, false, true, true, false⟩
  else
    let isSpace (c : Char) : Bool := c == ' '
    let edge := cs.take 1 ++ cs.reverse.take 1
    let special := cs.any (!isWritable ·) || adjacent isSpace isBreak cs
    let breakSpace := adjacent isBreak isSpace cs
    let hasBreaks := cs.any isBreak
    { isEmpty := false
      hasBreaks
      allowsPlain := !edge.any (fun c => isSpace c || isBreak c) && !breakSpace && !special &&
        !hasBreaks && !hasLeadingIndicator cs && !hasInnerIndicator cs
      allowsSingleQuotes := !breakSpace && !special
      allowsBlock := cs.getLast? != some ' ' && !special }

/-- A scalar that is to be written. -/
structure Scalar where
  tag : Tag
  text : List Char
  /-- Is a block preferred? -/
  asBlock : Bool

/-- Does the plain text read back with the scalar's tag? -/
def Scalar.readsBack (s : Scalar) : Bool :=
  Tag.ofPlain (String.ofList s.text) == s.tag

/-- The spelling of a scalar.  A mapping's key on its own line stays on one line. -/
def Scalar.spelling (s : Scalar) (isKey : Bool) : Spelling :=
  let a := analyze s.text
  if s.asBlock then
    if !isKey && a.allowsBlock then .block else .doubleQuoted
  else if s.readsBack && a.allowsPlain && !(isKey && (a.isEmpty || a.hasBreaks)) then .plain
  else if a.allowsSingleQuotes && !(isKey && a.hasBreaks) then .singleQuoted
  else .doubleQuoted

/-- Must the tag be written, because the spelling alone would give another one? -/
def Scalar.needsTag (s : Scalar) (spelling : Spelling) : Bool :=
  match spelling with
  | .plain => !s.readsBack
  | _ => s.tag != .str

end Regen.Yaml
