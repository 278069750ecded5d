import Regen.Console.Action.Fault

/-! # Escapes in quoted texts

    A backslash and a letter write a character by its number or its name.  A broken escape is
    named by its place. -/

namespace Regen.Console.Action

open Text

/-- How many hexadecimal digits stand behind the letter of an escape. -/
def digitCount? : Char → Option Nat
  | 'x' => some 2
  | 'u' => some 4
  | 'U' => some 8
  | _ => none

def isHexDigit (c : Char) : Bool := c.isDigit || ('a' ≤ c.toLower && c.toLower ≤ 'f')

/-- The number that hexadecimal digits write. -/
def hexValue (cs : List Char) : Nat :=
  cs.foldl (fun n c => 16 * n + if c.isDigit then c.toNat - 0x30 else c.toLower.toNat - 0x57) 0

/-- A text as its places are counted: a character above ASCII counts as its escape, and so does a
    backslash in front of one. -/
def spellOut : List Char → List Char
  | [] => []
  | '\\' :: c :: rest =>
    if c.toNat < 0x80 then '\\' :: c :: spellOut rest
    else '\\' :: 'u' :: hex 4 '\\'.toNat ++ '\\' :: 'U' :: hex 8 (codeOf c) ++ spellOut rest
  | c :: rest =>
    if c.toNat < 0x80 then c :: spellOut rest
    else '\\' :: 'U' :: hex 8 (codeOf c) ++ spellOut rest

/-- The first broken escape of a text that is spelled out, from a position on. -/
def brokenEscape? (position : Nat) (cs : List Char) : Option SyntaxFault :=
  match cs with
  | '\\' :: c :: rest =>
    match digitCount? c with
    | some n =>
      let digits := (rest.take n).takeWhile isHexDigit
      if digits.length < n then some (.shortEscape position (position + 1 + digits.length) c n)
      else if 0x110000 ≤ hexValue digits then some (.escapeTooLarge position (position + 1 + n))
      else brokenEscape? (position + 2 + n) (rest.drop n)
    | none =>
      if c == 'N' then
        match rest with
        | '\x7b' :: more =>
          let name := more.takeWhile (· != '\x7d')
          if name.length = more.length then
            some (.escapeName position (position + 1 + rest.length))
          else if name.isEmpty then some (.escapeName position (position + 2))
          else brokenEscape? (position + 4 + name.length) (more.drop (name.length + 1))
        | _ => some (.escapeName position (position + 1))
      else brokenEscape? (position + 2) rest
  | _ :: rest => brokenEscape? (position + 1) rest
  | [] => none
termination_by cs.length

/-- The first broken escape of bytes, from a position on. -/
def brokenByte? : Nat → List Char → Option SyntaxFault
  | position, '\\' :: 'x' :: rest =>
    match rest with
    | a :: b :: rest =>
      if isHexDigit a && isHexDigit b then brokenByte? (position + 4) rest
      else some (.byteEscape position)
    | _ => some (.byteEscape position)
  | position, '\\' :: _ :: rest => brokenByte? (position + 2) rest
  | position, _ :: rest => brokenByte? (position + 1) rest
  | _, [] => none

/-- A quoted text in its parts. -/
structure QuotedParts where
  /-- Do backslashes stand for themselves?  The letter `r` in front says so. -/
  isRaw : Bool
  /-- What stands between the quotes. -/
  inside : List Char

/-- The parts of a quoted text. -/
def quotedParts (text : List Char) : QuotedParts :=
  let marks := text.takeWhile Char.isAlpha
  let cs := text.drop marks.length
  let quotes := match cs with
    | a :: b :: c :: _ :: _ => if a == b && b == c then 3 else 1
    | _ => 1
  ⟨marks.any fun m => m.toLower == 'r', (cs.drop quotes).take (cs.length - 2 * quotes)⟩

/-- What is wrong inside a quoted text. -/
def textFault? (parts : QuotedParts) : Option SyntaxFault :=
  if parts.isRaw then none else brokenEscape? 0 (spellOut parts.inside)

/-- What is wrong inside quoted bytes. -/
def bytesFault? (parts : QuotedParts) : Option SyntaxFault :=
  if parts.inside.any (0x80 ≤ ·.toNat) then some .bytesAscii
  else if parts.isRaw then none
  else brokenByte? 0 parts.inside

end Regen.Console.Action
