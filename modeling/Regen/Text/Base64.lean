/-! # Base 64 text

    Bytes as text of 64 letters, three bytes to four letters.  Reading skips foreign characters
    and stops at a padding that completes a group. -/

namespace Regen.Text.Base64

def alphabet : List Char :=
  "ABCDEFGHIJKLMNOPQRSTUVWXYZabcdefghijklmnopqrstuvwxyz0123456789+/".toList

def letter (n : Nat) : Char := alphabet.getD n 'A'

/-- The value of a letter. -/
def letterValue? (c : Char) : Option Nat :=
  if 'A' ≤ c && c ≤ 'Z' then some (c.toNat - 0x41)
  else if 'a' ≤ c && c ≤ 'z' then some (c.toNat - 0x61 + 26)
  else if c.isDigit then some (c.toNat - 0x30 + 52)
  else if c == '+' then some 62
  else if c == '/' then some 63
  else none

/-- The letters of bytes, without line ends. -/
def encode : List UInt8 → List Char
  | a :: b :: c :: rest =>
    let n := a.toNat * 0x10000 + b.toNat * 0x100 + c.toNat
    letter (n / 0x40000) :: letter (n / 0x1000 % 64) :: letter (n / 64 % 64) :: letter (n % 64) ::
      encode rest
  | [a, b] =>
    let n := a.toNat * 0x400 + b.toNat * 4
    [letter (n / 0x1000), letter (n / 64 % 64), letter (n % 64), '=']
  | [a] => [letter (a.toNat / 4), letter (a.toNat * 16 % 64), '=', '=']
  | [] => []

/-- Lines of at most 76 letters, each with its end.  `fuel` bounds the number of lines. -/
def encodeLinesFrom : Nat → List UInt8 → List Char
  | 0, _ => []
  | fuel + 1, bytes =>
    if bytes.isEmpty then []
    else encode (bytes.take 57) ++ '\n' :: encodeLinesFrom fuel (bytes.drop 57)

/-- The letters of bytes in lines of at most 76 letters. -/
def encodeLines (bytes : List UInt8) : List Char :=
  encodeLinesFrom bytes.length bytes

/-- Read letters.  `place` is the position in the group of four, `carry` the bits left over from
    the last letter, `pads` the number of padding signs just seen. -/
def decodeFrom (place carry pads : Nat) : List Char → Option (List UInt8)
  | [] => if place = 0 then some [] else none
  | '=' :: rest =>
    if 2 ≤ place then
      if 4 ≤ place + pads + 1 then some [] else decodeFrom place carry (pads + 1) rest
    else decodeFrom place carry pads rest
  | c :: rest =>
    match letterValue? c with
    | none => decodeFrom place carry pads rest
    | some v =>
      match place with
      | 0 => decodeFrom 1 v 0 rest
      | 1 => (decodeFrom 2 (v % 16) 0 rest).map ((carry * 4 + v / 16).toUInt8 :: ·)
      | 2 => (decodeFrom 3 (v % 4) 0 rest).map ((carry * 16 + v / 4).toUInt8 :: ·)
      | _ => (decodeFrom 0 0 0 rest).map ((carry * 64 + v).toUInt8 :: ·)

/-- The bytes of a text; none if its last group is not complete. -/
def decode (cs : List Char) : Option (List UInt8) :=
  decodeFrom 0 0 0 cs

end Regen.Text.Base64
