import Regen.Text.Quoted

/-! # UTF-8

    Strict decoding: a byte sequence is a text or has a first fault, given by its place, its
    length and its cause. -/

namespace Regen.Text

/-- Why bytes are no UTF-8 text. -/
inductive Utf8Cause where
  /-- No character starts with this byte. -/
  | badStart
  /-- A byte that should continue a character does not. -/
  | badContinuation
  /-- The bytes end inside a character. -/
  | truncated
  deriving DecidableEq, Repr

/-- The first fault of bytes that are no UTF-8 text: where it starts, how many bytes it spans,
    and the first of them. -/
structure Utf8Fault where
  cause : Utf8Cause
  start : Nat
  length : Nat
  byte : UInt8
  deriving DecidableEq, Repr

def Utf8Cause.message : Utf8Cause → String
  | .badStart => "invalid start byte"
  | .badContinuation => "invalid continuation byte"
  | .truncated => "unexpected end of data"

def Utf8Fault.message (f : Utf8Fault) : String :=
  let place :=
    if f.length == 1 then s!"byte 0x{String.ofList (hex 2 f.byte.toNat)} in position {f.start}"
    else s!"bytes in position {f.start}-{f.start + f.length - 1}"
  s!"'utf-8' codec can't decode {place}: {f.cause.message}"

/-- Does the byte continue a character? -/
def isContinuation (b : UInt8) : Bool :=
  0x80 ≤ b.toNat && b.toNat < 0xC0

/-- How many bytes a character takes that starts with this byte; 0 when none does. -/
def sequenceLength (b : UInt8) : Nat :=
  let n := b.toNat
  if n < 0x80 then 1
  else if n < 0xC2 then 0
  else if n < 0xE0 then 2
  else if n < 0xF0 then 3
  else if n < 0xF5 then 4
  else 0

/-- May `second` follow `first`?  Overlong forms, surrogates and values past the last code point
    are excluded here. -/
def secondFits (first second : UInt8) : Bool :=
  isContinuation second &&
    match first.toNat with
    | 0xE0 => 0xA0 ≤ second.toNat
    | 0xED => second.toNat < 0xA0
    | 0xF0 => 0x90 ≤ second.toNat
    | 0xF4 => second.toNat < 0x90
    | _ => true

/-- The number of bytes after the first that fit a character of `wanted` more bytes. -/
def fittingTail (first : UInt8) (wanted : Nat) (rest : List UInt8) : Nat :=
  match rest with
  | [] => 0
  | second :: more =>
    if secondFits first second then
      1 + ((more.take (wanted - 1)).takeWhile isContinuation).length
    else 0

/-- The code point of a well-formed sequence. -/
def codePoint (first : UInt8) (tail : List UInt8) : Nat :=
  let lead := match tail.length with
    | 0 => first.toNat
    | 1 => first.toNat % 0x20
    | 2 => first.toNat % 0x10
    | _ => first.toNat % 0x08
  tail.foldl (fun n b => n * 0x40 + b.toNat % 0x40) lead

/-- Decode at most `fuel` characters from a place in the bytes. -/
def decodeFrom (fuel : Nat) (place : Nat) (bytes : List UInt8) : Except Utf8Fault (List Char) :=
  match fuel, bytes with
  | 0, _ => .ok []
  | _, [] => .ok []
  | fuel + 1, b :: rest =>
    match sequenceLength b with
    | 0 => .error ⟨.badStart, place, 1, b⟩
    | n + 1 =>
      let good := if n = 0 then 0 else fittingTail b n rest
      if good < n then
        if good = rest.length then .error ⟨.truncated, place, good + 1, b⟩
        else .error ⟨.badContinuation, place, good + 1, b⟩
      else do
        let more ← decodeFrom fuel (place + n + 1) (rest.drop n)
        pure (Char.ofNat (codePoint b (rest.take n)) :: more)

/-- The text that the bytes encode. -/
def decodeUtf8 (bytes : List UInt8) : Except Utf8Fault (List Char) :=
  decodeFrom bytes.length 0 bytes

/-- The bytes of one character. -/
def encodeChar (c : Char) : List UInt8 :=
  let n := c.toNat
  if n < 0x80 then [n.toUInt8]
  else if n < 0x800 then [(0xC0 + n / 0x40).toUInt8, (0x80 + n % 0x40).toUInt8]
  else if n < 0x10000 then
    [(0xE0 + n / 0x1000).toUInt8, (0x80 + n / 0x40 % 0x40).toUInt8, (0x80 + n % 0x40).toUInt8]
  else
    [(0xF0 + n / 0x40000).toUInt8, (0x80 + n / 0x1000 % 0x40).toUInt8,
      (0x80 + n / 0x40 % 0x40).toUInt8, (0x80 + n % 0x40).toUInt8]

/-- The bytes of a text. -/
def encodeUtf8 (cs : List Char) : List UInt8 :=
  cs.flatMap encodeChar

@[simp] theorem encodeUtf8_nil : encodeUtf8 [] = [] := rfl

@[simp] theorem encodeUtf8_append (xs ys : List Char) :
    encodeUtf8 (xs ++ ys) = encodeUtf8 xs ++ encodeUtf8 ys := by
  simp [encodeUtf8]

end Regen.Text
