import Regen.Number.Binary64
import Regen.Number.Limit
import Regen.Text.Blank
import Regen.Text.Digit

/-! # Reading numbers from text

    A number may stand between blanks, may have a sign, single underscores between its digits and
    leading zeros, and may use the decimal digits of any script. -/

namespace Regen.Number

/-- Bring blanks and digits of all scripts to ASCII.  Any other character above ASCII becomes a
    question mark, which no number holds. -/
def toAsciiNumeral (cs : List Char) : List Char :=
  cs.map fun c =>
    if c.toNat < 0x80 then c
    else if Text.isBlank c then ' '
    else match Text.digitValue? c with
      | some d => Char.ofNat (0x30 + d)
      | none => '?'

/-- The value of a digit or letter in bases up to 36. -/
def baseDigit? (c : Char) : Option Nat :=
  if c.isDigit then some (c.toNat - 0x30)
  else if 'a' ≤ c && c ≤ 'z' then some (c.toNat - 0x57)
  else if 'A' ≤ c && c ≤ 'Z' then some (c.toNat - 0x37)
  else none

/-- Digits of a base with single underscores between them.  `afterDigit` says that the last
    character was a digit, so that an underscore may follow and the text may end. -/
def digitsValue? (base : Nat) (acc : Nat) (afterDigit : Bool) : List Char → Option Nat
  | [] => if afterDigit then some acc else none
  | '_' :: rest => if afterDigit then digitsValue? base acc false rest else none
  | c :: rest =>
    match baseDigit? c with
    | some d => if d < base then digitsValue? base (acc * base + d) true rest else none
    | none => none

/-- The letter that may announce a base after a zero. -/
def baseLetter? : Nat → Option Char
  | 2 => some 'b'
  | 8 => some 'o'
  | 16 => some 'x'
  | _ => none

/-- The digits after an announcement of the base, which one underscore may follow. -/
def afterBaseMark (base : Nat) : List Char → List Char
  | '0' :: c :: rest =>
    if baseLetter? base == some c.toLower then
      match rest with
      | '_' :: more => more
      | _ => rest
    else '0' :: c :: rest
  | cs => cs

/-- An integer of a base; none if the text is no such integer. -/
def int? (base : Nat) (cs : List Char) : Option Int :=
  let cs := Text.trimBoth Text.isAsciiBlank (toAsciiNumeral cs)
  let (negative, cs) := match cs with
    | '-' :: rest => (true, rest)
    | '+' :: rest => (false, rest)
    | _ => (false, cs)
  (digitsValue? base 0 false (afterBaseMark base cs)).map fun n =>
    if negative then -(n : Int) else n

/-- An integer of a base.  The wording of a fault shows at most 200 characters of the text. -/
def readInt (base : Nat) (s : String) : Except Fault Int :=
  let cs := s.toList
  match int? base cs with
  | some n =>
    let count := (cs.filter fun c => (Text.digitValue? c).isSome).length
    if base = 10 && maxDigits < count then .error (.intDigits count) else .ok n
  | none => .error (.intText base (String.ofList ((Text.quoted s).toList.take 200)))

/-- Drop underscores that stand between two digits; none if one stands elsewhere. -/
def joinDigits? (previous : Char) : List Char → Option (List Char)
  | [] => if previous == '_' then none else some []
  | '_' :: rest => if previous.isDigit then joinDigits? '_' rest else none
  | c :: rest =>
    if previous == '_' && !c.isDigit then none else (joinDigits? c rest).map (c :: ·)

/-- The value of a run of ASCII digits. -/
def digitRun (cs : List Char) : Nat :=
  cs.foldl (fun n c => n * 10 + (c.toNat - 0x30)) 0

/-- The exponent part of a decimal: nothing, or a letter, a sign and digits. -/
def exponent? : List Char → Option Int
  | [] => some 0
  | e :: rest =>
    if e.toLower == 'e' then
      let (negative, ds) := match rest with
        | '-' :: ds => (true, ds)
        | '+' :: ds => (false, ds)
        | _ => (false, rest)
      if ds.isEmpty || !ds.all Char.isDigit then none
      else some (if negative then -(digitRun ds : Int) else digitRun ds)
    else none

/-- An unsigned decimal: digits with an optional point and exponent. -/
def decimal? (negative : Bool) (cs : List Char) : Option Binary64 :=
  let whole := cs.takeWhile Char.isDigit
  let rest := cs.dropWhile Char.isDigit
  let (places, rest) := match rest with
    | '.' :: more => (more.takeWhile Char.isDigit, more.dropWhile Char.isDigit)
    | _ => ([], rest)
  if whole.isEmpty && places.isEmpty then none
  else (exponent? rest).map fun x =>
    Binary64.ofDecimal negative (digitRun (whole ++ places)) (x - places.length)

/-- An unsigned number: a decimal or the name of a value that is not finite. -/
def unsigned? (negative : Bool) (cs : List Char) : Option Binary64 :=
  match String.ofList (cs.map Char.toLower) with
  | "inf" | "infinity" => some (.infinite negative)
  | "nan" => some (.nan false)
  | _ => decimal? negative cs

/-- A number; none if the text is none. -/
def real? (cs : List Char) : Option Binary64 := do
  let cs := Text.trimBoth Text.isAsciiBlank (toAsciiNumeral cs)
  let cs ← joinDigits? ' ' cs
  match cs with
  | '-' :: rest => unsigned? true rest
  | '+' :: rest => unsigned? false rest
  | _ => unsigned? false cs

/-- A number. -/
def readReal (s : String) : Except Fault Binary64 :=
  match real? s.toList with
  | some x => .ok x
  | none => .error (.realText (Text.quoted s))

end Regen.Number
