import Regen.Text.Base64
import Regen.Text.Lines
import Regen.Text.Lower
import Regen.Value.Convert
import Regen.Yaml.Cursor
import Regen.Yaml.Tag

/-! # Values of scalars

    The value of a scalar by its tag: flags, integers and reals in several bases and in parts of
    sixty, dates and moments, bytes and text. -/

namespace Regen.Yaml

open Number Time

/-- The values of flags. -/
def flags : List (String × Bool) :=
  [("yes", true), ("no", false), ("true", true), ("false", false), ("on", true), ("off", false)]

def boolValue (text : String) : Except Fault Value :=
  let key := String.ofList (Text.lower text.toList)
  match flags.find? (·.1 == key) with
  | some (_, b) => .ok (.bool b)
  | none => .error (.missingKey key)

/-- The sign of a numeral and the text behind it; a numeral may not be empty. -/
def splitSign (cs : List Char) : Except Fault (Bool × List Char) :=
  match cs with
  | [] => .error .emptyText
  | '-' :: rest => .ok (true, rest)
  | '+' :: rest => .ok (false, rest)
  | _ => .ok (false, cs)

/-- An integer in base 2, 8, 10, 16 or in parts of sixty. -/
def intValue (text : String) : Except Fault Value := do
  let (negative, cs) ← splitSign (text.toList.filter (· != '_'))
  let n ← match cs with
    | ['0'] => pure 0
    | '0' :: 'b' :: ds => readInt 2 (String.ofList ds)
    | '0' :: 'x' :: ds => readInt 16 (String.ofList ds)
    | '0' :: _ => readInt 8 (String.ofList cs)
    | [] => .error .emptyText
    | _ =>
      if cs.contains ':' then do
        let parts ← (Text.splitAt (· == ':') cs).mapM fun p => readInt 10 (String.ofList p)
        pure (parts.foldl (fun n d => n * 60 + d) 0)
      else readInt 10 (String.ofList cs)
  pure (.int (if negative then -n else n))

/-- The sum of parts, the last one counted once and each one before it sixty times the next. -/
def sixtyFold : List Binary64 → Int → Binary64 → Except Fault Binary64
  | [], _, total => .ok total
  | d :: ds, base, total => do
    let b ← Binary64.ofInt? base
    sixtyFold ds (base * 60) (total + d * b)

/-- A real number, also in parts of sixty. -/
def realValue (text : String) : Except Fault Value := do
  let cs := Text.lower (text.toList.filter (· != '_'))
  let (negative, cs) ← splitSign cs
  if cs == ".inf".toList then pure (.real (.infinite negative))
  else if cs == ".nan".toList then pure (.real (.nan true))
  else
    let x ← if cs.contains ':' then do
        let parts ← (Text.splitAt (· == ':') cs).mapM fun p => readReal (String.ofList p)
        sixtyFold parts.reverse 1 .zero
      else readReal (String.ofList cs)
    pure (.real (if negative then -x else x))

/-- Six digits of a fraction as microseconds. -/
def fractionMicros (ds : List Char) : Nat :=
  let ds := ds.take 6
  digitRun ds * Nat.pow 10 (6 - ds.length)

/-- A date, or a moment when a time of day is given.  The offset is judged first. -/
def timeValue (id : Nat) (text : String) : Except Fault Value := do
  let cs := text.toList
  let cs := if cs.getLast? == some '\n' then cs.dropLast else cs
  match timeForm? cs with
  | none => .error (.noAttribute "NoneType" "groupdict")
  | some form =>
    let year := digitRun form.year
    let month := digitRun form.month
    let day := digitRun form.day
    match form.clock with
    | none => pure (.date (← Date.ofFields? year month day) (some id))
    | some (hour, minute, second) =>
      let offset ← match form.zone with
        | none => pure none
        | some none => pure (some 0)
        | some (some (sign, h, m)) =>
          let micros : Int := ((digitRun h * 60 + digitRun m) * 60000000 : Nat)
          (checkOffset (if sign == '-' then -micros else micros)).map some
      let t ← Moment.ofFields? year month day (digitRun hour) (digitRun minute) (digitRun second)
        (fractionMicros form.fraction) offset
      pure (.time t (some id))

/-- The bytes of a text in base 64; only ASCII is read. -/
def binaryValue (text : String) : Except ReadError Value :=
  if text.toList.all (·.toNat < 0x80) then
    match Text.Base64.decode text.toList with
    | some bs => .ok (.bytes bs)
    | none => .error .malformed
  else .error .malformed

/-- A fault of a scalar. -/
def asRead {α : Type} (r : Except Fault α) : Except ReadError α := r.mapError .fault

/-- The value of a scalar with a tag; none when the tag is for collections. -/
def scalarValue (id : Nat) (tag : Tag) (text : String) : Except ReadError Value :=
  match tag with
  | .null => .ok .null
  | .bool => asRead (boolValue text)
  | .int => asRead (intValue text)
  | .float => asRead (realValue text)
  | .timestamp => asRead (timeValue id text)
  | .binary => binaryValue text
  | .str => .ok (.text text)
  | _ => .error .malformed

/-- Is the tag one of a value without parts? -/
def Tag.isScalar : Tag → Bool
  | .null | .bool | .int | .float | .timestamp | .binary | .str => true
  | _ => false

end Regen.Yaml
