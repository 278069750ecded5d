import Regen.Number.Decimal
import Regen.Number.Limit
import Regen.Value.Basic

/-! # Text of values

    A value alone is shown plainly; inside a collection texts are quoted and times are spelled
    out.  Collections are shown with the brackets of their kind. -/

namespace Regen.Value

open Number Time

/-- Numbers separated by commas. -/
def commaNumbers (ns : List Nat) : String :=
  String.intercalate ", " (ns.map toString)

/-- An offset as it is spelled out inside a collection. -/
def zoneShown (offset : Int) : String :=
  if offset = 0 then "datetime.timezone.utc" else s!"datetime.timezone({spanText offset})"

/-- A date as it is spelled out inside a collection. -/
def dateShown (d : Date) : String :=
  s!"datetime.date({commaNumbers [d.year, d.month, d.day]})"

/-- A moment as it is spelled out inside a collection; seconds and microseconds only when they
    are needed. -/
def momentShown (t : Moment) : String :=
  let tail := if t.micro ≠ 0 then [t.second, t.micro] else if t.second ≠ 0 then [t.second] else []
  let fields := [t.date.year, t.date.month, t.date.day, t.hour, t.minute] ++ tail
  let zone := match t.offset with
    | none => ""
    | some offset => ", tzinfo=" ++ zoneShown offset
  "datetime.datetime(" ++ commaNumbers fields ++ zone ++ ")"

mutual

/-- A value as it is shown inside a collection. -/
def shown : Value → String
  | null => "None"
  | bool b => if b then "True" else "False"
  | int n => toString n
  | real x => x.text
  | text s => Text.quoted s
  | bytes bs => Text.quotedBytes bs
  | date d _ => dateShown d
  | time t _ => momentShown t
  | list xs _ => "[" ++ String.intercalate ", " (shownList xs) ++ "]"
  | tuple [x] => "(" ++ shown x ++ ",)"
  | tuple xs => "(" ++ String.intercalate ", " (shownList xs) ++ ")"
  | set [] _ => "set()"
  | set xs _ => "\x7b" ++ String.intercalate ", " (shownList xs) ++ "\x7d"
  | map es _ => "\x7b" ++ String.intercalate ", " (shownEntries es) ++ "\x7d"

def shownList : List Value → List String
  | [] => []
  | x :: xs => shown x :: shownList xs

def shownEntries : List (Value × Value) → List String
  | [] => []
  | (k, v) :: es => (shown k ++ ": " ++ shown v) :: shownEntries es

end

/-- A value as it is shown alone. -/
def display : Value → String
  | text s => s
  | date d _ => d.text
  | time t _ => t.text " "
  | v => v.shown

/-! ## Long integers -/

mutual

/-- Does the value hold an integer that is too long to be shown? -/
def holdsLong : Value → Bool
  | int n => isLong n
  | list xs _ | tuple xs | set xs _ => anyLong xs
  | map es _ => anyLongEntry es
  | _ => false

def anyLong : List Value → Bool
  | [] => false
  | x :: xs => holdsLong x || anyLong xs

def anyLongEntry : List (Value × Value) → Bool
  | [] => false
  | (k, v) :: es => holdsLong k || holdsLong v || anyLongEntry es

end

/-- The text of a value, unless an integer in it is too long. -/
def toText (v : Value) : Except Fault String :=
  if v.holdsLong then .error .intTooLong else .ok v.display

@[simp] theorem toText_text (s : String) : (text s).toText = .ok s := by
  simp [toText, holdsLong, display]

@[simp] theorem display_text (s : String) : (text s).display = s := rfl

end Regen.Value
