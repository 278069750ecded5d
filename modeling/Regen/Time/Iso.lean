import Regen.Time.Moment

/-! # Reading ISO times

    A date in calendar or week form, with or without hyphens, optionally followed by any one
    character and a time of day.  The time has hours, optionally minutes and seconds, with or
    without colons, an optional fraction of any length, and an optional offset. -/

namespace Regen.Time.Iso

/-- The value of `n` leading ASCII digits and the text after them. -/
def digits? : Nat → List Char → Option (Nat × List Char)
  | n, cs =>
    let ds := cs.take n
    if ds.length = n && ds.all Char.isDigit then
      some (ds.foldl (fun acc c => acc * 10 + (c.toNat - 0x30)) 0, cs.drop n)
    else none

/-- The fields of a time of day or of an offset. -/
structure Clock where
  hour : Nat
  minute : Nat
  second : Nat
  micro : Nat

/-- A clock and whether text is left over behind it. -/
abbrev ClockResult := Option (Clock × Bool)

/-- The fraction behind the seconds: six digits count, further digits are dropped.  `next` is the
    character behind the clock's text. -/
def fraction (next : Char) (fields : List Nat) (cs : List Char) : ClockResult := do
  let count := min cs.length 6
  let (n, rest) ← digits? count cs
  let rest := rest.dropWhile Char.isDigit
  let clock : Clock :=
    ⟨fields.getD 0 0, fields.getD 1 0, fields.getD 2 0, n * Nat.pow 10 (6 - count)⟩
  some (clock, (rest ++ [next]).head? != some '\x00')

/-- Up to `left` two-digit fields, with colons between them if one follows the first field. -/
def clockFields (next : Char) (fields : List Nat) (colons : Bool) : Nat → List Char → ClockResult
  | 0, cs => fraction next fields cs
  | left + 1, cs => do
    let (n, rest) ← digits? 2 cs
    let fields := fields ++ [n]
    let c := (rest ++ [next]).headD next
    let colons := if fields.length = 1 then c == ':' else colons
    if rest.length ≤ 1 && c.toNat < 0x80 then
      some (⟨fields.getD 0 0, fields.getD 1 0, fields.getD 2 0, 0⟩, c != '\x00')
    else if colons && c == ':' then clockFields next fields colons left (rest.drop 1)
    else if c == '.' || c == ',' then fraction next fields (rest.drop 1)
    else if !colons then clockFields next fields colons left rest
    else none

/-- A time of day or an offset without its sign. -/
def clock (next : Char) (cs : List Char) : ClockResult :=
  clockFields next [] true 3 cs

/-- Does the character start an offset? -/
def startsOffset (c : Char) : Bool := c == '+' || c == '-' || c == 'Z'

/-- A time of day with an optional offset in microseconds.  Less than a second from universal
    time counts as universal time. -/
def timeOfDay (cs : List Char) : Option (Clock × Option Int) := do
  -- the first character belongs to the time even if it could start an offset
  let front := cs.take 1 ++ (cs.drop 1).takeWhile (!startsOffset ·)
  let front := if (cs.take 1).any startsOffset then [] else front
  let back := cs.drop front.length
  let (time, left) ← clock (back.headD '\x00') front
  match back with
  | [] => if left then none else some (time, none)
  | 'Z' :: rest => if rest.headD '\x00' == '\x00' then some (time, some 0) else none
  | sign :: rest =>
    let (o, left) ← clock '\x00' rest
    if left then none
    else
      let seconds : Int := ((o.hour * 60 + o.minute) * 60 + o.second : Nat)
      let micros := if seconds = 0 then 0 else seconds * 1000000 + o.micro
      some (time, some (if sign == '-' then -micros else micros))

/-- The length of the date in front of a time. -/
def dateLength (cs : List Char) : Nat :=
  let digitAt (i : Nat) : Bool := (cs.getD i '\x00').isDigit
  if cs.length = 7 then 7
  else if cs.getD 4 '\x00' == '-' then
    if cs.getD 5 '\x00' == 'W' then
      if 8 < cs.length && cs.getD 8 '\x00' == '-' then (if digitAt 10 then 8 else 10) else 8
    else 10
  else if cs.getD 4 '\x00' == 'W' then
    let stop := 7 + ((cs.drop 7).takeWhile Char.isDigit).length
    if stop < 9 then stop else if stop % 2 = 0 then 7 else 8
  else 8

/-- What a date text says: calendar fields, or a year without any first week. -/
inductive DateReading where
  | fields (year month day : Nat)
  | beforeFirstYear

/-- A week and a day of it. -/
def weekDate (year week day : Nat) : Option DateReading :=
  if week = 0 || 53 < week || (week = 53 && (year = 0 || !Date.hasLongYear year)) then none
  else if day = 0 || 7 < day then none
  else if year = 0 then some .beforeFirstYear
  else
    let d := Date.ofDayNumber (Date.firstMonday year + (week - 1) * 7 + (day - 1))
    some (.fields d.year d.month d.day)

/-- A date in calendar or week form. -/
def date? (cs : List Char) : Option DateReading := do
  let (year, rest) ← digits? 4 cs
  let (hyphens, rest) := match rest with
    | '-' :: more => (true, more)
    | _ => (false, rest)
  match rest with
  | 'W' :: rest =>
    let (week, rest) ← digits? 2 rest
    match hyphens, rest with
    | _, [] => weekDate year week 1
    | true, '-' :: rest => (digits? 1 rest).bind fun (day, _) => weekDate year week day
    | true, _ => none
    | false, rest => (digits? 1 rest).bind fun (day, _) => weekDate year week day
  | _ =>
    let (month, rest) ← digits? 2 rest
    let rest ← match hyphens, rest with
      | true, '-' :: more => some more
      | true, _ => none
      | false, rest => some rest
    let (day, rest) ← digits? 2 rest
    if rest.isEmpty then some (.fields year month day) else none

/-- The parts of a moment's text: its date, its time of day and its offset. -/
def parts? (cs : List Char) : Option (DateReading × Clock × Option Int) := do
  let n := dateLength cs
  let date ← date? (cs.take n)
  match cs.drop n with
  | [] => some (date, ⟨0, 0, 0, 0⟩, none)
  | _ :: rest => (timeOfDay rest).map fun (time, offset) => (date, time, offset)

/-- Read a moment.  The offset is judged before the date and the time. -/
def moment? (s : String) : Except Fault Moment :=
  match parts? s.toList with
  | none => .error (.timeText (Text.quoted s))
  | some (date, time, offset) => do
    let offset ← match offset with
      | none => pure none
      | some o => (checkOffset o).map some
    match date with
    | .beforeFirstYear => .error (.field .month)
    | .fields year month day =>
      Moment.ofFields? year month day time.hour time.minute time.second time.micro offset

end Regen.Time.Iso
