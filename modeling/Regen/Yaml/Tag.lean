import Regen.Yaml.Cursor

/-! # Tags

    A tag says what kind of value a node is.  A plain scalar without a tag gets one from its
    text: the forms of flags, numbers, times and nothing are recognised, and all else is text. -/

namespace Regen.Yaml

/-- The kind of a node. -/
inductive Tag where
  | null
  | bool
  | int
  | float
  | binary
  | timestamp
  | orderedMap
  | pairs
  | set
  | str
  | seq
  | map
  /-- The key `<<` that includes other mappings. -/
  | merge
  /-- The key `=` that stands for a mapping's default value. -/
  | default
  /-- A tag without a meaning here. -/
  | unknown
  deriving DecidableEq, Repr

namespace Tag

/-- The front part of the tags with a meaning. -/
def namespaceText : String := "tag:yaml.org,2002:"

/-- The names of the tags behind the common front part. -/
def names : List (String × Tag) :=
  [("null", null), ("bool", bool), ("int", int), ("float", float), ("binary", binary),
    ("timestamp", timestamp), ("omap", orderedMap), ("pairs", pairs), ("set", set), ("str", str),
    ("seq", seq), ("map", map), ("merge", merge), ("value", default)]

/-- The tag with a full name. -/
def ofText (text : String) : Tag :=
  match names.find? fun (n, _) => text == namespaceText ++ n with
  | some (_, t) => t
  | none => unknown

/-- The name of a tag behind the common front part. -/
def name (t : Tag) : String :=
  match names.find? fun (_, u) => u == t with
  | some (n, _) => n
  | none => ""

end Tag

/-! ## Forms of plain scalars -/

/-- Drop a sign in front. -/
def dropSign : List Char → List Char
  | '-' :: cs | '+' :: cs => cs
  | cs => cs

def isDigitOrUnderscore (c : Char) : Bool := c.isDigit || c == '_'

def isBoolForm (s : String) : Bool :=
  ["yes", "Yes", "YES", "no", "No", "NO", "true", "True", "TRUE", "false", "False", "FALSE",
    "on", "On", "ON", "off", "Off", "OFF"].contains s

def isNullForm (s : String) : Bool := ["", "~", "null", "Null", "NULL"].contains s

/-- Parts below sixty behind colons, at least one, and the text behind them. -/
def sixtieths : Nat → List Char → Nat × List Char
  | 0, cs => (0, cs)
  | fuel + 1, ':' :: a :: b :: rest =>
    if '0' ≤ a && a ≤ '5' && b.isDigit then
      let (n, rest) := sixtieths fuel rest
      (n + 1, rest)
    else if a.isDigit then
      let (n, rest) := sixtieths fuel (b :: rest)
      (n + 1, rest)
    else (0, ':' :: a :: b :: rest)
  | _, [':', a] => if a.isDigit then (1, []) else (0, [':', a])
  | _, cs => (0, cs)

/-- A number in parts of sixty and the text behind it. -/
def sexagesimalRest? (cs : List Char) : Option (List Char) :=
  let rest := cs.dropWhile isDigitOrUnderscore
  let (n, rest) := sixtieths cs.length rest
  if n = 0 then none else some rest

/-- An exponent with its sign, or nothing. -/
def isExponentForm : List Char → Bool
  | [] => true
  | e :: sign :: ds =>
    (e == 'e' || e == 'E') && (sign == '-' || sign == '+') && !ds.isEmpty && ds.all Char.isDigit
  | _ => false

/-- Digits, a point, digits and an exponent. -/
def isPointForm (cs : List Char) : Bool :=
  match cs.dropWhile isDigitOrUnderscore with
  | '.' :: rest => isExponentForm (rest.dropWhile isDigitOrUnderscore)
  | _ => false

def isFloatForm (cs : List Char) : Bool :=
  let body := dropSign cs
  match body with
  | '.' :: c :: rest =>
    if c.isDigit then cs.head? == some '.' && isExponentForm (rest.dropWhile isDigitOrUnderscore)
    else
      ["inf", "Inf", "INF"].contains (String.ofList (c :: rest)) ||
        (cs.head? == some '.' && ["nan", "NaN", "NAN"].contains (String.ofList (c :: rest)))
  | d :: _ =>
    d.isDigit && (isPointForm body ||
      (match sexagesimalRest? body with
        | some ('.' :: rest) => rest.all isDigitOrUnderscore
        | _ => false))
  | [] => false

def isIntForm (cs : List Char) : Bool :=
  match dropSign cs with
  | ['0'] => true
  | '0' :: 'b' :: ds => !ds.isEmpty && ds.all fun c => c == '0' || c == '1' || c == '_'
  | '0' :: 'x' :: ds => !ds.isEmpty && ds.all fun c => (hexDigitForm c) || c == '_'
  | '0' :: ds => ds.all fun c => ('0' ≤ c && c ≤ '7') || c == '_'
  | d :: ds =>
    d.isDigit && (ds.all isDigitOrUnderscore ||
      (match sexagesimalRest? (d :: ds) with
        | some rest => rest.isEmpty
        | none => false))
  | [] => false
where
  hexDigitForm (c : Char) : Bool :=
    c.isDigit || ('a' ≤ c && c ≤ 'f') || ('A' ≤ c && c ≤ 'F')

/-- The fields of a time: year, month and day, then the time of day with its fraction and offset
    as they are written. -/
structure TimeForm where
  year : List Char
  month : List Char
  day : List Char
  clock : Option (List Char × List Char × List Char)
  fraction : List Char
  /-- The offset: none, universal time, or a sign with hours and minutes. -/
  zone : Option (Option (Char × List Char × List Char))
  deriving Repr

/-- Exactly `n` digits in front. -/
def takeDigits? (n : Nat) (cs : List Char) : Option (List Char × List Char) :=
  let ds := cs.take n
  if ds.length = n && ds.all Char.isDigit then some (ds, cs.drop n) else none

/-- One or two digits in front; two if there are two. -/
def takeField? (cs : List Char) : Option (List Char × List Char) :=
  (takeDigits? 2 cs).or (takeDigits? 1 cs)

def expect? (c : Char) : List Char → Option (List Char)
  | d :: rest => if c == d then some rest else none
  | [] => none

/-- The offset behind a time of day. -/
def zone? (cs : List Char) : Option (Option (Option (Char × List Char × List Char))) :=
  match cs with
  | [] => some none
  | _ =>
    match cs.dropWhile isSpaceOrTab with
    | ['Z'] => some (some none)
    | sign :: rest =>
      if sign == '-' || sign == '+' then do
        let (hour, rest) ← takeField? rest
        match rest with
        | [] => some (some (some (sign, hour, [])))
        | ':' :: rest =>
          let (minute, rest) ← takeDigits? 2 rest
          if rest.isEmpty then some (some (some (sign, hour, minute))) else none
        | _ => none
      else none
    | [] => none

/-- The time of day behind a date, from its separator on. -/
def clock? (form : TimeForm) (cs : List Char) : Option TimeForm := do
  let rest ← match cs with
    | 'T' :: rest | 't' :: rest => some rest
    | c :: _ => if isSpaceOrTab c then some (cs.dropWhile isSpaceOrTab) else none
    | [] => none
  let (hour, rest) ← takeField? rest
  let (minute, rest) ← (expect? ':' rest).bind (takeDigits? 2)
  let (second, rest) ← (expect? ':' rest).bind (takeDigits? 2)
  let (fraction, rest) := match rest with
    | '.' :: more => (more.takeWhile Char.isDigit, more.dropWhile Char.isDigit)
    | _ => ([], rest)
  let zone ← zone? rest
  some { form with clock := some (hour, minute, second), fraction, zone }

/-- The fields of a time, if the text has the form of one. -/
def timeForm? (cs : List Char) : Option TimeForm := do
  let (year, rest) ← takeDigits? 4 cs
  let (month, rest) ← (expect? '-' rest).bind takeField?
  let (day, rest) ← (expect? '-' rest).bind takeField?
  let form : TimeForm := ⟨year, month, day, none, [], none⟩
  if rest.isEmpty then some form else clock? form rest

/-- A date alone needs two digits for month and day to be recognised without a tag. -/
def isTimeForm (cs : List Char) : Bool :=
  match timeForm? cs with
  | some form => form.clock.isSome || (form.month.length = 2 && form.day.length = 2)
  | none => false

/-- The tag that a plain scalar's text gives it. -/
def Tag.ofPlain (text : String) : Tag :=
  let cs := text.toList
  -- a final line feed does not count
  let cs := if cs.getLast? == some '\n' then cs.dropLast else cs
  let s := String.ofList cs
  if isBoolForm s then .bool
  else if isFloatForm cs then .float
  else if isIntForm cs then .int
  else if s == "<<" then .merge
  else if isNullForm s && (text.isEmpty || !s.isEmpty) then .null
  else if isTimeForm cs then .timestamp
  else if s == "=" then .default
  else .str

end Regen.Yaml
