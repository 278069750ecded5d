import Regen.Number.Decimal
import Regen.Text.Base64
import Regen.Value.Convert
import Regen.Yaml.Pen

/-! # From values to text

    Collections are written as blocks, two columns deeper on each level, with the items of a list
    directly under their key; empty ones are a pair of brackets.  A labelled value that is
    reached twice gets an anchor where it is reached first and is only named afterwards. -/

namespace Regen.Yaml

open Number Time

/-! ## Scalars -/

/-- The text of a real number: a point is put in where only the exponent shows that the number
    is no integer. -/
def realText : Binary64 → List Char
  | .nan _ => ".nan".toList
  | .infinite s => (if s then "-.inf" else ".inf").toList
  | x =>
    let cs := x.text.toList
    if !cs.contains '.' && cs.contains 'e' then
      cs.takeWhile (· != 'e') ++ ".0".toList ++ cs.dropWhile (· != 'e')
    else cs

/-- A value without parts as a scalar. -/
def Scalar.ofValue? : Value → Option Scalar
  | .null => some ⟨.null, "null".toList, false⟩
  | .bool b => some ⟨.bool, (if b then "true" else "false").toList, false⟩
  | .int n => some ⟨.int, (toString n).toList, false⟩
  | .real x => some ⟨.float, realText x, false⟩
  | .text s => some ⟨.str, s.toList, false⟩
  | .bytes bs => some ⟨.binary, Text.Base64.encodeLines bs, true⟩
  | .date d _ => some ⟨.timestamp, d.text.toList, false⟩
  | .time t _ => some ⟨.timestamp, (t.text " ").toList, false⟩
  | _ => none

/-! ## Anchors -/

/-- The label under which a value may be named again. -/
def anchorLabel : Value → Label
  | .date _ l | .time _ l | .list _ l | .set _ l | .map _ l => l
  | _ => none

/-- The labels met so far, and those met again in the order of their second meeting. -/
structure Meetings where
  seen : List Nat
  again : List Nat

/-- Meet a value; the result says whether its parts are still to be met. -/
def Meetings.note (m : Meetings) (v : Value) : Meetings × Bool :=
  match anchorLabel v with
  | some l =>
    if m.seen.contains l then
      (if m.again.contains l then m else { m with again := m.again ++ [l] }, false)
    else ({ m with seen := l :: m.seen }, true)
  | none => (m, true)

mutual

/-- Walk through a value and note its labels; what was met before is not entered again. -/
def meet (m : Meetings) (v : Value) : Meetings :=
  let (m, isNew) := m.note v
  if isNew then
    match v with
    | .list xs _ | .tuple xs | .set xs _ => meetAll m xs
    | .map es _ => meetEntries m es
    | _ => m
  else m

def meetAll (m : Meetings) : List Value → Meetings
  | [] => m
  | x :: xs => meetAll (meet m x) xs

def meetEntries (m : Meetings) : List (Value × Value) → Meetings
  | [] => m
  | (k, v) :: es => meetEntries (meet (meet m k) v) es

end

/-- The name of an anchor: its number in at least three digits. -/
def anchorText (n : Nat) : List Char := ("id" ++ Time.pad 3 n).toList

/-! ## Layout -/

/-- Where a value stands. -/
inductive Position where
  | item
  /-- A mapping's key; `short` if it stands on one line with its value. -/
  | key (short : Bool)
  | value
  deriving DecidableEq, Repr

/-- What the pen has written, and the labels that it has anchored. -/
structure Writer where
  pen : Pen
  anchored : List Nat
  /-- The labels that get an anchor, in the order of their numbers. -/
  shared : List Nat

namespace Writer

def onPen (w : Writer) (f : Pen → Pen) : Writer := { w with pen := f w.pen }

/-- The number of a label's anchor, if it gets one. -/
def anchorNumber? (w : Writer) (l : Label) : Option (Nat × Nat) :=
  l.bind fun l => (w.shared.findIdx? (· == l)).map fun i => (l, i + 1)

def putTag (w : Writer) (t : Tag) : Writer :=
  w.onPen (·.indicator ("!!" ++ t.name).toList true false)

/-- Write a scalar in its spelling. -/
def scalar (w : Writer) (indent : Nat) (pos : Position) (s : Scalar) : Writer :=
  let isKey := pos == .key true
  let spelling := s.spelling isKey
  let w := if s.needsTag spelling then w.putTag s.tag else w
  w.onPen fun p => match spelling with
    | .plain => p.plain (indent + 2) (!isKey) s.text
    | .singleQuoted => p.singleQuoted (indent + 2) (!isKey) s.text
    | .doubleQuoted => p.doubleQuoted (indent + 2) (!isKey) s.text
    | .block => p.block (indent + 2) s.text

/-- The tag that the length of a key is counted with. -/
def keyTag : Value → Tag
  | .list .. | .tuple .. => .seq
  | .map .. => .map
  | .set .. => .set
  | v => ((Scalar.ofValue? v).map (·.tag)).getD .str

/-- Does a key fit on one line with its value?  With its tag and anchor it has fewer than 128
    characters, it is not empty and has no line end. -/
def isShortKey (w : Writer) (k : Value) : Bool :=
  match w.anchorNumber? (anchorLabel k) with
  | some (l, n) =>
    w.anchored.contains l || fits k ((anchorText n).length)
  | none => fits k 0
where
  fits (k : Value) (anchorLength : Nat) : Bool :=
    let tagLength := 2 + (keyTag k).name.length
    match Scalar.ofValue? k with
    | some s =>
      anchorLength + tagLength + s.text.length < 128 && !s.text.isEmpty && !s.text.any isBreak
    | none => (k.elements?).all List.isEmpty

/-- Write the anchor of a value that has one, or the name of an anchor that is already written.
    The result says whether the value's content is still to be written. -/
def announce (w : Writer) (v : Value) : Writer × Bool :=
  match w.anchorNumber? (anchorLabel v) with
  | some (l, n) =>
    if w.anchored.contains l then (w.onPen (·.indicator ('*' :: anchorText n) true false), false)
    else
      ({ w with
          pen := w.pen.indicator ('&' :: anchorText n) true false
          anchored := l :: w.anchored }, true)
  | none => (w, true)

mutual

/-- Write a value. -/
def value (w : Writer) (indent : Nat) (pos : Position) (v : Value) : Writer :=
  let (w, isNew) := w.announce v
  if isNew then
    match v with
    | .list [] _ | .tuple [] => w.onPen (·.indicator ['[', ']'] true false)
    | .list xs _ | .tuple xs =>
      let inner := if pos != .item && !w.pen.inIndent then indent else indent + 2
      items w inner xs
    | .set [] _ => (w.putTag .set).onPen (·.indicator ['\x7b', '\x7d'] true false)
    | .set xs _ => keysOnly (w.putTag .set) (indent + 2) xs
    | .map [] _ => w.onPen (·.indicator ['\x7b', '\x7d'] true false)
    | .map es _ => entries w (indent + 2) es
    | v =>
      match Scalar.ofValue? v with
      | some s => w.scalar indent pos s
      | none => w
  else w

/-- Write the items of a list. -/
def items (w : Writer) (indent : Nat) : List Value → Writer
  | [] => w
  | x :: xs =>
    let w := w.onPen fun p => (p.indentTo indent).indicator ['-'] true true
    items (value w indent .item x) indent xs

/-- Write the entries of a mapping. -/
def entries (w : Writer) (indent : Nat) : List (Value × Value) → Writer
  | [] => w
  | (k, v) :: es =>
    let w := w.onPen (·.indentTo indent)
    let w :=
      if w.isShortKey k then
        (value w indent (.key true) k).onPen (·.indicator [':'] false false)
      else
        let w := value (w.onPen (·.indicator ['?'] true true)) indent (.key false) k
        w.onPen fun p => (p.indentTo indent).indicator [':'] true true
    entries (value w indent .value v) indent es

/-- Write the elements of a set, each as a key without a value. -/
def keysOnly (w : Writer) (indent : Nat) : List Value → Writer
  | [] => w
  | k :: ks =>
    let w := w.onPen (·.indentTo indent)
    let w :=
      if w.isShortKey k then
        (value w indent (.key true) k).onPen (·.indicator [':'] false false)
      else
        let w := value (w.onPen (·.indicator ['?'] true true)) indent (.key false) k
        w.onPen fun p => (p.indentTo indent).indicator [':'] true true
    keysOnly (w.scalar indent .value ⟨.null, "null".toList, false⟩) indent ks

end

end Writer

/-- The text of a document whose root is a mapping with entries. -/
def write (es : Entries) : List Char :=
  let m := meetEntries ⟨[], []⟩ es
  let w : Writer := ⟨.start, [], m.again⟩
  ((w.entries 0 es).pen.indentTo 0).text

end Regen.Yaml
