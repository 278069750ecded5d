import Regen.Number.Read
import Regen.Time.Iso
import Regen.Value.Shown

/-! # Conversions of values

    What a value gives when a number, a moment, its elements or an entry is asked of it.  Every
    conversion either succeeds or says what is wrong with the value. -/

namespace Regen.Value

open Number Time

/-- The integer that a value stands for.  Reals lose their fraction, texts and bytes are read. -/
def toInt : Value → Except Fault Int
  | bool b => .ok (if b then 1 else 0)
  | int n => .ok n
  | real x => x.truncate
  | text s => readInt 10 s
  | bytes bs =>
    match readInt 10 (String.ofList (bs.map fun b => Char.ofNat b.toNat)) with
    | .ok n => if bs.all (·.toNat < 0x80) then .ok n else .error (.intText 10 (Text.quotedBytes bs))
    | .error _ => .error (.intText 10 (Text.quotedBytes bs))
  | v => .error (.intShape v.shape)

/-- The real number that a value stands for.  Integers are rounded, texts and bytes are read. -/
def toReal : Value → Except Fault Binary64
  | bool b => .ok (if b then .ofRatio false 1 1 else .zero)
  | int n => Binary64.ofInt? n
  | real x => .ok x
  | text s => readReal s
  | bytes bs =>
    match real? (bs.map fun b => Char.ofNat b.toNat) with
    | some x => if bs.all (·.toNat < 0x80) then .ok x else .error (.realText (Text.quotedBytes bs))
    | none => .error (.realText (Text.quotedBytes bs))
  | v => .error (.realShape v.shape)

/-- A final `Z` of either case stands for an offset of zero. -/
def spellZulu (cs : List Char) : List Char :=
  match cs.reverse with
  | 'Z' :: rest | 'z' :: rest => rest.reverse ++ "+00:00".toList
  | _ => cs

/-- The moment that a value stands for.  What is no moment is read from its text; a moment
    without an offset is taken as universal time. -/
def toMoment : Value → Except Fault Moment
  | time t _ => .ok t.assumeUtc
  | v => do
    let text ← v.toText
    (Iso.moment? (String.ofList (spellZulu text.toList))).map Moment.assumeUtc

/-- The elements of a value: of a collection, the keys of a mapping, the characters of a text or
    the numbers of bytes. -/
def elements? : Value → Option (List Value)
  | list xs _ | tuple xs | set xs _ => some xs
  | map es _ => some (es.map (·.1))
  | text s => some (s.toList.map fun c => text (String.singleton c))
  | bytes bs => some (bs.map fun b => int b.toNat)
  | _ => none

def elements (v : Value) : Except Fault (List Value) :=
  match v.elements? with
  | some xs => .ok xs
  | none => .error (.notIterable v.shape)

/-- The value under a text key if the value is a mapping and has it. -/
def member? (v : Value) (key : String) : Except Fault (Option Value) :=
  match v with
  | map es _ => .ok (Entries.get? es key)
  | v => .error (.noAttribute v.shape "get")

/-- The value under a text key of a mapping that must have it. -/
def member (v : Value) (key : String) : Except Fault Value :=
  match v with
  | map es _ =>
    match Entries.get? es key with
    | some w => .ok w
    | none => .error (.missingKey key)
  | text _ => .error (.textIndex "string")
  | bytes _ => .error (.textIndex "byte")
  | list .. => .error (.textIndex "list")
  | tuple .. => .error (.textIndex "tuple")
  | v => .error (.notSubscriptable v.shape)

/-- The entries of a mapping. -/
def items (v : Value) : Except Fault Entries :=
  match v with
  | map es _ => .ok es
  | v => .error (.noAttribute v.shape "items")

/-- One entry from an element that must be a pair. -/
def pairOf (place : Nat) (v : Value) : Except Fault (Value × Value) :=
  match v.elements? with
  | some [k, w] =>
    match k.unhashableShape? with
    | none => .ok (k, w)
    | some shape => .error (.unhashable shape)
  | some xs => .error (.pairLength place xs.length)
  | none => .error (.pairShape place)

/-- Entries from elements that must be pairs, inserted one after the other. -/
def insertPairs (es : Entries) (place : Nat) : List Value → Except Fault Entries
  | [] => .ok es
  | v :: rest => do
    let (k, w) ← pairOf place v
    insertPairs (es.insert k w) (place + 1) rest

/-- The entries of a fresh mapping made of a mapping or of pairs. -/
def toEntries (v : Value) : Except Fault Entries :=
  match v with
  | map es _ => .ok es
  | v => do insertPairs [] 0 (← v.elements)

/-- The value itself if it is something, and otherwise the default. -/
def orElse (v : Option Value) (default : Value) : Value :=
  match v with
  | some w => if w.isTruthy then w else default
  | none => default

end Regen.Value
