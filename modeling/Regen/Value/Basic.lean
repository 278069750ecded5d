import Regen.Number.Binary64
import Regen.Time.Moment

/-! # Values

    The values of documents: scalars, and collections of values.  Mappings keep their entries in
    order.  A value that a document reaches by two paths carries a label, so that it can be
    written once and referred to again; the label is no part of the value's content. -/

namespace Regen

open Number Time

/-- The label of a value that may be reached by more than one path; none for a value that is
    reached by one. -/
abbrev Label := Option Nat

/-- A value of a document. -/
inductive Value where
  | null
  | bool (b : Bool)
  | int (n : Int)
  | real (x : Binary64)
  | text (s : String)
  | bytes (bs : List UInt8)
  | date (d : Date) (label : Label)
  | time (t : Moment) (label : Label)
  | list (xs : List Value) (label : Label)
  /-- A list that is a pair's fixed sequence and never changes. -/
  | tuple (xs : List Value)
  | set (xs : List Value) (label : Label)
  | map (entries : List (Value × Value)) (label : Label)
  deriving Repr, Inhabited

/-- The entries of a mapping in order. -/
abbrev Entries := List (Value × Value)

namespace Value

/-- The name of a value's shape in messages. -/
def shape : Value → String
  | null => "NoneType"
  | bool _ => "bool"
  | int _ => "int"
  | real _ => "float"
  | text _ => "str"
  | bytes _ => "bytes"
  | date .. => "datetime.date"
  | time .. => "datetime.datetime"
  | list .. => "list"
  | tuple .. => "tuple"
  | set .. => "set"
  | map .. => "dict"

/-- Is the value something: not null, false, zero or empty? -/
def isTruthy : Value → Bool
  | null => false
  | bool b => b
  | int n => n != 0
  | real x => !x.isZero
  | text s => !s.isEmpty
  | bytes bs => !bs.isEmpty
  | date .. | time .. => true
  | list xs _ | tuple xs | set xs _ => !xs.isEmpty
  | map es _ => !es.isEmpty

/-- The number that a flag, an integer or a real stands for, if it is an integer. -/
def asInt? : Value → Option Int
  | bool b => some (if b then 1 else 0)
  | int n => some n
  | _ => none

/-- Equality of scalars.  Flags count as the integers 0 and 1, integers and reals are compared by
    value, moments with offsets as instants. -/
def sameScalar : Value → Value → Bool
  | null, null => true
  | text s, text t => s == t
  | bytes a, bytes b => a == b
  | date d _, date e _ => d == e
  | time t _, time u _ => t.equals u
  | real (.nan a), real (.nan b) => a && b
  | real x, real y => x.equals y
  | real x, v => match v.asInt? with
    | some n => x.equalsInt n
    | none => false
  | v, real x => match v.asInt? with
    | some n => x.equalsInt n
    | none => false
  | v, w => match v.asInt?, w.asInt? with
    | some m, some n => m == n
    | _, _ => false

mutual

/-- Are two values equal in content?  Mappings and sets are compared without their order. -/
def same : Value → Value → Bool
  | list xs _, list ys _ => sameLists xs ys
  | tuple xs, tuple ys => sameLists xs ys
  | set xs _, set ys _ => xs.length == ys.length && allWithin xs ys
  | map es _, map fs _ => es.length == fs.length && entriesWithin es fs
  | v, w => sameScalar v w

def sameLists : List Value → List Value → Bool
  | [], [] => true
  | x :: xs, y :: ys => same x y && sameLists xs ys
  | _, _ => false

/-- Is every value among the others? -/
def allWithin : List Value → List Value → Bool
  | [], _ => true
  | x :: xs, ys => ys.any (fun y => same x y) && allWithin xs ys

/-- Has every entry an equal one among the others? -/
def entriesWithin : List (Value × Value) → List (Value × Value) → Bool
  | [], _ => true
  | (k, v) :: es, fs =>
    (match fs.find? (fun f => same k f.1) with
      | some f => same v f.2
      | none => false) && entriesWithin es fs

end

/-- Can the value be a key?  Collections that can change cannot. -/
def isHashable : Value → Bool
  | list .. | set .. | map .. => false
  | _ => true

/-- The first value inside tuples that cannot be a key, as its shape. -/
def unhashableShape? : Value → Option String
  | tuple xs => unhashableIn xs
  | v => if v.isHashable then none else some v.shape
where
  unhashableIn : List Value → Option String
    | [] => none
    | x :: xs => (unhashableShape? x).or (unhashableIn xs)

/-- A mapping with the given entries that is reached by one path. -/
def ofEntries (es : Entries) : Value := map es none

/-- A list with the given elements that is reached by one path. -/
def ofList (xs : List Value) : Value := list xs none

end Value

namespace Entries

/-- The value of a key. -/
def find? (es : Entries) (key : Value) : Option Value :=
  (List.find? (fun e => key.same e.1) es).map (·.2)

/-- The value of a text key. -/
def get? (es : Entries) (key : String) : Option Value :=
  es.find? (.text key)

/-- Give a key a value.  A known key keeps its place and its spelling; a new one comes last. -/
def insert (es : Entries) (key value : Value) : Entries :=
  match es with
  | [] => [(key, value)]
  | (k, v) :: rest => if key.same k then (k, value) :: rest else (k, v) :: insert rest key value

/-- Insert entries one after the other. -/
def insertAll (es : Entries) (more : List (Value × Value)) : Entries :=
  more.foldl (fun acc e => acc.insert e.1 e.2) es

@[simp] theorem find?_nil (key : Value) : find? [] key = none := rfl

/-- A key that is equal to itself is found with the value it was given last. -/
theorem find?_insert_self {es : Entries} {key value : Value} (h : key.same key = true) :
    (es.insert key value).find? key = some value := by
  induction es with
  | nil => simp [insert, find?, h]
  | cons e rest ih =>
    obtain ⟨k, v⟩ := e
    simp only [insert]
    split
    · rename_i hk
      simp [find?, hk]
    · rename_i hk
      simp only [find?, List.find?_cons, hk] at ih ⊢
      simpa using ih

end Entries

end Regen
