import Regen.Text.Lines

/-! # Paths

    A path is a root and named parts.  Reading a path drops empty and single-dot parts; two dots
    are kept, since what they mean depends on links. -/

namespace Regen

/-- A path: how many slashes start it (none, one, or exactly two) and its parts. -/
structure Path where
  slashes : Nat
  parts : List String
  deriving DecidableEq, Repr, Inhabited

namespace Path

/-- Where a path without parts leads: here. -/
def here : Path := ⟨0, []⟩

/-- The parts of a text between slashes that name something. -/
def namedParts (cs : List Char) : List String :=
  ((Text.splitAt (· == '/') cs).map String.ofList).filter fun s => s != "" && s != "."

/-- Read a path.  More than two leading slashes count as one. -/
def ofText (s : String) : Path :=
  let cs := s.toList
  let n := (cs.takeWhile (· == '/')).length
  ⟨if n = 2 then 2 else min n 1, namedParts cs⟩

def isAbsolute (p : Path) : Bool := p.slashes != 0

/-- The text of a path. -/
def text (p : Path) : String :=
  let body := String.intercalate "/" p.parts
  if p.slashes = 0 && p.parts.isEmpty then "."
  else String.ofList (List.replicate p.slashes '/') ++ body

/-- The path that `q` names as seen from `p`. -/
def join (p q : Path) : Path :=
  if q.isAbsolute then q else ⟨p.slashes, p.parts ++ q.parts⟩

instance : Div Path := ⟨join⟩

/-- The path without its last part. -/
def parent (p : Path) : Path := { p with parts := p.parts.dropLast }

/-- The last part, empty if there is none. -/
def name (p : Path) : String := p.parts.getLast?.getD ""

/-- What stands behind the last dot of a name that has characters on both sides of it. -/
def extension? (p : Path) : Option String :=
  let cs := p.name.toList
  let tail := (cs.reverse.takeWhile (· != '.')).reverse
  if tail.isEmpty || tail.length = cs.length || tail.length + 1 = cs.length then none
  else some (String.ofList tail)

@[simp] theorem join_here (p : Path) : p.join here = p := by simp [join, here, isAbsolute]

/-- An absolute path is the same from everywhere. -/
theorem join_of_isAbsolute {p q : Path} (h : q.isAbsolute) : p.join q = q := by
  simp [join, h]

end Path

/-- Order of lists of names: name by name, in code point order, shorter lists first. -/
def namesBefore : List String → List String → Bool
  | [], _ => true
  | _ :: _, [] => false
  | a :: as, b :: bs => if a < b then true else if b < a then false else namesBefore as bs

end Regen
