import Regen.Sort
import Regen.Text.Surrogate

/-! # Order of texts

    Texts are ordered by the code points that their characters stand for, from the first that
    differs; a text comes before those that continue it. -/

namespace Regen.Text

/-- The code points that the characters of a text stand for. -/
def codes (s : String) : List Nat := s.toList.map codeOf

/-- Does a text come before another one or equal it? -/
def atMost (s t : String) : Bool := !decide (codes t < codes s)

/-- Keep the first of equal neighbours. -/
def dropRepeats : List String → List String
  | [] => []
  | [s] => [s]
  | s :: t :: rest => if s == t then dropRepeats (t :: rest) else s :: dropRepeats (t :: rest)

/-- The texts in order. -/
def sorted (names : List String) : List String := sortBy atMost names

/-- The distinct texts in order. -/
def sortedDistinct (names : List String) : List String := dropRepeats (sorted names)

/-- Dropping repeats loses no text. -/
@[simp] theorem mem_dropRepeats {x : String} {names : List String} :
    x ∈ dropRepeats names ↔ x ∈ names := by
  fun_induction dropRepeats names with
  | case1 => simp
  | case2 => simp
  | case3 s t rest h ih =>
    have hst : s = t := by simpa using h
    subst hst
    simp [ih]
  | case4 s t rest h ih => simp [ih]

@[simp] theorem mem_sorted {x : String} {names : List String} : x ∈ sorted names ↔ x ∈ names := by
  simp [sorted]

@[simp] theorem mem_sortedDistinct {x : String} {names : List String} :
    x ∈ sortedDistinct names ↔ x ∈ names := by
  simp [sortedDistinct]

end Regen.Text
