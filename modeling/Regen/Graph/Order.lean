import Regen.Failure
import Regen.Graph.Basic

/-! # Generation order

    An order in which every source comes after the sources that it needs.  A depth-first walk
    lists a source when everything it needs is listed; a source that is met again while it is
    still open lies on a circle, and then there is no such order. -/

namespace Regen.Graph

/-- How far the walk has come with a source. -/
inductive Colour where
  | unseen
  /-- What it needs is being listed. -/
  | opened
  | listed
  deriving DecidableEq, Repr, Inhabited

/-- A walk under way. -/
structure Walk where
  colours : Array Colour
  /-- The open sources, the latest first, each with what is still to be looked at of its needs. -/
  frames : List (Nat × List Nat)
  /-- The listed sources, the latest first. -/
  order : List Nat
  deriving Repr

namespace Walk

/-- The walk before its first step. -/
def start (size : Nat) : Walk := ⟨Array.replicate size .unseen, [], []⟩

def colour (w : Walk) (i : Nat) : Colour := (w.colours[i]?).getD .listed

/-- Open a source. -/
def visit (g : Graph) (w : Walk) (i : Nat) : Walk :=
  { w with colours := w.colours.setIfInBounds i .opened, frames := (i, g.needsAt i) :: w.frames }

/-- List the latest open source `i`; `rest` are the other open ones. -/
def leave (w : Walk) (i : Nat) (rest : List (Nat × List Nat)) : Walk :=
  { colours := w.colours.setIfInBounds i .listed, frames := rest, order := i :: w.order }

end Walk

/-- Walk on until no source is open.  `fuel` bounds the steps; a source met while it is open is
    the error. -/
def walk (g : Graph) : Nat → Walk → Except Nat Walk
  | 0, w => .ok w
  | fuel + 1, w =>
    match w.frames with
    | [] => .ok w
    | (i, []) :: rest => walk g fuel (w.leave i rest)
    | (i, j :: pending) :: rest =>
      let w := { w with frames := (i, pending) :: rest }
      match w.colour j with
      | .opened => .error j
      | .listed => walk g fuel w
      | .unseen => walk g fuel (w.visit g j)

/-- Walk from each of the positions that no walk has met. -/
def walkAll (g : Graph) : List Nat → Walk → Except Nat Walk
  | [], w => .ok w
  | i :: rest, w =>
    match w.colour i with
    | .unseen =>
      match walk g (g.size + g.edgeCount + 1) (w.visit g i) with
      | .ok w => walkAll g rest w
      | .error j => .error j
    | _ => walkAll g rest w

/-- All known names, each after everything that it needs. -/
def generationOrder (g : Graph) : Except Failure (List String) :=
  match walkAll g (List.range g.size) (.start g.size) with
  | .ok w => .ok (w.order.reverse.map g.nameAt)
  | .error i => .error (.cycle (g.nameAt i))

/-- The wanted names in generation order; those that the graph does not know come last, in order
    of their names. -/
def orderSubset (g : Graph) (wanted : List String) : Except Failure (List String) := do
  let order ← g.generationOrder
  pure (order.filter wanted.contains ++
    Text.sortedDistinct (wanted.filter fun name => !g.contains name))

end Regen.Graph
