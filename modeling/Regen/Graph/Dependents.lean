import Regen.Graph.Basic

/-! # Transitive dependents

    The sources that need a changed source, directly or through others.  A walk visits every
    position once, so circles end it; a changed source is in the answer only if it needs a
    changed source itself. -/

namespace Regen.Graph

/-- The positions met on a walk. -/
structure Reach where
  /-- The positions that the walk has left already. -/
  visited : Array Bool
  /-- For each position, whether something visited is needed by it. -/
  found : Array Bool

namespace Reach

/-- The walk before its first step. -/
def start (size : Nat) : Reach := ⟨Array.replicate size false, Array.replicate size false⟩

/-- Has the walk left a position?  Positions that do not exist need no visit. -/
def isVisited (r : Reach) (i : Nat) : Bool := (r.visited[i]?).getD true

def isFound (r : Reach) (i : Nat) : Bool := (r.found[i]?).getD false

/-- Visit a position: what needs it is found. -/
def visit (g : Graph) (r : Reach) (i : Nat) : Reach :=
  { visited := r.visited.setIfInBounds i true
    found := (g.usersAt i).foldl (fun found j => found.setIfInBounds j true) r.found }

end Reach

/-- Walk on from the positions on a stack.  `fuel` bounds the positions taken from it. -/
def spread (g : Graph) : Nat → List Nat → Reach → Reach
  | 0, _, r => r
  | _, [], r => r
  | fuel + 1, i :: rest, r =>
    if r.isVisited i then spread g fuel rest r
    else
      let next := r.visit g i
      spread g fuel (((g.usersAt i).filter fun j => !next.isVisited j).reverse ++ rest) next

/-- Walk on from a name; one that is not known leads nowhere. -/
def spreadFrom (g : Graph) (r : Reach) (name : String) : Reach :=
  match g.position? name with
  | some i => spread g (g.edgeCount + 1) [i] r
  | none => r

/-- The sources that need one of the changed sources, directly or through others, in order. -/
def transitiveDependents (g : Graph) (changed : List String) : List String :=
  let reach := changed.foldl (spreadFrom g) (.start g.size)
  ((List.range g.size).filter reach.isFound).map g.nameAt

end Regen.Graph
