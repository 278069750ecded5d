import Regen.Ledger

/-! # Dependency graphs

    A graph of named sources.  An edge leads from a source to one that it needs: the first is to
    be generated again whenever the second changes.  The names are kept in order and each stands
    at its position; edges are kept as positions, in both directions, so that every question has
    one answer however the graph was given. -/

namespace Regen

/-- A graph of named sources. -/
structure Graph where
  /-- The known names, in order and distinct. -/
  ids : List String
  /-- For each position, the positions that it needs, in the order in which they were given; a
      repeated need counts once. -/
  needs : Array (List Nat)
  /-- For each position, the positions that need it, in the order in which they were noted. -/
  users : Array (List Nat)
  deriving Repr

namespace Graph

/-- The position of a name. -/
def position? (g : Graph) (name : String) : Option Nat := g.ids.idxOf? name

/-- The names that dependencies mention. -/
def mentioned (dependencies : Ledger (List String)) : List String :=
  dependencies.flatMap fun e => e.1 :: e.2

/-- The name at a position. -/
def nameAt (g : Graph) (i : Nat) : String := (g.ids[i]?).getD ""

/-- The positions that a position needs. -/
def needsAt (g : Graph) (i : Nat) : List Nat := (g.needs[i]?).getD []

/-- The positions that need a position. -/
def usersAt (g : Graph) (i : Nat) : List Nat := (g.users[i]?).getD []

/-! ## Building a graph -/

/-- A graph without edges. -/
def bare (ids : List String) : Graph :=
  ⟨ids, Array.replicate ids.length [], Array.replicate ids.length []⟩

/-- Note in both directions that a position needs another one, unless that is noted. -/
def addEdge (g : Graph) (i j : Nat) : Graph :=
  if (g.needsAt i).contains j then g
  else { g with needs := g.needs.modify i (· ++ [j]), users := g.users.modify j (· ++ [i]) }

/-- Note what a name needs, in the given order. -/
def addNeeds (g : Graph) (name : String) (wanted : List String) : Graph :=
  match g.position? name with
  | some i => (wanted.filterMap g.position?).foldl (fun g j => g.addEdge i j) g
  | none => g

/-- The graph of dependencies, with further names that may have none. -/
def ofDependencies (dependencies : Ledger (List String)) (more : List String) : Graph :=
  (Text.sortedDistinct dependencies.names).foldl
    (fun g name => g.addNeeds name ((dependencies.find? name).getD []))
    (bare (Text.sortedDistinct (more ++ mentioned dependencies)))

/-! ## Questions -/

/-- How many names are known. -/
def size (g : Graph) : Nat := g.ids.length

def contains (g : Graph) (name : String) : Bool := (g.position? name).isSome

/-- What a source needs directly, in the given order. -/
def dependenciesOf (g : Graph) (name : String) : List String :=
  match g.position? name with
  | some i => (g.needsAt i).map g.nameAt
  | none => []

/-- The sources that need a source directly, in order. -/
def dependentsOf (g : Graph) (name : String) : List String :=
  match g.position? name with
  | some i => (g.usersAt i).map g.nameAt
  | none => []

/-- How many edges the graph has. -/
def edgeCount (g : Graph) : Nat := (g.needs.toList.map List.length).foldr (· + ·) 0

end Graph

end Regen
