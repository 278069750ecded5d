import Regen.Yaml.Lexer
import Regen.Yaml.Node
import Regen.Yaml.ScalarValue

/-! # From nodes to values

    A node's tag says which value it is.  A document's values are built in rounds.  When a node is
    met for the first time, a scalar gets its value, and a collection is put off to the next round,
    in which its parts are met.  So of several faults the one nearest to the root is reported, and
    the first on its level.  A mapping takes in the mappings that it includes when its parts are
    met, and whoever refers to the mapping later finds these entries in it. -/

namespace Regen.Yaml

/-- What became of a node that was met. -/
inductive Met where
  | scalar (v : Value)
  | collection
  deriving Repr

/-- The state of building a document's values. -/
structure Builder where
  /-- The nodes met so far, by number. -/
  met : Array (Option Met)
  /-- The collections whose parts are met in the next round, the latest first. -/
  waiting : List Node
  /-- The entries of mappings that took in others, by number, the latest first. -/
  spread : List (Nat × List (Node × Node))
  /-- The keys that stood for a default value and have become texts, by number. -/
  plainKeys : List Nat

/-- A step that builds values. -/
abbrev Build := StateT Builder (Except ReadError)

namespace Builder

def start (size : Nat) : Builder := ⟨Array.replicate size none, [], [], []⟩

/-- The present tag of a node. -/
def tagOf (b : Builder) (n : Node) : Tag :=
  if b.plainKeys.contains n.id then .str else n.tag

/-- The present entries of a mapping with a number. -/
def entriesOf (b : Builder) (id : Nat) (es : List (Node × Node)) : List (Node × Node) :=
  match b.spread.find? (·.1 == id) with
  | some (_, es) => es
  | none => es

/-- The text that stands for a node with a scalar's tag: its own, or the default entry of a
    mapping. -/
def scalarText (b : Builder) : Nat → Node → Except ReadError String
  | 0, _ => .error .malformed
  | _, .scalar _ _ s => .ok s
  | fuel + 1, .mapping id _ es =>
    match (b.entriesOf id es).find? fun e => b.tagOf e.1 == .default with
    | some e => scalarText b fuel e.2
    | none => .error .malformed
  | _, .sequence .. => .error .malformed

/-- The value of a node with a scalar's tag.  A time is read from the node itself. -/
def scalar (b : Builder) (n : Node) : Except ReadError Value := do
  let text ← b.scalarText b.met.size n
  match b.tagOf n, n with
  | .timestamp, .mapping .. => .error (.fault (.notText "list"))
  | tag, _ => scalarValue n.id tag text

end Builder

namespace Build

def malformed {α : Type} : Build α := fun _ => .error .malformed

/-- Meet a node. -/
def meet (n : Node) : Build Met := do
  let b ← get
  match b.met.getD n.id none with
  | some m => pure m
  | none =>
    match b.tagOf n with
    | .unknown | .merge | .default => malformed
    | tag =>
      if tag.isScalar then do
        let m := Met.scalar (← b.scalar n)
        set { b with met := b.met.setIfInBounds n.id (some m) }
        pure m
      else do
        set { b with
          met := b.met.setIfInBounds n.id (some .collection), waiting := n :: b.waiting }
        pure .collection

/-- Meet a key; a collection is no key. -/
def meetKey (k : Node) : Build Unit := do
  match ← meet k with
  | .scalar _ => pure ()
  | .collection => malformed

/-- Let a mapping take in the mappings that it includes, in front of its own entries.  Of several
    included mappings the last comes first. -/
def spread : Nat → Node → Build (List (Node × Node))
  | fuel + 1, .mapping id _ es => do
    let es := (← get).entriesOf id es
    let (taken, own) ← es.foldlM (fun (taken, own) (k, v) => do
      match (← get).tagOf k with
      | .merge =>
        match v with
        | .mapping .. => do pure (taken ++ (← spread fuel v), own)
        | .sequence _ _ items => do
          pure (taken ++ (← items.mapM (spread fuel)).reverse.flatten, own)
        | .scalar .. => malformed
      | .default =>
        modify fun b => { b with plainKeys := k.id :: b.plainKeys }
        pure (taken, (k, v) :: own)
      | _ => pure (taken, (k, v) :: own)) ([], [])
    if own.length < es.length then
      let es := taken ++ own.reverse
      modify fun b => { b with spread := (id, es) :: b.spread }
      pure es
    else pure es
  | _, _ => malformed

/-- Meet the parts of a pair, which is written as a mapping of one entry. -/
def meetPair : Node → Build Unit
  | .mapping id _ es => do
    match (← get).entriesOf id es with
    | [(k, v)] =>
      let _ ← meet k
      let _ ← meet v
    | _ => malformed
  | _ => malformed

/-- Meet the parts of a collection. -/
def meetParts (n : Node) : Build Unit := do
  let b ← get
  match b.tagOf n, n with
  | .seq, .sequence _ _ items => items.forM fun item => do let _ ← meet item
  | .map, .mapping .. | .set, .mapping .. =>
    (← spread b.met.size n).forM fun (k, v) => do
      meetKey k
      let _ ← meet v
  | .orderedMap, .sequence _ _ items | .pairs, .sequence _ _ items => items.forM meetPair
  | _, _ => malformed

/-- Meet the parts of the collections that wait, round by round. -/
def rounds : Nat → Build Unit
  | 0 => pure ()
  | fuel + 1 => do
    let b ← get
    if !b.waiting.isEmpty then
      set { b with waiting := [] }
      b.waiting.reverse.forM meetParts
      rounds fuel

end Build

/-- The value of a node after all rounds. -/
def Builder.value (b : Builder) : Nat → Node → Value
  | 0, _ => .null
  | fuel + 1, n =>
    match b.met.getD n.id none, n with
    | some (.scalar v), _ => v
    | _, .scalar .. => .null
    | _, .sequence id tag items =>
      .list (items.map fun item => match tag, item with
        | .seq, _ => b.value fuel item
        | _, .mapping id _ es =>
          .tuple ((b.entriesOf id es).flatMap fun (k, v) => [b.value fuel k, b.value fuel v])
        | _, _ => b.value fuel item) (some id)
    | _, .mapping id tag es =>
      let es := Entries.insertAll []
        ((b.entriesOf id es).map fun (k, v) => (b.value fuel k, b.value fuel v))
      if tag = .set then .set (es.map (·.1)) (some id) else .map es (some id)

/-- The value of a document. -/
def Document.toValue (d : Document) : Except ReadError Value := do
  let ((), b) ← (do
    let _ ← Build.meet d.root
    Build.rounds (d.size + 1) : Build Unit).run (.start d.size)
  pure (b.value (d.size + 1) d.root)

/-- Read a document.  A text without a document reads as null. -/
def read (text : List Char) : Except ReadError Value := do
  match ← Document.ofTokens (← tokens text) with
  | none => pure .null
  | some d => d.toValue

end Regen.Yaml
