import Regen.Yaml.Tag
import Regen.Yaml.Token

/-! # From tokens to nodes

    A node is a scalar's text, a sequence or a mapping, with its tag.  Nodes are numbered in the
    order of their starts, and an alias gives the numbered node again. -/

namespace Regen.Yaml

/-- A node of a document. -/
inductive Node where
  | scalar (id : Nat) (tag : Tag) (text : String)
  | sequence (id : Nat) (tag : Tag) (items : List Node)
  | mapping (id : Nat) (tag : Tag) (entries : List (Node × Node))
  deriving Repr

instance : Inhabited Node := ⟨.scalar 0 .null ""⟩

namespace Node

def id : Node → Nat
  | scalar id .. | sequence id .. | mapping id .. => id

def tag : Node → Tag
  | scalar _ t _ | sequence _ t _ | mapping _ t _ => t

end Node

/-- What stands before a node's content. -/
structure Properties where
  anchor : Option (List Char)
  /-- The full tag, if one is given. -/
  tag : Option String

namespace Properties

def empty : Properties := ⟨none, none⟩

def isEmpty (p : Properties) : Bool := p.anchor.isNone && p.tag.isNone

/-- Is the kind left to the node: no tag, or the tag that says so? -/
def isOpen (p : Properties) : Bool := p.tag.isNone || p.tag == some "!"

/-- The tag of a scalar: given, or by its text if it is plain or says so, or text. -/
def scalarTag (p : Properties) (plain : Bool) (text : String) : Tag :=
  match p.tag with
  | none => if plain then Tag.ofPlain text else .str
  | some "!" => Tag.ofPlain text
  | some t => Tag.ofText t

/-- The tag of a collection. -/
def collectionTag (p : Properties) (usual : Tag) : Tag :=
  if p.isOpen then usual else (p.tag.map Tag.ofText).getD usual

end Properties

/-- The state of reading nodes. -/
structure Composer where
  tokens : List Token
  /-- The fault that stands behind the tokens. -/
  fault : Option Fault
  /-- The anchors so far, with their nodes once these are complete. -/
  anchors : List (List Char × Option Node)
  /-- The tag abbreviations. -/
  handles : List (List Char × List Char)
  nextId : Nat

/-- A step that reads nodes. -/
abbrev Compose := StateT Composer (Except ReadError)

namespace Compose

def malformed {α : Type} : Compose α := fun _ => .error .malformed

/-- The next token without taking it. -/
def peek : Compose (Option Token) := fun s =>
  match s.tokens, s.fault with
  | [], some f => .error (.fault f)
  | ts, _ => .ok (ts.head?, s)

/-- Take the next token. -/
def advance : Compose Unit := modify fun s => { s with tokens := s.tokens.drop 1 }

/-- Is the next token one of these? -/
def isNext (ts : List Token) : Compose Bool := do
  match ← peek with
  | some t => pure (ts.contains t)
  | none => pure false

/-- Take the next token if it is the given one, and say whether it was. -/
def accept (t : Token) : Compose Bool := do
  if ← isNext [t] then advance; pure true else pure false

/-- Take the next token, which must be the given one. -/
def expect (t : Token) : Compose Unit := do
  if !(← accept t) then malformed

def freshId : Compose Nat := modifyGet fun s => (s.nextId, { s with nextId := s.nextId + 1 })

/-- A tag with its abbreviation spelled out. -/
def fullTag (handle : Option (List Char)) (suffix : List Char) : Compose String := do
  match handle with
  | none => pure (String.ofList suffix)
  | some h =>
    match (← get).handles.find? (·.1 == h) with
    | some (_, uri) => pure (String.ofList (uri ++ suffix))
    | none => malformed

/-- The anchor and the tag in front of a node, in either order. -/
def properties : Compose Properties := do
  match ← peek with
  | some (.anchor name) =>
    advance
    match ← peek with
    | some (.tag h s) => advance; pure ⟨some name, some (← fullTag h s)⟩
    | _ => pure ⟨some name, none⟩
  | some (.tag h s) =>
    advance
    match ← peek with
    | some (.anchor name) => advance; pure ⟨some name, some (← fullTag h s)⟩
    | _ => pure ⟨none, some (← fullTag h s)⟩
  | _ => pure .empty

/-- Announce an anchor; each name is used once. -/
def announce (anchor : Option (List Char)) : Compose Unit := do
  match anchor with
  | none => pure ()
  | some name =>
    let s ← get
    if s.anchors.any (·.1 == name) then malformed
    else set { s with anchors := (name, none) :: s.anchors }

/-- Bind an announced anchor to its node. -/
def bindAnchor (anchor : Option (List Char)) (node : Node) : Compose Node := do
  match anchor with
  | none => pure ()
  | some name =>
    modify fun s => { s with
      anchors := s.anchors.map fun (n, v) => if n == name then (n, some node) else (n, v) }
  pure node

/-- The node of an alias.  A node that contains itself is refused. -/
def aliased (name : List Char) : Compose Node := do
  match (← get).anchors.find? (·.1 == name) with
  | some (_, some node) => pure node
  | _ => malformed

/-- A scalar that is not written. -/
def absent (p : Properties) : Compose Node := do
  announce p.anchor
  let id ← freshId
  bindAnchor p.anchor (.scalar id (p.scalarTag p.isOpen "") "")

/-- A sequence with the items that are read. -/
def sequenceNode (p : Properties) (items : Compose (List Node)) : Compose Node := do
  announce p.anchor
  let id ← freshId
  let xs ← items
  bindAnchor p.anchor (.sequence id (p.collectionTag .seq) xs)

/-- A mapping with the entries that are read. -/
def mappingNode (p : Properties) (entries : Compose (List (Node × Node))) : Compose Node := do
  announce p.anchor
  let id ← freshId
  let es ← entries
  bindAnchor p.anchor (.mapping id (p.collectionTag .map) es)

/-- The content that a node may have. -/
inductive Content where
  /-- Anything, including a block. -/
  | block
  /-- Anything, including a list that is not indented. -/
  | blockOrList
  /-- No block. -/
  | flow
  deriving DecidableEq

mutual

/-- A node with its properties. -/
def node : Nat → Content → Compose Node
  | 0, _ => malformed
  | fuel + 1, content => do
    match ← peek with
    | some (.alias name) => advance; aliased name
    | _ =>
      let p ← properties
      match ← peek with
      | some (.scalar plain text) =>
        advance
        announce p.anchor
        let id ← freshId
        let s := String.ofList text
        bindAnchor p.anchor (.scalar id (p.scalarTag plain s) s)
      | some .flowSequenceStart => advance; sequenceNode p (flowItems fuel true)
      | some .flowMappingStart => advance; mappingNode p (flowEntries fuel true)
      | some .blockEntry =>
        if content = .blockOrList then sequenceNode p (plainItems fuel)
        else if p.isEmpty then malformed else absent p
      | some .blockSequenceStart =>
        if content = .flow then (if p.isEmpty then malformed else absent p)
        else do advance; sequenceNode p (blockItems fuel)
      | some .blockMappingStart =>
        if content = .flow then (if p.isEmpty then malformed else absent p)
        else do advance; mappingNode p (blockEntries fuel)
      | _ => if p.isEmpty then malformed else absent p

/-- The items of an indented list up to its end. -/
def blockItems : Nat → Compose (List Node)
  | 0 => malformed
  | fuel + 1 => do
    if ← accept .blockEntry then
      let x ← if ← isNext [.blockEntry, .blockEnd] then absent .empty else node fuel .block
      pure (x :: (← blockItems fuel))
    else
      expect .blockEnd
      pure []

/-- The items of a list that is not indented; whatever is no item ends it. -/
def plainItems : Nat → Compose (List Node)
  | 0 => malformed
  | fuel + 1 => do
    if ← accept .blockEntry then
      let x ← if ← isNext [.blockEntry, .key, .value, .blockEnd] then absent .empty
        else node fuel .block
      pure (x :: (← plainItems fuel))
    else pure []

/-- The entries of an indented mapping up to its end. -/
def blockEntries : Nat → Compose (List (Node × Node))
  | 0 => malformed
  | fuel + 1 => do
    if ← accept .key then
      let k ← if ← isNext [.key, .value, .blockEnd] then absent .empty else node fuel .blockOrList
      let v ← if ← accept .value then
          if ← isNext [.key, .value, .blockEnd] then absent .empty else node fuel .blockOrList
        else absent .empty
      pure ((k, v) :: (← blockEntries fuel))
    else
      expect .blockEnd
      pure []

/-- The items of a bracketed list up to its end.  A key among them makes a mapping of one
    entry. -/
def flowItems : Nat → Bool → Compose (List Node)
  | 0, _ => malformed
  | fuel + 1, first => do
    if ← accept .flowSequenceEnd then pure []
    else
      if !first then expect .flowEntry
      if ← isNext [.key] then
        let x ← mappingNode .empty (singleEntry fuel)
        pure (x :: (← flowItems fuel false))
      else if ← accept .flowSequenceEnd then pure []
      else
        let x ← node fuel .flow
        pure (x :: (← flowItems fuel false))

/-- The one entry of a mapping inside a bracketed list. -/
def singleEntry : Nat → Compose (List (Node × Node))
  | 0 => malformed
  | fuel + 1 => do
    advance
    let k ← if ← isNext [.value, .flowEntry, .flowSequenceEnd] then absent .empty
      else node fuel .flow
    let v ← if ← accept .value then
        if ← isNext [.flowEntry, .flowSequenceEnd] then absent .empty else node fuel .flow
      else absent .empty
    pure [(k, v)]

/-- The entries of a bracketed mapping up to its end.  A node that is no key has no value. -/
def flowEntries : Nat → Bool → Compose (List (Node × Node))
  | 0, _ => malformed
  | fuel + 1, first => do
    if ← accept .flowMappingEnd then pure []
    else
      if !first then expect .flowEntry
      if ← accept .key then
        let k ← if ← isNext [.value, .flowEntry, .flowMappingEnd] then absent .empty
          else node fuel .flow
        let v ← if ← accept .value then
            if ← isNext [.flowEntry, .flowMappingEnd] then absent .empty else node fuel .flow
          else absent .empty
        pure ((k, v) :: (← flowEntries fuel false))
      else if ← accept .flowMappingEnd then pure []
      else
        let k ← node fuel .flow
        let v ← absent .empty
        pure ((k, v) :: (← flowEntries fuel false))

end

/-- Take directives in front of a document. -/
def directives : Nat → Bool → List (List Char × List Char) → Compose Unit
  | 0, _, _ => malformed
  | fuel + 1, versioned, handles => do
    match ← peek with
    | some (.directive d) =>
      advance
      match d with
      | .version major _ =>
        if versioned || major ≠ 1 then malformed else directives fuel true handles
      | .handle h uri =>
        if handles.any (·.1 == h) then malformed
        else directives fuel versioned ((h, uri) :: handles)
      | .reserved => directives fuel versioned handles
    | _ => modify fun s => { s with handles := handles ++ s.handles }

/-- Take document end markers. -/
def documentEnds : Nat → Compose Unit
  | 0 => pure ()
  | fuel + 1 => do
    if ← accept .documentEnd then documentEnds fuel

/-- The only document of a text, if it has one.  The directives of a second one are looked at
    before it is refused. -/
def document (fuel : Nat) : Compose (Option Node) := do
  match ← peek with
  | none => pure none
  | some t =>
    let explicit := match t with
      | .directive _ | .documentStart => true
      | _ => false
    let root ← if explicit then do
        directives fuel false []
        expect .documentStart
        match ← peek with
        | none | some (.directive _) | some .documentStart | some .documentEnd => absent .empty
        | _ => node fuel .block
      else node fuel .block
    documentEnds fuel
    if (← peek).isSome then
      directives fuel false []
      malformed
    else pure (some root)

end Compose

/-- A document: its root node, and how many nodes were numbered. -/
structure Document where
  root : Node
  size : Nat
  deriving Repr

/-- The only document of a text's tokens, if there is one.  More than one is malformed. -/
def Document.ofTokens (run : TokenRun) : Except ReadError (Option Document) :=
  let start : Composer :=
    { tokens := run.tokens, fault := run.fault, anchors := [], nextId := 0
      handles := [(['!'], ['!']), (['!', '!'], Tag.namespaceText.toList)] }
  match (Compose.document (4 * run.tokens.length + 8)).run start with
  | .error e => .error e
  | .ok (root, s) => .ok (root.map (⟨·, s.nextId⟩))

end Regen.Yaml
