import Regen.Proofs.Yaml.Tokens
import Regen.Yaml.Build

/-! # Tokens as nodes

    The tokens of a legible value are read as the nodes of that value, numbered in the order of
    their starts, and whatever stands behind them is left. -/

namespace Regen.Yaml

open Value

/-! ## Nodes -/

mutual

/-- How many nodes stand for a value. -/
def nodeCount : Value → Nat
  | .list xs _ => 1 + itemCount xs
  | .map es _ => 1 + entryCount es
  | _ => 1

def itemCount : List Value → Nat
  | [] => 0
  | x :: xs => nodeCount x + itemCount xs

def entryCount : List (Value × Value) → Nat
  | [] => 0
  | (k, v) :: es => nodeCount k + (nodeCount v + entryCount es)

end

/-- The node of a scalar. -/
def scalarNode (i : Nat) (v : Value) : Node :=
  match Scalar.ofValue? v with
  | some s => .scalar i s.tag (String.ofList s.text)
  | none => .scalar i .null ""

mutual

/-- The node of a value, numbered from a number on. -/
def nodeOf (i : Nat) : Value → Node
  | .list xs _ => .sequence i .seq (itemNodes (i + 1) xs)
  | .map es _ => .mapping i .map (entryNodes (i + 1) es)
  | v => scalarNode i v

def itemNodes (i : Nat) : List Value → List Node
  | [] => []
  | x :: xs => nodeOf i x :: itemNodes (i + nodeCount x) xs

def entryNodes (i : Nat) : List (Value × Value) → List (Node × Node)
  | [] => []
  | (k, v) :: es =>
    (nodeOf i k, nodeOf (i + nodeCount k) v) :: entryNodes (i + nodeCount k + nodeCount v) es

end

section scalars
variable {v : Value} {s : Scalar}

theorem nodeCount_scalar (h : Scalar.ofValue? v = some s) : nodeCount v = 1 := by
  cases v with
  | list | map => cases h
  | _ => rw [nodeCount] <;> nofun

theorem nodeOf_scalar (h : Scalar.ofValue? v = some s) (i : Nat) : nodeOf i v = scalarNode i v := by
  cases v with
  | list | map => cases h
  | _ => rw [nodeOf] <;> nofun

theorem scalarNode_eq (h : Scalar.ofValue? v = some s) (i : Nat) :
    scalarNode i v = .scalar i s.tag (String.ofList s.text) := by
  rw [scalarNode, h]

end scalars

/-! ## Steps -/

namespace Compose

section steps
variable {α β : Type} {s s' : Composer} {t : Token} {ts : List Token}

theorem bind_of_ok {m : Compose α} {x : α} (h : m s = .ok (x, s')) (k : α → Compose β) :
    (m >>= k) s = k x s' := by
  show (m s >>= fun p => k p.1 p.2) = _
  rw [h]
  rfl

theorem peek_of (h : s.tokens = t :: ts) : peek s = .ok (some t, s) := by
  unfold peek
  rw [h]
  rfl

theorem advance_of (h : s.tokens = t :: ts) : advance s = .ok ((), { s with tokens := ts }) := by
  show Except.ok ((), { s with tokens := s.tokens.drop 1 }) = _
  rw [h]
  rfl

theorem isNext_of (h : s.tokens = t :: ts) (us : List Token) :
    isNext us s = .ok (us.contains t, s) := by
  rw [isNext, bind_of_ok (peek_of h)]
  rfl

theorem accept_of (h : s.tokens = t :: ts) :
    accept t s = .ok (true, { s with tokens := ts }) := by
  rw [accept, bind_of_ok (isNext_of h _), List.contains_cons, beq_self_eq_true, Bool.true_or,
    if_pos rfl, bind_of_ok (advance_of h)]
  rfl

theorem accept_of_ne {u : Token} (h : s.tokens = u :: ts) (hne : u ≠ t) :
    accept t s = .ok (false, s) := by
  have hother : ([t] : List Token).contains u = false := by simpa using hne
  rw [accept, bind_of_ok (isNext_of h _), hother, if_neg Bool.false_ne_true]
  rfl

theorem expect_of (h : s.tokens = t :: ts) : expect t s = .ok ((), { s with tokens := ts }) := by
  rw [expect, bind_of_ok (accept_of h)]
  rfl

/-- A collection without anchor and tag. -/
theorem sequenceNode_of {items : Compose (List Node)} {xs : List Node}
    (h : items { s with nextId := s.nextId + 1 } = .ok (xs, s')) :
    sequenceNode .empty items s = .ok (.sequence s.nextId .seq xs, s') := by
  show ((items { s with nextId := s.nextId + 1 }) >>= fun p => _) = _
  rw [h]
  rfl

theorem mappingNode_of {entries : Compose (List (Node × Node))} {es : List (Node × Node)}
    (h : entries { s with nextId := s.nextId + 1 } = .ok (es, s')) :
    mappingNode .empty entries s = .ok (.mapping s.nextId .map es, s') := by
  show ((entries { s with nextId := s.nextId + 1 }) >>= fun p => _) = _
  rw [h]
  rfl

/-! ## Nodes -/

/-- May a node without anchor and tag start with a token? -/
def StartsNode (indented : Bool) : Token → Prop
  | .scalar .. | .flowSequenceStart | .flowMappingStart | .blockSequenceStart
  | .blockMappingStart => True
  | .blockEntry => indented = false
  | _ => False

theorem properties_of {indented : Bool} (h : s.tokens = t :: ts) (ht : StartsNode indented t) :
    properties s = .ok (.empty, s) := by
  rw [properties, bind_of_ok (peek_of h)]
  cases t <;> first | rfl | cases ht

/-- What is read of a node without anchor and tag that starts with a token. -/
def started (fuel : Nat) (content : Compose.Content) : Token → Compose Node
  | .scalar plain cs => do
    advance
    let id ← freshId
    pure (.scalar id (if plain then Tag.ofPlain (String.ofList cs) else .str) (String.ofList cs))
  | .flowSequenceStart => do advance; sequenceNode .empty (flowItems fuel true)
  | .flowMappingStart => do advance; mappingNode .empty (flowEntries fuel true)
  | .blockEntry =>
    if content = .blockOrList then sequenceNode .empty (plainItems fuel) else malformed
  | .blockSequenceStart =>
    if content = .flow then malformed else do advance; sequenceNode .empty (blockItems fuel)
  | .blockMappingStart =>
    if content = .flow then malformed else do advance; mappingNode .empty (blockEntries fuel)
  | _ => malformed

theorem node_eq (indented : Bool) (h : s.tokens = t :: ts) (ht : StartsNode indented t)
    (fuel : Nat) (content : Compose.Content) :
    node (fuel + 1) content s = started fuel content t s := by
  have hproperties := properties_of h ht
  rw [node, bind_of_ok (peek_of h)]
  cases t with
  | scalar | flowSequenceStart | flowMappingStart | blockEntry | blockSequenceStart
  | blockMappingStart =>
    dsimp only
    rw [bind_of_ok hproperties, bind_of_ok (peek_of h)]
    rfl
  | _ => cases ht

theorem node_scalar {plain : Bool} {cs : List Char} (h : s.tokens = .scalar plain cs :: ts)
    (fuel : Nat) (content : Compose.Content) :
    node (fuel + 1) content s =
      .ok (.scalar s.nextId (if plain then Tag.ofPlain (String.ofList cs) else .str)
        (String.ofList cs), { s with tokens := ts, nextId := s.nextId + 1 }) := by
  rw [node_eq true h trivial]
  exact bind_of_ok (advance_of h) _

/-- A list that is indented. -/
theorem node_blockItems {xs : List Node} (h : s.tokens = .blockSequenceStart :: ts) {fuel : Nat}
    {content : Compose.Content} (hcontent : content ≠ .flow)
    (hitems : blockItems fuel { s with tokens := ts, nextId := s.nextId + 1 } = .ok (xs, s')) :
    node (fuel + 1) content s = .ok (.sequence s.nextId .seq xs, s') := by
  have hstarted : started fuel content .blockSequenceStart = _ := if_neg hcontent
  rw [node_eq true h trivial, hstarted, bind_of_ok (advance_of h)]
  exact sequenceNode_of hitems

/-- A list that is not indented. -/
theorem node_plainItems {xs : List Node} (h : s.tokens = .blockEntry :: ts) {fuel : Nat}
    (hitems : plainItems fuel { s with nextId := s.nextId + 1 } = .ok (xs, s')) :
    node (fuel + 1) .blockOrList s = .ok (.sequence s.nextId .seq xs, s') := by
  rw [node_eq false h rfl]
  exact sequenceNode_of hitems

theorem node_blockEntries {es : List (Node × Node)} (h : s.tokens = .blockMappingStart :: ts)
    {fuel : Nat} {content : Compose.Content} (hcontent : content ≠ .flow)
    (hentries : blockEntries fuel { s with tokens := ts, nextId := s.nextId + 1 } =
      .ok (es, s')) :
    node (fuel + 1) content s = .ok (.mapping s.nextId .map es, s') := by
  have hstarted : started fuel content .blockMappingStart = _ := if_neg hcontent
  rw [node_eq true h trivial, hstarted, bind_of_ok (advance_of h)]
  exact mappingNode_of hentries

theorem node_emptyList (h : s.tokens = .flowSequenceStart :: .flowSequenceEnd :: ts) (fuel : Nat)
    (content : Compose.Content) :
    node (fuel + 2) content s =
      .ok (.sequence s.nextId .seq [], { s with tokens := ts, nextId := s.nextId + 1 }) := by
  rw [node_eq true h trivial]
  refine (bind_of_ok (advance_of h) _).trans (sequenceNode_of ?_)
  rw [flowItems, bind_of_ok (accept_of rfl)]
  rfl

theorem node_emptyMapping (h : s.tokens = .flowMappingStart :: .flowMappingEnd :: ts) (fuel : Nat)
    (content : Compose.Content) :
    node (fuel + 2) content s =
      .ok (.mapping s.nextId .map [], { s with tokens := ts, nextId := s.nextId + 1 }) := by
  rw [node_eq true h trivial]
  refine (bind_of_ok (advance_of h) _).trans (mappingNode_of ?_)
  rw [flowEntries, bind_of_ok (accept_of rfl)]
  rfl

/-! ## Items and entries -/

theorem blockItems_cons {x : Node} {xs : List Node} {s₁ : Composer} {u : Token} {us : List Token}
    {fuel : Nat} (h : s.tokens = .blockEntry :: u :: us)
    (hu : [Token.blockEntry, .blockEnd].contains u = false)
    (hx : node fuel .block { s with tokens := u :: us } = .ok (x, s₁))
    (hxs : blockItems fuel s₁ = .ok (xs, s')) : blockItems (fuel + 1) s = .ok (x :: xs, s') := by
  rw [blockItems, bind_of_ok (accept_of h), if_pos rfl, bind_of_ok (isNext_of rfl _), hu,
    if_neg Bool.false_ne_true, bind_of_ok hx]
  dsimp only
  rw [bind_of_ok hxs]
  rfl

theorem blockItems_nil (h : s.tokens = .blockEnd :: ts) (fuel : Nat) :
    blockItems (fuel + 1) s = .ok ([], { s with tokens := ts }) := by
  rw [blockItems, bind_of_ok (accept_of_ne h (by decide)), if_neg Bool.false_ne_true,
    bind_of_ok (expect_of h)]
  rfl

theorem plainItems_cons {x : Node} {xs : List Node} {s₁ : Composer} {u : Token} {us : List Token}
    {fuel : Nat} (h : s.tokens = .blockEntry :: u :: us)
    (hu : [Token.blockEntry, .key, .value, .blockEnd].contains u = false)
    (hx : node fuel .block { s with tokens := u :: us } = .ok (x, s₁))
    (hxs : plainItems fuel s₁ = .ok (xs, s')) : plainItems (fuel + 1) s = .ok (x :: xs, s') := by
  rw [plainItems, bind_of_ok (accept_of h), if_pos rfl, bind_of_ok (isNext_of rfl _), hu,
    if_neg Bool.false_ne_true, bind_of_ok hx]
  dsimp only
  rw [bind_of_ok hxs]
  rfl

theorem plainItems_nil (h : s.tokens = t :: ts) (ht : t ≠ .blockEntry) (fuel : Nat) :
    plainItems (fuel + 1) s = .ok ([], s) := by
  rw [plainItems, bind_of_ok (accept_of_ne h ht), if_neg Bool.false_ne_true]
  rfl

theorem blockEntries_cons {k v : Node} {es : List (Node × Node)} {s₁ s₂ : Composer}
    {t u : Token} {ts us : List Token} {fuel : Nat} (h : s.tokens = .key :: t :: ts)
    (ht : [Token.key, .value, .blockEnd].contains t = false)
    (hk : node fuel .blockOrList { s with tokens := t :: ts } = .ok (k, s₁))
    (h₁ : s₁.tokens = .value :: u :: us)
    (hu : [Token.key, .value, .blockEnd].contains u = false)
    (hv : node fuel .blockOrList { s₁ with tokens := u :: us } = .ok (v, s₂))
    (hes : blockEntries fuel s₂ = .ok (es, s')) :
    blockEntries (fuel + 1) s = .ok ((k, v) :: es, s') := by
  rw [blockEntries, bind_of_ok (accept_of h), if_pos rfl, bind_of_ok (isNext_of rfl _), ht,
    if_neg Bool.false_ne_true, bind_of_ok hk]
  dsimp only
  rw [bind_of_ok (accept_of h₁), if_pos rfl, bind_of_ok (isNext_of rfl _), hu,
    if_neg Bool.false_ne_true, bind_of_ok hv, bind_of_ok hes]
  rfl

theorem blockEntries_nil (h : s.tokens = .blockEnd :: ts) (fuel : Nat) :
    blockEntries (fuel + 1) s = .ok ([], { s with tokens := ts }) := by
  rw [blockEntries, bind_of_ok (accept_of_ne h (by decide)), if_neg Bool.false_ne_true,
    bind_of_ok (expect_of h)]
  rfl

end steps

end Compose

/-! ## Values -/

section values
open Compose
variable {indent : Nat} {v : Value}

/-- The tag of a legible scalar comes back from its spelling. -/
theorem tag_of_spelling {s : Scalar} (hs : s.IsLegible indent) (isKey : Bool) :
    (if (s.spelling isKey == .plain) = true then Tag.ofPlain (String.ofList s.text) else .str) =
      s.tag := by
  have hspelled := hs.spelledAs isKey
  generalize s.spelling isKey = spelling at hspelled ⊢
  cases hspelled with
  | plain htag => exact beq_iff_eq.mp htag
  | singleQuoted htag | doubleQuoted htag => exact htag.symm

/-- **A scalar's token is read as its node.** -/
theorem node_scalarTokens {sc : Scalar} (hsc : Scalar.ofValue? v = some sc)
    (hv : v.isLegible indent = true) (isKey : Bool) {s : Composer} {rest : List Token}
    (h : s.tokens = scalarTokens isKey v ++ rest) (fuel : Nat) (content : Compose.Content) :
    node (fuel + 1) content s =
      .ok (scalarNode s.nextId v, { s with tokens := rest, nextId := s.nextId + 1 }) := by
  have htokens : s.tokens = .scalar (sc.spelling isKey == .plain) sc.text :: rest := by
    rw [h, scalarTokens, hsc]
    rfl
  rw [node_scalar htokens, tag_of_spelling (isLegible_of_value hsc hv).1, scalarNode, hsc]

/-- The tokens of a value start like a node. -/
theorem exists_startsNode (hv : v.isLegible indent = true) (indented : Bool) :
    ∃ t ts, tokensOf indented v = t :: ts ∧ StartsNode indented t := by
  induction indent, v, hv using Value.isLegible_induction with
  | scalar indent v hv hscalar =>
    obtain ⟨s, hs⟩ := Option.isSome_iff_exists.mp hscalar
    exact ⟨.scalar .., _, tokensOf_scalar hs indented, trivial⟩
  | list indent xs label =>
    rw [tokensOf]
    cases xs with
    | nil => exact ⟨.flowSequenceStart, _, rfl, trivial⟩
    | cons x xs =>
      cases indented with
      | true => exact ⟨.blockSequenceStart, _, rfl, trivial⟩
      | false => exact ⟨.blockEntry, _, rfl, rfl⟩
  | map indent es label =>
    rw [tokensOf]
    cases es with
    | nil => exact ⟨.flowMappingStart, _, rfl, trivial⟩
    | cons e es => exact ⟨.blockMappingStart, _, rfl, trivial⟩

/-- The tokens of a value are read as its node.  Behind a list that is not indented no further
    item may follow. -/
def IsTaken (v : Value) : Prop :=
  ∀ (indented : Bool) (fuel : Nat) (content : Compose.Content) (s : Composer) {rest : List Token},
    2 * (tokensOf indented v).length + 2 ≤ fuel → content ≠ .flow →
    (indented = false → content = .blockOrList ∧ ∃ t ts, rest = t :: ts ∧ t ≠ .blockEntry) →
    s.tokens = tokensOf indented v ++ rest →
    node fuel content s =
      .ok (nodeOf s.nextId v, { s with tokens := rest, nextId := s.nextId + nodeCount v })

theorem blockItems_taken {xs : List Value} (hxs : ∀ x ∈ xs, x.isLegible indent = true ∧ IsTaken x)
    {fuel : Nat} {s : Composer} {rest : List Token}
    (hfuel : 2 * (itemTokens xs).length + 3 ≤ fuel)
    (h : s.tokens = itemTokens xs ++ .blockEnd :: rest) :
    blockItems fuel s = .ok (itemNodes s.nextId xs,
      { s with tokens := rest, nextId := s.nextId + itemCount xs }) := by
  induction xs generalizing fuel s with
  | nil =>
    obtain ⟨fuel, rfl⟩ : ∃ n, fuel = n + 1 := ⟨fuel - 1, by omega⟩
    exact blockItems_nil h fuel
  | cons x xs ih =>
    obtain ⟨fuel, rfl⟩ : ∃ n, fuel = n + 1 := ⟨fuel - 1, by omega⟩
    rw [List.forall_mem_cons] at hxs
    obtain ⟨⟨hlegible, htaken⟩, hrest⟩ := hxs
    obtain ⟨t, ts, ht, hstarts⟩ := exists_startsNode hlegible true
    rw [itemTokens, List.length_cons, List.length_append] at hfuel
    have htokens : s.tokens = .blockEntry :: (tokensOf true x ++ (itemTokens xs ++
        .blockEnd :: rest)) := by
      rw [h, itemTokens]
      simp
    have hfirst := htaken true fuel .block
      { s with tokens := tokensOf true x ++ (itemTokens xs ++ .blockEnd :: rest) }
      (by omega) (by decide) (fun h => by cases h) rfl
    rw [ht, List.cons_append] at htokens hfirst
    refine blockItems_cons htokens ?_ hfirst ((ih hrest (by omega) rfl).trans ?_)
    · cases t <;> first | rfl | cases hstarts
    · rw [Nat.add_assoc]
      rfl

theorem plainItems_taken {xs : List Value} (hxs : ∀ x ∈ xs, x.isLegible indent = true ∧ IsTaken x)
    {fuel : Nat} {s : Composer} {t : Token} {ts : List Token} (ht : t ≠ .blockEntry)
    (hfuel : 2 * (itemTokens xs).length + 1 ≤ fuel) (h : s.tokens = itemTokens xs ++ t :: ts) :
    plainItems fuel s = .ok (itemNodes s.nextId xs,
      { s with tokens := t :: ts, nextId := s.nextId + itemCount xs }) := by
  induction xs generalizing fuel s with
  | nil =>
    obtain ⟨fuel, rfl⟩ : ∃ n, fuel = n + 1 := ⟨fuel - 1, by omega⟩
    rw [plainItems_nil h ht]
    obtain ⟨tokens, fault, anchors, handles, nextId⟩ := s
    obtain rfl : tokens = t :: ts := h
    rfl
  | cons x xs ih =>
    obtain ⟨fuel, rfl⟩ : ∃ n, fuel = n + 1 := ⟨fuel - 1, by omega⟩
    rw [List.forall_mem_cons] at hxs
    obtain ⟨⟨hlegible, htaken⟩, hrest⟩ := hxs
    obtain ⟨u, us, hu, hstarts⟩ := exists_startsNode hlegible true
    rw [itemTokens, List.length_cons, List.length_append] at hfuel
    have htokens : s.tokens = .blockEntry :: (tokensOf true x ++ (itemTokens xs ++ t :: ts)) := by
      rw [h, itemTokens]
      simp
    have hfirst := htaken true fuel .block
      { s with tokens := tokensOf true x ++ (itemTokens xs ++ t :: ts) }
      (by omega) (by decide) (fun h => by cases h) rfl
    rw [hu, List.cons_append] at htokens hfirst
    refine plainItems_cons htokens ?_ hfirst ((ih hrest (by omega) rfl).trans ?_)
    · cases u <;> first | rfl | cases hstarts
    · rw [Nat.add_assoc]
      rfl

/-- Behind a value of a mapping the next key follows, or the end of the mapping. -/
theorem exists_entryTokens (es : Entries) (rest : List Token) :
    ∃ t ts, entryTokens es ++ .blockEnd :: rest = t :: ts ∧ t ≠ .blockEntry := by
  cases es with
  | nil => exact ⟨.blockEnd, _, rfl, by decide⟩
  | cons e es =>
    rw [entryTokens]
    exact ⟨.key, _, rfl, by decide⟩

theorem blockEntries_taken {es : Entries} (hes : areLegibleEntries indent es = true)
    (htaken : ∀ e ∈ es, IsTaken e.2) {fuel : Nat} {s : Composer} {rest : List Token}
    (hfuel : 2 * (entryTokens es).length + 3 ≤ fuel)
    (h : s.tokens = entryTokens es ++ .blockEnd :: rest) :
    blockEntries fuel s = .ok (entryNodes s.nextId es,
      { s with tokens := rest, nextId := s.nextId + entryCount es }) := by
  induction es generalizing fuel s with
  | nil =>
    obtain ⟨fuel, rfl⟩ : ∃ n, fuel = n + 1 := ⟨fuel - 1, by omega⟩
    exact blockEntries_nil h fuel
  | cons e es ih =>
    obtain ⟨fuel, rfl⟩ : ∃ n, fuel = n + 2 := ⟨fuel - 2, by omega⟩
    obtain ⟨⟨key, hkey, hlegible⟩, hvalue⟩ := of_mem_areLegibleEntries hes List.mem_cons_self
    obtain ⟨k, v⟩ := e
    obtain rfl : k = .text key := hkey
    simp only [areLegibleEntries, Bool.and_eq_true] at hes
    rw [List.forall_mem_cons] at htaken
    dsimp only at hvalue htaken
    rw [isLegibleKey, Bool.and_eq_true] at hlegible
    obtain ⟨u, us, hu, hstarts⟩ := exists_startsNode hvalue (!Writer.isShortKey.fits (.text key) 0)
    rw [entryTokens] at hfuel h
    generalize Writer.isShortKey.fits (.text key) 0 = fits at hfuel h hu hstarts
    simp only [List.length_cons, List.length_append] at hfuel
    -- The key is one token, its value goes up to the next key.
    have htokens : s.tokens = .key :: .scalar ((keyScalar key).spelling fits == .plain) key.toList ::
        .value :: (tokensOf (!fits) v ++ (entryTokens es ++ .blockEnd :: rest)) := by
      rw [h, scalarTokens, Scalar.ofValue?]
      simp [keyScalar]
    have hfirst := node_scalarTokens (v := .text key)
      (s := { s with tokens := scalarTokens fits (.text key) ++ .value ::
        (tokensOf (!fits) v ++ (entryTokens es ++ .blockEnd :: rest)) })
      rfl (show (Value.text key).isLegible indent = true from hlegible.1) fits rfl fuel .blockOrList
    have hsecond := htaken.1 (!fits) (fuel + 1) .blockOrList
      { s with
        tokens := tokensOf (!fits) v ++ (entryTokens es ++ .blockEnd :: rest)
        nextId := s.nextId + 1 }
      (by omega) (by decide) (fun _ => ⟨rfl, exists_entryTokens es rest⟩) rfl
    rw [hu] at htokens hfirst hsecond
    refine blockEntries_cons htokens rfl hfirst rfl ?_ hsecond ((ih hes.2 htaken.2 (by omega)
      rfl).trans ?_)
    · cases u <;> first | rfl | cases hstarts
    · have hcount : s.nextId + entryCount ((.text key, v) :: es) =
          s.nextId + 1 + nodeCount v + entryCount es := by
        rw [entryCount, nodeCount_scalar (v := .text key) rfl]
        omega
      rw [hcount]
      rfl

/-- **The tokens of a legible value are read as its node.** -/
theorem isTaken (hv : v.isLegible indent = true) : IsTaken v := by
  induction indent, v, hv using Value.isLegible_induction with
  | scalar indent v hv hscalar =>
    intro indented fuel content s rest hfuel _ _ h
    obtain ⟨fuel, rfl⟩ : ∃ n, fuel = n + 1 := ⟨fuel - 1, by omega⟩
    obtain ⟨sc, hsc⟩ := Option.isSome_iff_exists.mp hscalar
    have htokens : tokensOf indented v = scalarTokens false v := by
      rw [tokensOf_scalar hsc, scalarTokens, hsc]
    rw [nodeOf_scalar hsc, nodeCount_scalar hsc]
    exact node_scalarTokens hsc hv false (htokens ▸ h) fuel content
  | list indent xs label hxs ih =>
    intro indented fuel content s rest hfuel hcontent hplain h
    have hitems : ∀ x ∈ xs, x.isLegible (indent + 2) = true ∧ IsTaken x :=
      fun x hx => ⟨areLegible_iff.mp hxs x hx, ih x hx (areLegible_iff.mp hxs x hx)⟩
    rw [tokensOf] at hfuel h
    rw [nodeOf, nodeCount, ← Nat.add_assoc]
    cases xs with
    | nil =>
      obtain ⟨fuel, rfl⟩ : ∃ n, fuel = n + 2 := ⟨fuel - 2, by omega⟩
      exact node_emptyList h fuel content
    | cons x xs =>
      obtain ⟨fuel, rfl⟩ : ∃ n, fuel = n + 1 := ⟨fuel - 1, by omega⟩
      rw [if_neg (by simp)] at hfuel h
      cases indented with
      | true =>
        rw [if_pos rfl] at hfuel h
        simp only [List.length_cons, List.length_append, List.length_nil] at hfuel
        have htokens : s.tokens =
            .blockSequenceStart :: (itemTokens (x :: xs) ++ .blockEnd :: rest) := by
          simpa using h
        exact node_blockItems htokens hcontent (blockItems_taken hitems (by omega) rfl)
      | false =>
        obtain ⟨rfl, t, ts, rfl, ht⟩ := hplain rfl
        rw [if_neg Bool.false_ne_true] at hfuel h
        have hfirst : ∃ us, itemTokens (x :: xs) = .blockEntry :: us := by
          rw [itemTokens]
          exact ⟨_, rfl⟩
        obtain ⟨us, hus⟩ := hfirst
        have htokens : s.tokens = .blockEntry :: (us ++ t :: ts) := by
          rw [h, hus]
          rfl
        exact node_plainItems htokens (plainItems_taken hitems ht (by omega) h)
  | map indent es label hes ih =>
    intro indented fuel content s rest hfuel hcontent _ h
    rw [tokensOf] at hfuel h
    rw [nodeOf, nodeCount, ← Nat.add_assoc]
    cases es with
    | nil =>
      obtain ⟨fuel, rfl⟩ : ∃ n, fuel = n + 2 := ⟨fuel - 2, by omega⟩
      exact node_emptyMapping h fuel content
    | cons e es =>
      obtain ⟨fuel, rfl⟩ : ∃ n, fuel = n + 1 := ⟨fuel - 1, by omega⟩
      rw [if_neg (by simp)] at hfuel h
      simp only [List.length_cons, List.length_append, List.length_nil] at hfuel
      have htokens : s.tokens =
          .blockMappingStart :: (entryTokens (e :: es) ++ .blockEnd :: rest) := by
        simpa using h
      exact node_blockEntries htokens hcontent (blockEntries_taken hes
        (fun f hf => ih f hf (of_mem_areLegibleEntries hes hf).2) (by omega) rfl)

end values

/-! ## Documents -/

section documents
open Compose

/-- Behind the last token there is none. -/
theorem Compose.peek_nil {s : Composer} (h : s.tokens = []) (hfault : s.fault = none) :
    peek s = .ok (none, s) := by
  unfold peek
  rw [h, hfault]
  rfl

theorem Compose.accept_nil {s : Composer} (h : s.tokens = []) (hfault : s.fault = none)
    (t : Token) : accept t s = .ok (false, s) := by
  rw [accept, isNext, bind_of_ok (by rw [bind_of_ok (peek_nil h hfault)]; rfl),
    if_neg Bool.false_ne_true]
  rfl

/-- A document of one block mapping. -/
theorem Compose.document_of {s s' : Composer} {ts : List Token} {fuel : Nat} {root : Node}
    (h : s.tokens = .blockMappingStart :: ts) (hroot : node (fuel + 1) .block s = .ok (root, s'))
    (hend : s'.tokens = []) (hfault : s'.fault = none) :
    document (fuel + 1) s = .ok (some root, s') := by
  rw [document, bind_of_ok (peek_of h)]
  dsimp only
  rw [if_neg Bool.false_ne_true, bind_of_ok hroot, documentEnds,
    bind_of_ok (show _ = Except.ok ((), s') by
      rw [bind_of_ok (accept_nil hend hfault _), if_neg Bool.false_ne_true]
      rfl),
    bind_of_ok (peek_nil hend hfault)]
  rfl

/-- **The tokens of a legible document are read as its node**, and all nodes are counted. -/
theorem ofTokens_tokensOf {es : Entries} (hes : areLegibleEntries 0 es = true) :
    Document.ofTokens ⟨.blockMappingStart :: (entryTokens es ++ [.blockEnd]), none⟩ =
      .ok (some ⟨nodeOf 0 (.map es none), nodeCount (.map es none)⟩) := by
  have htaken : ∀ e ∈ es, IsTaken e.2 :=
    fun e he => isTaken (of_mem_areLegibleEntries hes he).2
  have hroot (fuel : Nat) (s : Composer)
      (h : s.tokens = .blockMappingStart :: (entryTokens es ++ [.blockEnd]))
      (hfuel : 2 * (entryTokens es).length + 3 ≤ fuel) :
      node (fuel + 1) .block s = .ok (.mapping s.nextId .map (entryNodes (s.nextId + 1) es),
        { s with tokens := [], nextId := s.nextId + 1 + entryCount es }) :=
    node_blockEntries h (by decide) (blockEntries_taken hes htaken hfuel rfl)
  have hlength : 4 * (Token.blockMappingStart :: (entryTokens es ++ [.blockEnd])).length + 8 =
      4 * (entryTokens es).length + 15 + 1 := by
    simp
    omega
  rw [Document.ofTokens, StateT.run, hlength,
    document_of rfl (hroot _ _ rfl (by omega)) rfl rfl, nodeOf, nodeCount]
  dsimp only
  rw [Nat.zero_add]
  rfl

end documents

end Regen.Yaml
