import Regen.Proofs.Value.Faults
import Regen.Yaml.File

/-! # Faults of documents

    A text is either malformed, or something in it that has a form has no meaning: a scalar whose
    tag promises more than its text holds, a numeric escape beyond all characters, the number of a
    version that is too long.  Nothing else in reading a document is a fault of a value. -/

namespace Regen.Yaml

/-- **Where a document's faults come from.** -/
inductive ScalarFault : Fault → Prop
  /-- A scalar has no value under its tag. -/
  | value {id : Nat} {tag : Tag} {text : String} {f : Fault}
      (h : scalarValue id tag text = .error (.fault f)) : ScalarFault f
  /-- A mapping stands where a time is promised. -/
  | time : ScalarFault (.notText "list")
  /-- An escape names no character. -/
  | escape {n : Nat} {f : Fault} (h : numericCharacter n = .error (.fault f)) : ScalarFault f
  | version {count : Nat} (h : Number.maxDigits < count) : ScalarFault (.intDigits count)

/-- A text is malformed, or it has a fault of a scalar. -/
def ReadError.IsOfText : ReadError → Prop
  | .malformed => True
  | .fault f => ScalarFault f

/-- What only fails on malformed texts and faults of scalars. -/
abbrev Reads {α : Type} (x : Except ReadError α) : Prop := FailsOnly ReadError.IsOfText x

theorem reads_malformed {α : Type} : Reads (.error .malformed : Except ReadError α) :=
  .error trivial

/-! ## Scalars -/

theorem reads_quotedBreaks (fuel : Nat) (c : Cursor) : Reads (quotedBreaks fuel c) := by
  induction fuel generalizing c with
  | zero => exact .ok _
  | succ fuel ih =>
    rw [quotedBreaks]
    split
    · exact reads_malformed
    · dsimp only
      split
      · exact (ih _).bind fun _ _ => .ok _
      · exact .ok _

theorem reads_quotedBlanks (c : Cursor) : Reads (quotedBlanks c) := by
  unfold quotedBlanks
  dsimp only
  split
  · exact (reads_quotedBreaks _ _).bind fun _ _ => .ok _
  · split
    · exact reads_malformed
    · exact .ok _

theorem reads_numericCharacter (n : Nat) : Reads (numericCharacter n) := by
  intro e h
  match e with
  | .malformed => trivial
  | .fault f => exact .escape h

theorem reads_escape (c : Cursor) : Reads (escape c) := by
  unfold escape
  split
  · exact reads_malformed
  · split
    · exact .ok _
    · split
      · split
        · exact (reads_numericCharacter _).bind fun _ _ => .ok _
        · exact reads_malformed
      · split
        · exact reads_quotedBreaks _ _
        · exact reads_malformed

theorem reads_quotedBody (double : Bool) (fuel : Nat) (c : Cursor) :
    Reads (quotedBody double fuel c) := by
  induction fuel generalizing c with
  | zero => exact reads_malformed
  | succ fuel ih =>
    rw [quotedBody]
    cases c.rest with
    | nil => exact reads_malformed
    | cons ch rest =>
      refine .ite (.ok _) (.ite ?_ (.ite ?_ (.ite ?_ (.ite ?_ ?_))))
      · exact (reads_quotedBlanks c).bind fun _ _ => (ih _).bind fun _ _ => .ok _
      · exact (reads_escape _).bind fun _ _ => (ih _).bind fun _ _ => .ok _
      all_goals exact (ih _).bind fun _ _ => .ok _

theorem reads_quotedScalar (double : Bool) (c : Cursor) : Reads (quotedScalar double c) :=
  reads_quotedBody double _ _

theorem reads_blockHeader (c : Cursor) : Reads (blockHeader c) := by
  have hend : ∀ (chomping : Chomping) (increment : Option Nat) (c : Cursor), Reads
      (if endsField c.rest then pure (chomping, increment, c) else .error .malformed) :=
    fun _ _ _ => .ite (.ok _) reads_malformed
  unfold blockHeader
  split
  · dsimp only
    split
    · exact reads_malformed
    · exact hend _ _ _
    · exact hend _ _ _
  · split
    · exact reads_malformed
    · dsimp only
      split <;> exact hend _ _ _
    · exact hend _ _ _

theorem reads_restOfLine (c : Cursor) : Reads (restOfLine c) := by
  unfold restOfLine
  dsimp only
  split
  · exact .ok _
  · split
    · exact .ok _
    · exact reads_malformed

theorem reads_blockScalar (folded : Bool) (outer : Int) (c : Cursor) :
    Reads (blockScalar folded outer c) := by
  unfold blockScalar
  exact (reads_blockHeader _).bind fun _ _ => (reads_restOfLine _).bind fun _ _ => .ok _

namespace Lexer

/-! ## Names, tags and directives -/

theorem reads_percentBytes (cs : List Char) : Reads (percentBytes cs) := by
  fun_induction percentBytes cs with
  | case1 _ _ _ _ _ _ _ ih => exact ih.bind fun _ _ => .ok _
  | case2 | case3 => exact reads_malformed
  | case4 => exact .ok _

theorem reads_unescapeTag (fuel : Nat) (cs : List Char) : Reads (unescapeTag fuel cs) := by
  fun_induction unescapeTag fuel cs with
  | case1 | case2 => exact .ok _
  | case3 fuel rest ih =>
    refine (reads_percentBytes _).bind fun (bytes, rest) _ => ?_
    dsimp only
    split
    · exact (ih _).bind fun _ _ => .ok _
    · exact reads_malformed
  | case4 fuel c rest _ ih => exact ih.bind fun _ _ => .ok _

theorem reads_tagText (c : Cursor) : Reads (tagText c) := by
  unfold tagText
  dsimp only
  split
  · exact reads_malformed
  · exact (reads_unescapeTag _ _).bind fun _ _ => .ok _

theorem reads_tagHandle (c : Cursor) : Reads (tagHandle c) := by
  unfold tagHandle
  split
  · split
    · exact .ok _
    · dsimp only
      split
      · exact .ok _
      · exact reads_malformed
  · exact reads_malformed

theorem reads_tagToken (c : Cursor) : Reads (tagToken c) := by
  have hend : ∀ (t : Token) (c : Cursor), Reads
      (if endsField c.rest then pure (t, c) else .error .malformed) :=
    fun _ _ => .ite (.ok _) reads_malformed
  refine .ite ?_ (.ite (hend _ _) (.ite ?_ ?_))
  · refine (reads_tagText _).bind fun _ _ => ?_
    exact .ite (hend _ _) (reads_malformed.bind fun _ _ => hend _ _)
  · exact (reads_tagHandle _).bind fun _ _ => (reads_tagText _).bind fun _ _ => hend _ _
  · exact (reads_tagText _).bind fun _ _ => hend _ _

theorem reads_anchorName (c : Cursor) : Reads (anchorName c) := by
  unfold anchorName
  dsimp only
  split
  · exact reads_malformed
  · split
    · exact .ok _
    · exact reads_malformed

theorem reads_versionNumber (c : Cursor) : Reads (versionNumber c) := by
  unfold versionNumber
  dsimp only
  split
  · exact reads_malformed
  · split
    · next hlong => exact .error (.version hlong)
    · exact .ok _

theorem reads_directiveToken (c : Cursor) : Reads (directiveToken c) := by
  have hend : ∀ (d : Directive) (c : Cursor), Reads (do
      let c ← restOfLine c
      pure (Token.directive d, c)) := fun _ _ => (reads_restOfLine _).bind fun _ _ => .ok _
  unfold directiveToken
  refine .ite reads_malformed (.ite ?_ (.ite ?_ (hend _ _)))
  · refine (reads_versionNumber _).bind fun _ _ => .ite ?_ reads_malformed
    refine (reads_versionNumber _).bind fun _ _ => .ite (hend _ _) reads_malformed
  · refine (reads_tagHandle _).bind fun _ _ => .ite ?_ reads_malformed
    exact (reads_tagText _).bind fun _ _ => .ite (hend _ _) reads_malformed

/-! ## Tokens -/

theorem reads_dropStale (x : Lexer) : Reads x.dropStale := by
  unfold dropStale
  split
  · exact reads_malformed
  · exact .ok _

theorem reads_dropCandidate (x : Lexer) : Reads x.dropCandidate := by
  unfold dropCandidate
  split
  · split
    · exact reads_malformed
    · exact .ok _
  · exact .ok _

theorem reads_noteCandidate (x : Lexer) : Reads x.noteCandidate := by
  unfold noteCandidate
  split
  · exact x.reads_dropCandidate.bind fun _ _ => .ok _
  · exact .ok _

theorem reads_endBlocks (x : Lexer) : Reads x.endBlocks :=
  (reads_dropCandidate _).bind fun _ _ => .ok _

theorem reads_openBracket (x : Lexer) (t : Token) : Reads (x.openBracket t) :=
  x.reads_noteCandidate.bind fun _ _ => .ok _

theorem reads_closeBracket (x : Lexer) (t : Token) : Reads (x.closeBracket t) := by
  refine x.reads_dropCandidate.bind fun _ _ => ?_
  dsimp only
  split
  · exact .ok _
  · exact reads_malformed

theorem reads_flowEntry (x : Lexer) : Reads x.flowEntry :=
  (reads_dropCandidate _).bind fun _ _ => .ok _

theorem reads_blockEntry (x : Lexer) : Reads x.blockEntry := by
  unfold blockEntry
  split
  · exact reads_malformed
  · exact (reads_dropCandidate _).bind fun _ _ => .ok _

theorem reads_explicitKey (x : Lexer) : Reads x.explicitKey := by
  unfold explicitKey
  split
  · exact reads_malformed
  · exact (reads_dropCandidate _).bind fun _ _ => .ok _

theorem reads_valueMark (x : Lexer) : Reads x.valueMark := by
  unfold valueMark
  split
  · exact .ok _
  · split
    · exact reads_malformed
    · exact (reads_dropCandidate _).bind fun _ _ => .ok _

theorem reads_possibleKey (x : Lexer) {read : Cursor → Except ReadError (Token × Cursor)}
    (hread : ∀ c, Reads (read c)) : Reads (x.possibleKey read) :=
  x.reads_noteCandidate.bind fun _ _ => (hread _).bind fun _ _ => .ok _

theorem reads_plain (x : Lexer) : Reads x.plain :=
  x.reads_noteCandidate.bind fun _ _ => .ok _

theorem reads_block (folded : Bool) (x : Lexer) : Reads (block folded x) :=
  (reads_dropCandidate _).bind fun _ _ => (reads_blockScalar _ _ _).bind fun _ _ => .ok _

theorem reads_token (x : Lexer) (c : Char) (rest : List Char) : Reads (x.token c rest) := by
  unfold token
  refine .ite ?_ (.ite ?_ (.ite ?_ (.ite (x.reads_openBracket _) (.ite (x.reads_openBracket _)
    (.ite (x.reads_closeBracket _) (.ite (x.reads_closeBracket _) (.ite x.reads_flowEntry
    (.ite x.reads_blockEntry (.ite x.reads_explicitKey (.ite x.reads_valueMark (.ite ?_ (.ite ?_
    (.ite (x.reads_possibleKey reads_tagToken) (.ite (reads_block false x) (.ite (reads_block true x)
    (.ite ?_ (.ite ?_ (.ite x.reads_plain reads_malformed))))))))))))))))))
  · exact x.reads_endBlocks.bind fun _ _ => (reads_directiveToken _).bind fun _ _ => .ok _
  · exact x.reads_endBlocks.bind fun _ _ => .ok _
  · exact x.reads_endBlocks.bind fun _ _ => .ok _
  · exact x.reads_possibleKey fun c => (reads_anchorName c).map
  · exact x.reads_possibleKey fun c => (reads_anchorName c).map
  · exact x.reads_possibleKey fun c => (reads_quotedScalar false c).map
  · exact x.reads_possibleKey fun c => (reads_quotedScalar true c).map

/-- The fault behind a text's tokens is one of a scalar. -/
theorem run_fault (fuel : Nat) (x : Lexer) :
    Reads (x.run fuel) ∧ ∀ r, x.run fuel = .ok r → ∀ f, r.fault = some f → ScalarFault f := by
  induction fuel generalizing x with
  | zero => exact ⟨reads_malformed, nofun⟩
  | succ fuel ih =>
    rw [run]
    constructor
    · refine (reads_dropStale _).bind fun y _ => ?_
      dsimp only
      split
      · exact (reads_dropCandidate _).bind fun _ _ => .ok _
      · split
        · exact (ih _).1
        · exact reads_malformed
        · exact .ok _
    · intro r hr
      obtain ⟨y, -, hr⟩ := bind_eq_ok.mp hr
      dsimp only at hr
      split at hr
      · obtain ⟨_, -, hr⟩ := bind_eq_ok.mp hr
        obtain rfl := Except.ok.inj hr
        exact fun _ h => nomatch h
      · split at hr
        · exact (ih _).2 r hr
        · cases hr
        · next htoken =>
          obtain rfl := Except.ok.inj hr
          rintro f' hf'
          obtain rfl := Option.some.inj hf'
          exact reads_token _ _ _ _ htoken

end Lexer

/-! ## Nodes -/

/-- A step that reads nodes only fails on malformed tokens and on the fault behind them, which
    stays the same. -/
def Composes {α : Type} (m : Compose α) : Prop :=
  ∀ s, (∀ f, s.fault = some f → ScalarFault f) →
    Reads (m s) ∧ ∀ a s', m s = .ok (a, s') → s'.fault = s.fault

section rules
variable {α β : Type} {m : Compose α}

theorem Composes.pure (a : α) : Composes (pure a : Compose α) :=
  fun _ _ => ⟨.ok _, fun _ _ h => (Prod.mk.inj (Except.ok.inj h)).2 ▸ rfl⟩

theorem Composes.malformed : Composes (Compose.malformed : Compose α) :=
  fun _ _ => ⟨reads_malformed, nofun⟩

theorem Composes.bind {k : α → Compose β} (hm : Composes m) (hk : ∀ a, Composes (k a)) :
    Composes (m >>= k) := by
  intro s hs
  obtain ⟨hreads, hstill⟩ := hm s hs
  constructor
  · refine hreads.bind fun (a, s') ha => ?_
    have hfault := hstill a s' ha
    exact (hk a s' (hfault ▸ hs)).1
  · intro b s'' h
    obtain ⟨⟨a, s'⟩, ha, hb⟩ := bind_eq_ok.mp h
    have hfault := hstill a s' ha
    exact ((hk a s' (hfault ▸ hs)).2 b s'' hb).trans hfault

theorem Composes.ite {c : Prop} [Decidable c] {n : Compose α} (hm : Composes m)
    (hn : Composes n) : Composes (if c then m else n) := by
  split
  · exact hm
  · exact hn

theorem Composes.get : Composes (get : Compose Composer) :=
  fun _ _ => ⟨.ok _, fun _ _ h => (Prod.mk.inj (Except.ok.inj h)).2 ▸ rfl⟩

theorem Composes.modify {g : Composer → Composer} (hg : ∀ s, (g s).fault = s.fault) :
    Composes (modify g : Compose PUnit) :=
  fun s _ => ⟨.ok _, fun _ _ h => (Prod.mk.inj (Except.ok.inj h)).2 ▸ hg s⟩

end rules

namespace Compose

theorem composes_peek : Composes peek := by
  intro s hs
  unfold peek
  split
  · next f _ hf => exact ⟨.error (hs f hf), fun _ _ h => nomatch h⟩
  · refine ⟨.ok _, fun a s' h => ?_⟩
    obtain ⟨-, rfl⟩ := Prod.mk.inj (Except.ok.inj h)
    rfl

theorem composes_advance : Composes advance := .modify fun _ => rfl

theorem composes_isNext (ts : List Token) : Composes (isNext ts) := by
  refine composes_peek.bind fun t => ?_
  cases t <;> exact .pure _

theorem composes_accept (t : Token) : Composes (accept t) :=
  (composes_isNext _).bind fun _ =>
    .ite (composes_advance.bind fun _ => .pure _) (.pure _)

theorem composes_expect (t : Token) : Composes (expect t) :=
  (composes_accept _).bind fun _ => .ite .malformed (.pure _)

theorem composes_freshId : Composes freshId :=
  fun _ _ => ⟨.ok _, fun _ _ h => (Prod.mk.inj (Except.ok.inj h)).2 ▸ rfl⟩

theorem composes_fullTag (handle : Option (List Char)) (suffix : List Char) :
    Composes (fullTag handle suffix) := by
  unfold fullTag
  split
  · exact .pure _
  · refine .bind .get fun s => ?_
    split
    · exact .pure _
    · exact .malformed

theorem composes_properties : Composes properties := by
  refine composes_peek.bind fun t => ?_
  split
  · refine composes_advance.bind fun _ => composes_peek.bind fun t => ?_
    split
    · exact composes_advance.bind fun _ => (composes_fullTag _ _).bind fun _ => .pure _
    · exact .pure _
  · refine composes_advance.bind fun _ => composes_peek.bind fun t => ?_
    split
    · exact composes_advance.bind fun _ => (composes_fullTag _ _).bind fun _ => .pure _
    · exact (composes_fullTag _ _).bind fun _ => .pure _
  · exact .pure _

theorem composes_announce (anchor : Option (List Char)) : Composes (announce anchor) := by
  cases anchor with
  | none => exact .pure _
  | some name =>
    intro s _
    change Reads ((if s.anchors.any (·.1 == name) then malformed
      else set { s with anchors := (name, none) :: s.anchors } : Compose Unit) s) ∧ ∀ a s',
      (if s.anchors.any (·.1 == name) then malformed
        else set { s with anchors := (name, none) :: s.anchors } : Compose Unit) s =
          .ok (a, s') → s'.fault = s.fault
    split
    · exact ⟨reads_malformed, nofun⟩
    · exact ⟨.ok _, fun _ _ h => (Prod.mk.inj (Except.ok.inj h)).2 ▸ rfl⟩

theorem composes_bindAnchor (anchor : Option (List Char)) (n : Node) :
    Composes (bindAnchor anchor n) := by
  cases anchor with
  | none => exact .pure _
  | some name => exact .bind (.modify fun _ => rfl) fun _ => .pure _

theorem composes_aliased (name : List Char) : Composes (aliased name) := by
  refine .bind .get fun s => ?_
  split
  · exact .pure _
  · exact .malformed

theorem composes_absent (p : Properties) : Composes (absent p) :=
  (composes_announce _).bind fun _ => composes_freshId.bind fun _ => composes_bindAnchor _ _

theorem composes_sequenceNode (p : Properties) {items : Compose (List Node)}
    (hitems : Composes items) : Composes (sequenceNode p items) :=
  (composes_announce _).bind fun _ => composes_freshId.bind fun _ => hitems.bind fun _ =>
    composes_bindAnchor _ _

theorem composes_mappingNode (p : Properties) {entries : Compose (List (Node × Node))}
    (hentries : Composes entries) : Composes (mappingNode p entries) :=
  (composes_announce _).bind fun _ => composes_freshId.bind fun _ => hentries.bind fun _ =>
    composes_bindAnchor _ _

/-- What the readers of nodes do with some number of steps. -/
structure NodesCompose (fuel : Nat) : Prop where
  node : ∀ content, Composes (node fuel content)
  blockItems : Composes (blockItems fuel)
  plainItems : Composes (plainItems fuel)
  blockEntries : Composes (blockEntries fuel)
  flowItems : ∀ first, Composes (flowItems fuel first)
  singleEntry : Composes (singleEntry fuel)
  flowEntries : ∀ first, Composes (flowEntries fuel first)

section next
variable {fuel : Nat} {α : Type} {k : Node → Compose α}

/-- A part that may be left out. -/
theorem NodesCompose.part (h : NodesCompose fuel) (ts : List Token) (content : Content)
    (hk : ∀ n, Composes (k n)) : Composes (do
      if ← isNext ts then absent .empty >>= k else Compose.node fuel content >>= k) :=
  (composes_isNext ts).bind fun _ => .ite ((composes_absent _).bind hk) ((h.node content).bind hk)

/-- The value of an entry, with its mark or left out. -/
theorem NodesCompose.value (h : NodesCompose fuel) (ts : List Token) (content : Content)
    (hk : ∀ n, Composes (k n)) : Composes (do
      if ← accept .value then
        if ← isNext ts then absent .empty >>= k else Compose.node fuel content >>= k
      else absent .empty >>= k) :=
  (composes_accept _).bind fun _ => .ite (h.part ts content hk) ((composes_absent _).bind hk)

theorem NodesCompose.next (h : NodesCompose fuel) : NodesCompose (fuel + 1) where
  node content := by
    have hblock : ∀ (p : Properties) {m : Compose Node}, Composes m →
        Composes (if content = .flow then (if p.isEmpty then malformed else absent p) else m) :=
      fun p _ hm => .ite (.ite .malformed (composes_absent p)) hm
    rw [Compose.node]
    refine composes_peek.bind fun t => ?_
    split
    · exact composes_advance.bind fun _ => composes_aliased _
    · refine composes_properties.bind fun p => composes_peek.bind fun t => ?_
      split
      · exact composes_advance.bind fun _ => (composes_announce _).bind fun _ =>
          composes_freshId.bind fun _ => composes_bindAnchor _ _
      · exact composes_advance.bind fun _ => composes_sequenceNode p (h.flowItems true)
      · exact composes_advance.bind fun _ => composes_mappingNode p (h.flowEntries true)
      · exact .ite (composes_sequenceNode p h.plainItems) (.ite .malformed (composes_absent p))
      · exact hblock p (composes_advance.bind fun _ => composes_sequenceNode p h.blockItems)
      · exact hblock p (composes_advance.bind fun _ => composes_mappingNode p h.blockEntries)
      · exact .ite .malformed (composes_absent p)
  blockItems := by
    rw [Compose.blockItems]
    exact (composes_accept _).bind fun _ => .ite
      (h.part _ _ fun _ => h.blockItems.bind fun _ => .pure _)
      ((composes_expect _).bind fun _ => .pure _)
  plainItems := by
    rw [Compose.plainItems]
    exact (composes_accept _).bind fun _ => .ite
      (h.part _ _ fun _ => h.plainItems.bind fun _ => .pure _) (.pure _)
  blockEntries := by
    rw [Compose.blockEntries]
    exact (composes_accept _).bind fun _ => .ite
      (h.part _ _ fun _ => h.value _ _ fun _ => h.blockEntries.bind fun _ => .pure _)
      ((composes_expect _).bind fun _ => .pure _)
  flowItems first := by
    have hitem : Composes (do
        if ← isNext [.key] then
          let x ← mappingNode .empty (Compose.singleEntry fuel)
          pure (x :: (← Compose.flowItems fuel false))
        else if ← accept .flowSequenceEnd then pure []
        else
          let x ← Compose.node fuel .flow
          pure (x :: (← Compose.flowItems fuel false))) :=
      (composes_isNext _).bind fun _ => .ite
        ((composes_mappingNode _ h.singleEntry).bind fun _ => (h.flowItems false).bind fun _ =>
          .pure _)
        ((composes_accept _).bind fun _ => .ite (.pure _)
          ((h.node _).bind fun _ => (h.flowItems false).bind fun _ => .pure _))
    rw [Compose.flowItems]
    exact (composes_accept _).bind fun _ => .ite (.pure _)
      (.ite ((composes_expect _).bind fun _ => hitem) hitem)
  singleEntry := by
    rw [Compose.singleEntry]
    exact composes_advance.bind fun _ => h.part _ _ fun _ => h.value _ _ fun _ => .pure _
  flowEntries first := by
    have hentry : Composes (do
        if ← accept .key then
          let k ← if ← isNext [.value, .flowEntry, .flowMappingEnd] then absent .empty
            else Compose.node fuel .flow
          let v ← if ← accept .value then
              if ← isNext [.flowEntry, .flowMappingEnd] then absent .empty
              else Compose.node fuel .flow
            else absent .empty
          pure ((k, v) :: (← Compose.flowEntries fuel false))
        else if ← accept .flowMappingEnd then pure []
        else
          let k ← Compose.node fuel .flow
          let v ← absent .empty
          pure ((k, v) :: (← Compose.flowEntries fuel false))) :=
      (composes_accept _).bind fun _ => .ite
        (h.part _ _ fun _ => h.value _ _ fun _ => (h.flowEntries false).bind fun _ => .pure _)
        ((composes_accept _).bind fun _ => .ite (.pure _)
          ((h.node _).bind fun _ => (composes_absent _).bind fun _ =>
            (h.flowEntries false).bind fun _ => .pure _))
    rw [Compose.flowEntries]
    exact (composes_accept _).bind fun _ => .ite (.pure _)
      (.ite ((composes_expect _).bind fun _ => hentry) hentry)

end next

theorem nodesCompose (fuel : Nat) : NodesCompose fuel := by
  induction fuel with
  | zero =>
    constructor
    · exact fun _ => .malformed
    · exact .malformed
    · exact .malformed
    · exact .malformed
    · exact fun _ => .malformed
    · exact .malformed
    · exact fun _ => .malformed
  | succ fuel ih => exact ih.next

theorem composes_directives (fuel : Nat) (versioned : Bool)
    (handles : List (List Char × List Char)) : Composes (directives fuel versioned handles) := by
  induction fuel generalizing versioned handles with
  | zero => exact .malformed
  | succ fuel ih =>
    rw [directives]
    refine composes_peek.bind fun t => ?_
    split
    · refine composes_advance.bind fun _ => ?_
      split
      · exact .ite .malformed (ih _ _)
      · exact .ite .malformed (ih _ _)
      · exact ih _ _
    · exact .modify fun _ => rfl

theorem composes_documentEnds (fuel : Nat) : Composes (documentEnds fuel) := by
  induction fuel with
  | zero => exact .pure _
  | succ fuel ih =>
    rw [documentEnds]
    exact (composes_accept _).bind fun _ => .ite ih (.pure _)

theorem composes_document (fuel : Nat) : Composes (document fuel) := by
  have hroot : ∀ root : Node, Composes (do
      documentEnds fuel
      if (← peek).isSome then
        directives fuel false []
        malformed
      else pure (some root)) := fun root =>
    (composes_documentEnds _).bind fun _ => composes_peek.bind fun _ =>
      .ite ((composes_directives _ _ _).bind fun _ => .malformed) (.pure _)
  unfold document
  refine composes_peek.bind fun t => ?_
  split
  · exact .pure _
  · refine .ite ?_ (((nodesCompose fuel).node _).bind fun _ => hroot _)
    refine (composes_directives _ _ _).bind fun _ => (composes_expect _).bind fun _ =>
      composes_peek.bind fun _ => ?_
    split
    iterate 4 exact (composes_absent _).bind fun _ => hroot _
    · exact ((nodesCompose fuel).node _).bind fun _ => hroot _

end Compose

/-- A text's tokens have a document, or they are malformed, or the fault behind them shows. -/
theorem reads_ofTokens {run : TokenRun} (hrun : ∀ f, run.fault = some f → ScalarFault f) :
    Reads (Document.ofTokens run) := by
  intro e h
  unfold Document.ofTokens at h
  dsimp only at h
  split at h
  · next he =>
    obtain rfl := Except.error.inj h
    exact (Compose.composes_document _ _ hrun).1 _ he
  · cases h

/-! ## Values -/

theorem reads_scalarValue (id : Nat) (tag : Tag) (text : String) :
    Reads (scalarValue id tag text) := by
  intro e h
  match e with
  | .malformed => trivial
  | .fault f => exact .value h

theorem Builder.reads_scalarText (b : Builder) (fuel : Nat) (n : Node) :
    Reads (b.scalarText fuel n) := by
  fun_induction b.scalarText fuel n with
  | case1 | case4 | case5 => exact reads_malformed
  | case2 => exact .ok _
  | case3 _ _ _ _ _ _ ih => exact ih

theorem Builder.reads_scalar (b : Builder) (n : Node) : Reads (b.scalar n) := by
  refine (b.reads_scalarText _ _).bind fun text _ => ?_
  split
  · exact .error .time
  · exact reads_scalarValue _ _ _

end Regen.Yaml
