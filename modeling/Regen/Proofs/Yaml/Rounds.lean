import Mathlib.Data.List.Basic
import Regen.Yaml.Build

/-! # Rounds

    The nodes of a document without anchors have distinct numbers, and those of a node's parts are
    greater than its own.  In every round the parts of the collections that wait are met, so what
    waits afterwards has greater numbers, and when nothing waits any more all nodes are met. -/

namespace Regen.Yaml

/-! ## Nodes -/

namespace Node

/-- The parts of a node. -/
def parts : Node → List Node
  | .scalar .. => []
  | .sequence _ _ items => items
  | .mapping _ _ es => es.flatMap fun e => [e.1, e.2]

def isCollection : Node → Bool
  | .scalar .. => false
  | _ => true

/-- A node stands within another one. -/
inductive Within : Node → Node → Prop
  | refl (n : Node) : Within n n
  | part {m c n : Node} (hc : c ∈ n.parts) (h : Within m c) : Within m n

theorem Within.trans {l m n : Node} (h : Within l m) (h' : Within m n) : Within l n := by
  induction h' with
  | refl => exact h
  | part hc _ ih => exact .part hc ih

theorem Within.of_part {c m n : Node} (h : Within m n) (hc : c ∈ m.parts) : Within c n :=
  .trans (.part hc (.refl c)) h

/-- A node whose tag says what it is: a scalar with a value, a list, or a mapping whose keys are
    texts. -/
def IsPlain : Node → Prop
  | .scalar i tag text => tag.isScalar = true ∧ ∃ v, scalarValue i tag text = .ok v
  | .sequence _ tag _ => tag = .seq
  | .mapping _ tag es => tag = .map ∧ ∀ e ∈ es, ∃ i text, e.1 = .scalar i .str text

/-- **The nodes of a document without anchors**: plain nodes with numbers from one up to another,
    each of them once, those of the parts behind that of the whole. -/
structure IsNumbered (root : Node) (first size : Nat) : Prop where
  least : ∀ n : Node, n.Within root → first ≤ n.id
  bound : ∀ n : Node, n.Within root → n.id < size
  unique : ∀ m n : Node, m.Within root → n.Within root → m.id = n.id → m = n
  later : ∀ n : Node, n.Within root → ∀ c ∈ n.parts, n.id < c.id
  plain : ∀ n : Node, n.Within root → n.IsPlain

/-- What becomes of a plain node. -/
def met : Node → Met
  | .scalar i tag text =>
    match scalarValue i tag text with
    | .ok v => .scalar v
    | .error _ => .collection
  | _ => .collection

end Node

/-! ## States -/

namespace Builder

/-- What became of the node with a number. -/
def metAt (b : Builder) (i : Nat) : Option Met := b.met.getD i none

/-- **A state on the way through a document.**  Whatever has been met became what its node says,
    and a collection that has been met waits, or is pending in this round, or all its parts have
    been met. -/
structure Sound (root : Node) (size : Nat) (pending : List Node) (least : Nat) (b : Builder) :
    Prop where
  size : b.met.size = size
  spread : b.spread = []
  plainKeys : b.plainKeys = []
  met : ∀ n : Node, n.Within root → b.metAt n.id = none ∨ b.metAt n.id = some n.met
  closed : ∀ n : Node, n.Within root → n.isCollection = true → b.metAt n.id ≠ none →
    n ∈ b.waiting ∨ n ∈ pending ∨ ∀ c ∈ n.parts, b.metAt c.id ≠ none
  waiting : ∀ n ∈ b.waiting, n.Within root ∧ n.isCollection = true ∧ least ≤ n.id

end Builder

/-! ## Steps -/

namespace Build

section steps
variable {α β : Type} {b b' : Builder} {root n : Node} {first size least : Nat}
  {pending : List Node}

theorem bind_of_ok {m : Build α} {x : α} (h : m b = .ok (x, b')) (k : α → Build β) :
    (m >>= k) b = k x b' := by
  show (m b >>= fun p => k p.1 p.2) = _
  rw [h]
  rfl

/-- What has been met stays met. -/
def Grows (b b' : Builder) : Prop := ∀ i, b.metAt i ≠ none → b'.metAt i ≠ none

theorem Grows.refl (b : Builder) : Grows b b := fun _ h => h

theorem Grows.trans {b'' : Builder} (h : Grows b b') (h' : Grows b' b'') : Grows b b'' :=
  fun i hi => h' i (h i hi)

/-- The state behind a node that is new. -/
def noted (b : Builder) (n : Node) : Builder :=
  { b with
    met := b.met.setIfInBounds n.id (some n.met)
    waiting := if n.isCollection then n :: b.waiting else b.waiting }

theorem metAt_noted (b : Builder) (n : Node) (i : Nat) :
    (noted b n).metAt i = if n.id = i ∧ i < b.met.size then some n.met else b.metAt i := by
  simp only [Builder.metAt, noted, Array.getD_eq_getD_getElem?, Array.getElem?_setIfInBounds]
  by_cases hi : n.id = i
  · subst hi
    by_cases hbound : n.id < b.met.size <;> simp [hbound]
  · simp [hi]

theorem grows_noted (b : Builder) (n : Node) : Grows b (noted b n) := by
  intro i hi
  rw [metAt_noted]
  split
  · exact Option.some_ne_none _
  · exact hi

theorem sound_noted (hroot : root.IsNumbered first size) (hb : b.Sound root size pending least)
    (hn : n.Within root) (hleast : least ≤ n.id) : (noted b n).Sound root size pending least where
  size := (Array.size_setIfInBounds).trans hb.size
  spread := hb.spread
  plainKeys := hb.plainKeys
  met m hm := by
    rw [metAt_noted]
    split
    · next h =>
      rw [hroot.unique n m hn hm h.1]
      exact .inr rfl
    · exact hb.met m hm
  closed m hm hcollection hmet := by
    rw [metAt_noted] at hmet
    have hgrows := grows_noted b n
    by_cases h : n.id = m.id
    · obtain rfl := hroot.unique n m hn hm h
      left
      rw [noted, if_pos hcollection]
      exact List.mem_cons_self
    · rw [if_neg fun h' => h h'.1] at hmet
      refine (hb.closed m hm hcollection hmet).imp (fun hwaits => ?_)
        (Or.imp id fun hparts c hc => hgrows _ (hparts c hc))
      rw [noted]
      dsimp only
      split
      · exact List.mem_cons_of_mem _ hwaits
      · exact hwaits
  waiting m hm := by
    rw [noted] at hm
    dsimp only at hm
    split at hm
    · next hcollection =>
      rcases List.mem_cons.mp hm with rfl | hm
      · exact ⟨hn, hcollection, hleast⟩
      · exact hb.waiting m hm
    · exact hb.waiting m hm

theorem tagOf_eq (hkeys : b.plainKeys = []) (n : Node) : b.tagOf n = n.tag := by
  simp [Builder.tagOf, hkeys]

/-- A scalar without a default has the value that its tag and its text say. -/
theorem scalar_eq_of_value {i : Nat} {tag : Tag} {text : String} {v : Value}
    (hkeys : b.plainKeys = []) (hbound : i < b.met.size) (hv : scalarValue i tag text = .ok v) :
    b.scalar (.scalar i tag text) = .ok v := by
  have htext : b.scalarText b.met.size (.scalar i tag text) = .ok text := by
    cases hsize : b.met.size with
    | zero => omega
    | succ size => rfl
  rw [Builder.scalar, tagOf_eq hkeys, htext]
  cases tag <;> exact hv

/-- What becomes of a node, by what is known of it. -/
theorem meet_eq (n : Node) (b : Builder) : meet n b = (match b.metAt n.id with
    | some m => pure m
    | none =>
      match b.tagOf n with
      | .unknown | .merge | .default => malformed
      | tag =>
        if tag.isScalar then do
          let m := Met.scalar (← b.scalar n)
          set { b with met := b.met.setIfInBounds n.id (some m) }
          pure m
        else do
          set { b with
            met := b.met.setIfInBounds n.id (some .collection), waiting := n :: b.waiting }
          pure .collection : Build Met) b :=
  rfl

theorem meet_known {m : Met} (h : b.metAt n.id = some m) : meet n b = .ok (m, b) := by
  rw [meet_eq]
  generalize b.metAt n.id = known at h ⊢
  subst h
  rfl

/-- A plain node that is new becomes what it says. -/
theorem meet_new (hkeys : b.plainKeys = []) (hnew : b.metAt n.id = none) (hplain : n.IsPlain)
    (hbound : n.id < b.met.size) : meet n b = .ok (n.met, noted b n) := by
  rw [meet_eq, hnew, tagOf_eq hkeys]
  cases n with
  | scalar i tag text =>
    obtain ⟨hscalar, v, hv⟩ := hplain
    have hvalue : b.scalar (.scalar i tag text) = .ok v := scalar_eq_of_value hkeys hbound hv
    have hlift : (liftM (b.scalar (.scalar i tag text)) : Build Value) b = .ok (v, b) := by
      show (b.scalar (.scalar i tag text) >>= fun a => pure (a, b)) = _
      rw [hvalue]
      rfl
    have hmet : (Node.scalar i tag text).met = .scalar v := by rw [Node.met, hv]
    rw [hmet, noted, hmet]
    dsimp only [Node.tag]
    split
    · cases hscalar
    · cases hscalar
    · cases hscalar
    · rw [if_pos hscalar, bind_of_ok hlift]
      rfl
  | sequence i tag items =>
    obtain rfl : tag = .seq := hplain
    rfl
  | mapping i tag es =>
    obtain ⟨rfl, -⟩ : tag = .map ∧ _ := hplain
    rfl

/-- **A node is met**: it becomes what it says, and a collection that is new waits. -/
theorem exists_meet (hroot : root.IsNumbered first size) (hb : b.Sound root size pending least)
    (hn : n.Within root) (hleast : least ≤ n.id) :
    ∃ b', meet n b = .ok (n.met, b') ∧ b'.Sound root size pending least ∧ Grows b b' ∧
      b'.metAt n.id ≠ none := by
  have hplain := hroot.plain n hn
  have hbound : n.id < b.met.size := hb.size ▸ hroot.bound n hn
  rcases hb.met n hn with hnew | hknown
  · refine ⟨noted b n, ?_, sound_noted hroot hb hn hleast, grows_noted b n, ?_⟩
    · exact meet_new hb.plainKeys hnew hplain hbound
    · rw [metAt_noted, if_pos ⟨rfl, hbound⟩]
      exact Option.some_ne_none _
  · refine ⟨b, meet_known hknown, hb, .refl b, ?_⟩
    rw [hknown]
    exact Option.some_ne_none _

/-- One step after the other: the invariant is kept, what has been met stays met, and so what each
    step has achieved is still so at the end. -/
theorem exists_forM (act : α → Build Unit) (Done : α → Builder → Prop) (xs : List α)
    {Inv : Builder → Prop} (hkept : ∀ x b b', Grows b b' → Done x b → Done x b')
    (hstep : ∀ x ∈ xs, ∀ b, Inv b → ∃ b', act x b = .ok ((), b') ∧ Inv b' ∧ Grows b b' ∧ Done x b')
    (hb : Inv b) :
    ∃ b', xs.forM act b = .ok ((), b') ∧ Inv b' ∧ Grows b b' ∧ ∀ x ∈ xs, Done x b' := by
  induction xs generalizing b with
  | nil => exact ⟨b, rfl, hb, .refl b, by simp⟩
  | cons x xs ih =>
    obtain ⟨c, hact, hc, hgrows, hdone⟩ := hstep x List.mem_cons_self b hb
    obtain ⟨d, hacts, hd, hgrows', hdone'⟩ :=
      ih (fun y hy => hstep y (List.mem_cons_of_mem _ hy)) hc
    refine ⟨d, ?_, hd, hgrows.trans hgrows', ?_⟩
    · show (act x >>= fun _ => xs.forM act) b = _
      rw [bind_of_ok hact, hacts]
    · rintro y (_ | ⟨_, hy⟩)
      · exact hkept x c d hgrows' hdone
      · exact hdone' y hy

/-- Entries whose keys are texts take nothing in. -/
theorem foldlM_entries {es : List (Node × Node)}
    (hkeys : ∀ e ∈ es, ∃ i text, e.1 = .scalar i .str text) (fuel : Nat)
    (met : Array (Option Met)) (waiting : List Node) (own : List (Node × Node)) :
    es.foldlM (m := Build) (fun (taken, own) (k, v) => do
      match (← get).tagOf k with
      | .merge =>
        match v with
        | .mapping .. => do pure (taken ++ (← spread fuel v), own)
        | .sequence _ _ items => do
          pure (taken ++ (← items.mapM (spread fuel)).reverse.flatten, own)
        | .scalar .. => malformed
      | .default =>
        modify fun b => { b with plainKeys := k.id :: b.plainKeys }
        pure (taken, (k, v) :: own)
      | _ => pure (taken, (k, v) :: own)) (([] : List (Node × Node)), own) ⟨met, waiting, [], []⟩ =
    .ok (([], es.reverse ++ own), ⟨met, waiting, [], []⟩) := by
  induction es generalizing own with
  | nil => rfl
  | cons e es ih =>
    obtain ⟨j, text, hkey⟩ := hkeys e List.mem_cons_self
    obtain ⟨k, v⟩ := e
    dsimp only at hkey
    subst hkey
    rw [List.foldlM_cons, List.reverse_cons, List.append_assoc]
    exact ih (fun e he => hkeys e (List.mem_cons_of_mem _ he)) _

/-- Nothing is taken in by a mapping whose keys are texts. -/
theorem spread_of_plain {i : Nat} {es : List (Node × Node)} (hspread : b.spread = [])
    (hplain : b.plainKeys = []) (hkeys : ∀ e ∈ es, ∃ i text, e.1 = .scalar i .str text)
    (fuel : Nat) : spread (fuel + 1) (.mapping i .map es) b = .ok (es, b) := by
  obtain ⟨met, waiting, taken, plainKeys⟩ := b
  dsimp only at hspread hplain
  subst hspread hplain
  have hlength : ¬(es.reverse ++ []).length < es.length := by simp
  have hget (b : Builder) : (get : Build Builder) b = .ok (b, b) := rfl
  rw [spread, bind_of_ok (hget _)]
  refine (bind_of_ok (foldlM_entries hkeys fuel met waiting []) _).trans ?_
  show (if (es.reverse ++ []).length < es.length then _ else pure es : Build _) _ = _
  rw [if_neg hlength]
  rfl

/-- Meet a node, whatever it is. -/
def visit (n : Node) : Build Unit := do let _ ← meet n

/-- Meet a key and the value behind it. -/
def visitEntry (e : Node × Node) : Build Unit := do
  meetKey e.1
  visit e.2

theorem meetParts_sequence {i : Nat} {items : List Node} (hplain : b.plainKeys = []) :
    meetParts (.sequence i .seq items) b = items.forM visit b := by
  obtain ⟨met, waiting, taken, plainKeys⟩ := b
  dsimp only at hplain
  subst hplain
  rfl

theorem meetParts_mapping {i : Nat} {es : List (Node × Node)} (hspread : b.spread = [])
    (hplain : b.plainKeys = []) (hkeys : ∀ e ∈ es, ∃ i text, e.1 = .scalar i .str text)
    (hsize : 0 < b.met.size) :
    meetParts (.mapping i .map es) b =
      es.forM visitEntry b := by
  obtain ⟨fuel, hfuel⟩ : ∃ fuel, b.met.size = fuel + 1 := ⟨b.met.size - 1, by omega⟩
  have hunfold : meetParts (.mapping i .map es) b =
      (spread b.met.size (.mapping i .map es) >>= fun es => es.forM visitEntry) b := by
    obtain ⟨met, waiting, taken, plainKeys⟩ := b
    dsimp only at hplain
    subst hplain
    rfl
  rw [hunfold, hfuel, bind_of_ok (spread_of_plain hspread hplain hkeys fuel)]

/-- All parts of a node have been met. -/
def HasParts (n : Node) (b : Builder) : Prop := ∀ c ∈ n.parts, b.metAt c.id ≠ none

/-- **The parts of a collection are met.** -/
theorem exists_meetParts (hroot : root.IsNumbered first size) (hb : b.Sound root size pending least)
    (hn : n.Within root) (hcollection : n.isCollection = true) (hleast : least ≤ n.id + 1) :
    ∃ b', meetParts n b = .ok ((), b') ∧ b'.Sound root size pending least ∧ Grows b b' ∧
      HasParts n b' := by
  have hplain := hroot.plain n hn
  have hpart : ∀ c ∈ n.parts, ∀ b : Builder, b.Sound root size pending least →
      ∃ b', meet c b = .ok (c.met, b') ∧ b'.Sound root size pending least ∧ Grows b b' ∧
        b'.metAt c.id ≠ none := fun c hc b hb =>
    exists_meet hroot hb (hn.of_part hc) (Nat.le_trans hleast (hroot.later n hn c hc))
  have hbound : 0 < b.met.size := hb.size ▸ Nat.zero_lt_of_lt (hroot.bound n hn)
  cases n with
  | scalar i tag text => cases hcollection
  | sequence i tag items =>
    obtain rfl : tag = .seq := hplain
    obtain ⟨b', hrun, hb', hgrows, hmet⟩ := exists_forM visit
      (fun c b => b.metAt c.id ≠ none) items (fun c b b' hgrows h => hgrows _ h)
      (fun c hc b hb => by
        obtain ⟨b', hmeet, h⟩ := hpart c hc b hb
        exact ⟨b', by rw [visit, bind_of_ok hmeet]; rfl, h⟩)
      hb
    exact ⟨b', (meetParts_sequence hb.plainKeys).trans hrun, hb', hgrows, hmet⟩
  | mapping i tag es =>
    obtain ⟨rfl, hkeys⟩ := hplain
    obtain ⟨b', hrun, hb', hgrows, hmet⟩ := exists_forM visitEntry
      (fun e b => b.metAt e.1.id ≠ none ∧ b.metAt e.2.id ≠ none) es
      (fun e b b' hgrows h => ⟨hgrows _ h.1, hgrows _ h.2⟩)
      (fun e he b hb => by
        have hkey : e.1 ∈ es.flatMap fun e => [e.1, e.2] :=
          List.mem_flatMap.mpr ⟨e, he, List.mem_cons_self⟩
        have hvalue : e.2 ∈ es.flatMap fun e => [e.1, e.2] :=
          List.mem_flatMap.mpr ⟨e, he, List.mem_cons_of_mem _ List.mem_cons_self⟩
        obtain ⟨b', hmeet, hb', hgrows, hmet⟩ := hpart e.1 hkey b hb
        obtain ⟨b'', hmeet', hb'', hgrows', hmet'⟩ := hpart e.2 hvalue b' hb'
        obtain ⟨j, text, htext⟩ := hkeys e he
        have hmeetKey : meetKey e.1 b = .ok ((), b') := by
          rw [meetKey, bind_of_ok hmeet, htext]
          rfl
        refine ⟨b'', ?_, hb'', hgrows.trans hgrows', hgrows' _ hmet, hmet'⟩
        rw [visitEntry, bind_of_ok hmeetKey, visit, bind_of_ok hmeet']
        rfl)
      hb
    refine ⟨b', (meetParts_mapping hb.spread hb.plainKeys hkeys hbound).trans hrun, hb', hgrows,
      fun c hc => ?_⟩
    obtain ⟨e, he, hc⟩ := List.mem_flatMap.mp hc
    rcases List.mem_pair.mp hc with rfl | rfl
    · exact (hmet e he).1
    · exact (hmet e he).2

/-- **A round**: the parts of what waits are met, and what waits afterwards comes later. -/
theorem exists_round (hroot : root.IsNumbered first size) (hb : b.Sound root size [] least) :
    ∃ b', b.waiting.reverse.forM meetParts { b with waiting := [] } = .ok ((), b') ∧
      b'.Sound root size [] (least + 1) ∧ Grows b b' := by
  have hbegun : ({ b with waiting := [] } : Builder).Sound root size b.waiting.reverse (least + 1) :=
    { hb with
      closed := fun n hn hcollection hmet =>
        (hb.closed n hn hcollection hmet).elim
          (fun h => .inr (.inl (List.mem_reverse.mpr h)))
          (fun h => .inr (.inr (h.resolve_left (List.not_mem_nil))))
      waiting := fun n hn => by cases hn }
  obtain ⟨b', hrun, hb', hgrows, hparts⟩ := exists_forM meetParts HasParts b.waiting.reverse
    (fun n b b' hgrows h c hc => hgrows _ (h c hc))
    (fun n hn c hc => by
      obtain ⟨hwithin, hcollection, hle⟩ := hb.waiting n (List.mem_reverse.mp hn)
      exact exists_meetParts hroot hc hwithin hcollection (Nat.succ_le_succ hle))
    hbegun
  exact ⟨b', hrun, { hb' with
    closed := fun n hn hcollection hmet =>
      (hb'.closed n hn hcollection hmet).imp id fun h =>
        .inr (h.elim (hparts n) id) }, hgrows⟩

/-- **All rounds**: when every round's numbers are greater than those of the round before, nothing
    waits after as many rounds as there are numbers left. -/
theorem exists_rounds (hroot : root.IsNumbered first size) (fuel : Nat) (hfuel : size ≤ least + fuel)
    (hb : b.Sound root size [] least) :
    ∃ b' least', rounds fuel b = .ok ((), b') ∧ b'.Sound root size [] least' ∧ Grows b b' ∧
      b'.waiting = [] := by
  induction fuel generalizing b least with
  | zero =>
    refine ⟨b, least, rfl, hb, .refl b, List.eq_nil_iff_forall_not_mem.mpr fun n hn => ?_⟩
    obtain ⟨hwithin, -, hle⟩ := hb.waiting n hn
    have := hroot.bound n hwithin
    omega
  | succ fuel ih =>
    cases hwaiting : b.waiting with
    | nil =>
      refine ⟨b, least, ?_, hb, .refl b, hwaiting⟩
      show (if !b.waiting.isEmpty then _ else pure () : Build Unit) b = _
      rw [hwaiting]
      rfl
    | cons n rest =>
      obtain ⟨c, hround, hc, hgrows⟩ := exists_round hroot hb
      obtain ⟨d, least', hrounds, hd, hgrows', hdone⟩ := ih (by omega) hc
      refine ⟨d, least', ?_, hd, hgrows.trans hgrows', hdone⟩
      show (if !b.waiting.isEmpty then do
          set { b with waiting := [] }
          b.waiting.reverse.forM meetParts
          rounds fuel else pure () : Build Unit) b = _
      rw [if_pos (by rw [hwaiting]; rfl)]
      show (b.waiting.reverse.forM meetParts >>= fun _ => rounds fuel) { b with waiting := [] } = _
      rw [bind_of_ok hround, hrounds]

end steps

end Build

/-- When nothing waits, everything within a node that has been met has been met. -/
theorem Builder.Sound.isMet {b : Builder} {root m n : Node} {size least : Nat}
    (hb : b.Sound root size [] least) (hdone : b.waiting = []) (h : m.Within n)
    (hn : n.Within root) (hmet : b.metAt n.id ≠ none) : b.metAt m.id = some m.met := by
  induction h with
  | refl => exact (hb.met m hn).resolve_left hmet
  | @part c n hc _ ih =>
    have hcollection : n.isCollection = true := by
      cases n with
      | scalar => cases hc
      | sequence => rfl
      | mapping => rfl
    rcases hb.closed n hn hcollection hmet with h | h | hparts
    · rw [hdone] at h
      cases h
    · cases h
    · exact ih (hn.of_part hc) (hparts c hc)

/-- **After all rounds every node has become what it says**, and no mapping has taken in another
    one. -/
theorem exists_build {root : Node} {first size : Nat} (hroot : root.IsNumbered first size) :
    ∃ b, (do let _ ← Build.meet root; Build.rounds (size + 1) : Build Unit) (.start size) =
        .ok ((), b) ∧
      b.spread = [] ∧ ∀ n : Node, n.Within root → b.metAt n.id = some n.met := by
  have hnone (i : Nat) : (Builder.start size).metAt i = none := by
    simp only [Builder.metAt, Builder.start, Array.getD_eq_getD_getElem?, Array.getElem?_replicate]
    split <;> rfl
  have hstart : (Builder.start size).Sound root size [] 0 :=
    { size := Array.size_replicate
      spread := rfl
      plainKeys := rfl
      met := fun n _ => .inl (hnone n.id)
      closed := fun n _ _ h => absurd (hnone n.id) h
      waiting := fun n hn => by cases hn }
  obtain ⟨b, hmeet, hb, -, hmet⟩ := Build.exists_meet hroot hstart (.refl root) (Nat.zero_le _)
  obtain ⟨c, least, hrounds, hc, hgrows, hdone⟩ :=
    Build.exists_rounds hroot (size + 1) (by omega) hb
  refine ⟨c, ?_, hc.spread, fun n hn => hc.isMet hdone hn (.refl root) (hgrows _ hmet)⟩
  rw [Build.bind_of_ok hmeet, hrounds]

end Regen.Yaml
