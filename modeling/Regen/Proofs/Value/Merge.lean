import Regen.Proofs.Value.Equal

/-! # Merging mappings

    Merging one nested mapping into another overrides it path by path.  What the new mapping has
    at a path and is no mapping is what the result has there, and it hides whatever the old mapping
    had below.  Where the new mapping has nothing, and nothing of it is in the way, the old one is
    kept.  Mappings meet mappings and are merged in turn, with the old keys first and in their
    order.  So merging the same mapping once more changes nothing. -/

namespace Regen

/-! ## Nested mappings -/

namespace Entries

/-- Are the keys such that they can be one, and is none equal to an earlier one? -/
def isKeyed (es : Entries) : Bool :=
  es.all (fun e => e.1.isKey) && decide (es.Pairwise fun e f => f.1.same e.1 = false)

/-- Is every key equal to itself?  All are but a number that is none and is not the shared one. -/
def hasSelfKeys (es : Entries) : Bool := es.all fun e => e.1.same e.1

theorem isKeyed_iff {es : Entries} : es.isKeyed = true ↔
    (∀ e ∈ es, e.1.isKey = true) ∧ es.Pairwise fun e f => f.1.same e.1 = false := by
  simp [isKeyed]

theorem hasSelfKeys_iff {es : Entries} :
    es.hasSelfKeys = true ↔ ∀ e ∈ es, e.1.same e.1 = true := by
  simp [hasSelfKeys]

end Entries

namespace Value

mutual

/-- Does every mapping that is reached through mappings have a property? -/
def everyMapping (p : Entries → Bool) : Value → Bool
  | map es _ => p es && everyMappingIn p es
  | _ => true

def everyMappingIn (p : Entries → Bool) : List (Value × Value) → Bool
  | [] => true
  | (_, v) :: es => everyMapping p v && everyMappingIn p es

end

theorem everyMapping_map {p : Entries → Bool} {es : Entries} {label : Label} :
    (map es label).everyMapping p = true ↔ p es = true ∧ ∀ e ∈ es, e.2.everyMapping p = true := by
  have hvalues : ∀ fs : Entries, everyMappingIn p fs = true ↔
      ∀ e ∈ fs, e.2.everyMapping p = true := by
    intro fs
    induction fs with
    | nil => simp [everyMappingIn]
    | cons e fs ih =>
      obtain ⟨k, v⟩ := e
      rw [everyMappingIn, Bool.and_eq_true, ih, List.forall_mem_cons]
  rw [everyMapping, Bool.and_eq_true, hvalues]

/-- **A nested mapping**: at every depth its keys are keys, and no two of them are equal. -/
def isNested (v : Value) : Bool := v.everyMapping Entries.isKeyed

/-- What a value has at a path of keys. -/
def at? (v : Value) : List Value → Option Value
  | [] => some v
  | k :: path =>
    match v with
    | map es _ => (Entries.find? es k).bind fun w => w.at? path
    | _ => none

@[simp] theorem at?_nil (v : Value) : v.at? [] = some v := by rw [at?]

@[simp] theorem at?_map (es : Entries) (label : Label) (k : Value) (path : List Value) :
    (map es label).at? (k :: path) = (Entries.find? es k).bind fun w => w.at? path := by rw [at?]

theorem at?_of_other {v : Value} (hv : v.isMapping = false) (k : Value) (path : List Value) :
    v.at? (k :: path) = none := by
  cases v with
  | map => cases hv
  | _ => rfl

theorem at?_append (v : Value) (path more : List Value) :
    v.at? (path ++ more) = (v.at? path).bind fun w => w.at? more := by
  induction path generalizing v with
  | nil => rfl
  | cons k path ih =>
    cases v with
    | map es label =>
      rw [List.cons_append, at?_map, at?_map, Option.bind_assoc]
      simp only [ih]
    | _ => rfl

end Value

/-! ## Lookups in a merged mapping -/

namespace Entries

variable {base es : Entries} {k q v w : Value}

theorem find?_cons (es : Entries) (k v q : Value) :
    find? ((k, v) :: es) q = if q.same k = true then some v else es.find? q := by
  by_cases h : q.same k = true
  · simp [find?, h]
  · simp [find?, h]

theorem exists_mem_of_find? (h : es.find? q = some v) : ∃ e ∈ es, q.same e.1 = true ∧ e.2 = v := by
  obtain ⟨e, hfound, hv⟩ := Option.map_eq_some_iff.mp h
  have hsame := List.find?_some hfound
  exact ⟨e, List.mem_of_find?_eq_some hfound, hsame, hv⟩

theorem find?_eq_none_iff : es.find? q = none ↔ ∀ e ∈ es, q.same e.1 = false := by
  simp [find?]

/-- Equal keys find the same. -/
theorem find?_congr (hes : ∀ e ∈ es, e.1.isKey = true) (hq : q.isKey = true) (hk : k.isKey = true)
    (h : q.same k = true) : es.find? q = es.find? k := by
  induction es with
  | nil => rfl
  | cons e es ih =>
    obtain ⟨l, w⟩ := e
    obtain ⟨hl, hes⟩ := List.forall_mem_cons.mp hes
    have hsame : q.same l = k.same l := by
      rw [Value.same_comm hq hl, Value.same_comm hk hl]
      exact Value.same_congr hl hq hk h
    rw [find?_cons, find?_cons, hsame, ih hes]

/-- **What an insertion leaves under a key.** -/
theorem find?_insert (hes : ∀ e ∈ es, e.1.isKey = true) (hq : q.isKey = true)
    (hk : k.isKey = true) :
    (es.insert k v).find? q = if q.same k = true then some v else es.find? q := by
  induction es with
  | nil => exact find?_cons [] k v q
  | cons e es ih =>
    obtain ⟨l, w⟩ := e
    obtain ⟨hl, hes⟩ := List.forall_mem_cons.mp hes
    rw [insert]
    by_cases hkl : k.same l = true
    · -- The old spelling of the key stays and is equal to the same keys.
      rw [if_pos hkl, find?_cons, find?_cons, Value.same_congr hq hk hl hkl]
      split <;> rfl
    · rw [if_neg hkl, find?_cons, find?_cons, ih hes]
      by_cases hql : q.same l = true
      · have hqk : ¬q.same k = true := by
          intro hqk
          rw [Value.same_comm hq hk] at hqk
          exact hkl (Value.same_congr hk hq hl hql ▸ hqk)
        rw [if_pos hql, if_neg hqk, if_pos hql]
      · rw [if_neg hql, if_neg hql]

theorem keys_insert (hes : ∀ e ∈ es, e.1.isKey = true) (hk : k.isKey = true) :
    ∀ e ∈ es.insert k v, e.1.isKey = true := by
  intro e he
  rcases (of_mem_insert he).1 with heq | ⟨f, hf, heq⟩
  · exact heq ▸ hk
  · exact heq ▸ hes f hf

/-- **What a merge has under a key**: the new value if there is one, merged into the old one where
    both are mappings, and else the old value. -/
theorem find?_mergeEntries (hbase : ∀ e ∈ base, e.1.isKey = true) (hes : es.isKeyed = true)
    (hq : q.isKey = true) :
    (mergeEntries base es).find? q =
      ((es.find? q).map (mergeValue (base.find? q))).or (base.find? q) := by
  rw [isKeyed_iff] at hes
  obtain ⟨hkeys, happart⟩ := hes
  induction es generalizing base with
  | nil => rfl
  | cons e rest ih =>
    obtain ⟨k, v⟩ := e
    obtain ⟨hk, hkeys⟩ := List.forall_mem_cons.mp hkeys
    obtain ⟨hhead, hrest⟩ := List.pairwise_cons.mp happart
    rw [mergeEntries, ih (keys_insert hbase hk) hkeys hrest, find?_insert hbase hq hk, find?_cons]
    by_cases hqk : q.same k = true
    · -- No later key is equal to this one.
      have hnone : find? rest q = none := by
        rw [find?_congr hkeys hq hk hqk, find?_eq_none_iff]
        intro f hf
        rw [Value.same_comm hk (hkeys f hf)]
        exact hhead f hf
      rw [if_pos hqk, if_pos hqk, hnone, find?_congr hbase hq hk hqk]
      rfl
    · rw [if_neg hqk, if_neg hqk]

/-! ## The entries of a merged mapping -/

/-- What the entries of a mapping become if another one is merged into it. -/
def overridden (es : Entries) (e : Value × Value) : Value × Value :=
  (e.1, ((es.find? e.1).map (mergeValue (some e.2))).getD e.2)

/-- Insertion of a new key appends it, and that of a known key replaces its value. -/
theorem insert_eq (hes : es.isKeyed = true) (hk : k.isKey = true) :
    es.insert k v = if (es.find? k).isNone then es ++ [(k, v)]
      else es.map fun e => if k.same e.1 = true then (e.1, v) else e := by
  rw [isKeyed_iff] at hes
  obtain ⟨hkeys, happart⟩ := hes
  induction es with
  | nil => rfl
  | cons e es ih =>
    obtain ⟨l, w⟩ := e
    obtain ⟨hl, hkeys⟩ := List.forall_mem_cons.mp hkeys
    obtain ⟨hhead, hrest⟩ := List.pairwise_cons.mp happart
    rw [insert, find?_cons]
    by_cases hkl : k.same l = true
    · -- The keys behind an equal one are others.
      have hothers : ∀ f ∈ es, k.same f.1 = false := by
        intro f hf
        rw [Value.same_comm hk (hkeys f hf), Value.same_congr (hkeys f hf) hk hl hkl]
        exact hhead f hf
      have hrest : (es.map fun f => if k.same f.1 = true then (f.1, v) else f) = es := by
        rw [List.map_congr_left (g := id), List.map_id]
        intro f hf
        rw [hothers f hf]
        rfl
      rw [if_pos hkl, if_pos hkl, List.map_cons, if_pos hkl, hrest]
      rfl
    · rw [if_neg hkl, if_neg hkl, List.map_cons, if_neg hkl, ih hkeys hrest]
      split <;> rfl

theorem isKeyed_insert (hes : es.isKeyed = true) (hk : k.isKey = true) :
    (es.insert k v).isKeyed = true := by
  rw [insert_eq hes hk]
  obtain ⟨hkeys, happart⟩ := isKeyed_iff.mp hes
  rw [isKeyed_iff]
  split
  · next hnone =>
    rw [Option.isNone_iff_eq_none, find?_eq_none_iff] at hnone
    constructor
    · intro e he
      rcases List.mem_append.mp he with he | he
      · exact hkeys e he
      · rw [List.mem_singleton.mp he]
        exact hk
    · apply List.pairwise_append.mpr
      refine ⟨happart, List.pairwise_singleton _ _, ?_⟩
      intro e he f hf
      rw [List.mem_singleton.mp hf]
      exact hnone e he
  · -- A replaced value leaves the keys as they are.
    have hfst : ∀ e : Value × Value, (if k.same e.1 = true then (e.1, v) else e).1 = e.1 := by
      intro e
      split <;> rfl
    constructor
    · intro e he
      obtain ⟨f, hf, rfl⟩ := List.mem_map.mp he
      rw [hfst]
      exact hkeys f hf
    · rw [List.pairwise_map]
      simp only [hfst]
      exact happart

/-- A key that is found finds the value beside any equal key. -/
theorem find?_of_mem (hes : es.isKeyed = true) (hk : k.isKey = true) {e : Value × Value}
    (he : e ∈ es) (hsame : k.same e.1 = true) : es.find? k = some e.2 := by
  obtain ⟨hkeys, happart⟩ := isKeyed_iff.mp hes
  have hself : e.1.same e.1 = true := by
    rw [Value.same_comm hk (hkeys e he)] at hsame
    exact Value.same_self_of_same (hkeys e he) hk hsame
  rw [find?_congr hkeys hk (hkeys e he) hsame, find?, Value.find?_self happart he hself]
  rfl

theorem overridden_cons {e : Value × Value} (hk : k.isKey = true) (he : e.1.isKey = true) :
    overridden ((k, v) :: es) e =
      if k.same e.1 = true then (e.1, mergeValue (some e.2) v) else overridden es e := by
  rw [overridden, find?_cons, Value.same_comm he hk]
  split <;> rfl

theorem overridden_of_none {e : Value × Value} (h : es.find? e.1 = none) :
    overridden es e = e := by
  rw [overridden, h]
  rfl

/-- **The entries of a merged mapping**: the old ones in their places, with what they become, and
    then the new ones whose keys the old mapping does not have. -/
theorem mergeEntries_eq (hbase : base.isKeyed = true) (hes : es.isKeyed = true) :
    mergeEntries base es =
      base.map (overridden es) ++ es.filter fun e => (base.find? e.1).isNone := by
  induction es generalizing base with
  | nil =>
    rw [List.map_congr_left fun e _ => overridden_of_none (find?_nil e.1)]
    simp [mergeEntries]
  | cons e rest ih =>
    obtain ⟨k, v⟩ := e
    obtain ⟨hbaseKeys, -⟩ := isKeyed_iff.mp hbase
    obtain ⟨hkeys, happart⟩ := isKeyed_iff.mp hes
    obtain ⟨hk, hkeys⟩ := List.forall_mem_cons.mp hkeys
    obtain ⟨hhead, happart⟩ := List.pairwise_cons.mp happart
    -- No later key is equal to the first one.
    have hsettled : find? rest k = none := by
      rw [find?_eq_none_iff]
      intro f hf
      rw [Value.same_comm hk (hkeys f hf)]
      exact hhead f hf
    have hnew : ∀ w : Value, (rest.filter fun e => ((base.insert k w).find? e.1).isNone) =
        rest.filter fun e => (base.find? e.1).isNone := by
      intro w
      apply List.filter_congr
      intro f hf
      rw [find?_insert hbaseKeys (hkeys f hf) hk, hhead f hf]
      rfl
    rw [mergeEntries, ih (isKeyed_insert hbase hk) (isKeyed_iff.mpr ⟨hkeys, happart⟩), hnew,
      List.filter_cons, insert_eq hbase hk]
    cases hold : base.find? k with
    | none =>
      have hlater : base.map (overridden ((k, v) :: rest)) = base.map (overridden rest) := by
        apply List.map_congr_left
        intro e he
        rw [overridden_cons hk (hbaseKeys e he), find?_eq_none_iff.mp hold e he]
        rfl
      have hself : overridden rest (k, v) = (k, v) := overridden_of_none hsettled
      rw [hlater, mergeValue_none]
      simp [hself]
    | some old =>
      have hlater : (base.map fun e =>
            if k.same e.1 = true then (e.1, mergeValue (some old) v) else e).map (overridden rest) =
          base.map (overridden ((k, v) :: rest)) := by
        rw [List.map_map]
        apply List.map_congr_left
        intro e he
        rw [overridden_cons hk (hbaseKeys e he), Function.comp_apply]
        split
        · next hsame =>
          have hvalue : old = e.2 := by
            have := find?_of_mem hbase hk he hsame
            rw [hold] at this
            exact Option.some.inj this
          rw [hvalue]
          apply overridden_of_none
          rw [← hsettled]
          exact (find?_congr hkeys hk (hbaseKeys e he) hsame).symm
        · rfl
      rw [← hlater]
      simp

theorem isKeyed_mergeEntries (hbase : base.isKeyed = true) (hes : es.isKeyed = true) :
    (mergeEntries base es).isKeyed = true := by
  induction es generalizing base with
  | nil => exact hbase
  | cons e rest ih =>
    obtain ⟨hkeys, happart⟩ := isKeyed_iff.mp hes
    rw [mergeEntries]
    apply ih (isKeyed_insert hbase (hkeys e List.mem_cons_self))
    exact isKeyed_iff.mpr ⟨fun f hf => hkeys f (List.mem_cons_of_mem _ hf),
      (List.pairwise_cons.mp happart).2⟩

end Entries

/-! ## Paths through a merged mapping -/

namespace Value

variable {base upper v : Value} {k : Value} {path front : List Value}

/-- A path of keys. -/
def IsPath (path : List Value) : Prop := ∀ k ∈ path, k.isKey = true

/-- Does every proper beginning of a path lead to a mapping, if it leads to anything? -/
def Open (upper : Value) (path : List Value) : Prop :=
  ∀ front rest, path = front ++ rest → rest ≠ [] →
    ∀ v, upper.at? front = some v → v.isMapping = true

/-- What a mapping has under a key is a nested mapping again. -/
theorem isNested_of_find? {es : Entries} {label : Label} (h : (map es label).isNested = true)
    (hv : es.find? k = some v) : v.isNested = true := by
  obtain ⟨e, he, -, rfl⟩ := Entries.exists_mem_of_find? hv
  exact (everyMapping_map.mp h).2 e he

theorem eq_map_of_isMapping (h : v.isMapping = true) : ∃ es label, v = map es label := by
  cases v with
  | map es label => exact ⟨es, label, rfl⟩
  | _ => cases h

/-- What is merged into something that is no mapping stays what it is. -/
theorem mergeValue_of_base (h : base.isMapping = false) : mergeValue (some base) upper = upper :=
  mergeValue_of_old (fun w hw => by cases hw; exact h) upper

/-- What a merged mapping has under a key. -/
theorem find?_merged {es fs : Entries} {label label' : Label}
    (hes : (map es label).isNested = true) (hfs : (map fs label').isNested = true)
    (hk : k.isKey = true) :
    (mergeEntries es fs).find? k =
      ((fs.find? k).map (mergeValue (es.find? k))).or (es.find? k) :=
  Entries.find?_mergeEntries (Entries.isKeyed_iff.mp (everyMapping_map.mp hes).1).1
    (everyMapping_map.mp hfs).1 hk

/-- **Where the new mapping has something**, it is merged into what the old one has there. -/
theorem at?_merge_of_some (hbase : base.isNested = true) (hupper : upper.isNested = true)
    (hpath : IsPath path) (h : upper.at? path = some v) :
    (mergeValue (some base) upper).at? path = some (mergeValue (base.at? path) v) := by
  induction path generalizing base upper with
  | nil =>
    obtain rfl := Option.some.inj h
    rfl
  | cons k path ih =>
    obtain ⟨hk, hpath⟩ := List.forall_mem_cons.mp hpath
    cases hmapping : base.isMapping with
    | false =>
      rw [mergeValue_of_base hmapping, at?_of_other hmapping, mergeValue_none]
      exact h
    | true =>
      obtain ⟨es, label, rfl⟩ := eq_map_of_isMapping hmapping
      cases upper with
      | map fs label' =>
        rw [at?_map] at h
        obtain ⟨w, hw, h⟩ := Option.bind_eq_some_iff.mp h
        rw [mergeValue, at?_map, at?_map, find?_merged hbase hupper hk, hw]
        cases hold : Entries.find? es k with
        | none =>
          rw [Option.map_some, mergeValue_none]
          exact h.trans (congrArg some (mergeValue_none v).symm)
        | some old =>
          exact ih (isNested_of_find? hbase hold) (isNested_of_find? hupper hw) hpath h
      | _ => cases h

/-- **Where the new mapping has nothing** and nothing is in the way, the old one is kept. -/
theorem at?_merge_of_none (hbase : base.isNested = true) (hupper : upper.isNested = true)
    (hpath : IsPath path) (h : upper.at? path = none) (hopen : upper.Open path) :
    (mergeValue (some base) upper).at? path = base.at? path := by
  induction path generalizing base upper with
  | nil => cases h
  | cons k path ih =>
    obtain ⟨hk, hpath⟩ := List.forall_mem_cons.mp hpath
    obtain ⟨fs, label', rfl⟩ := eq_map_of_isMapping
      (hopen [] (k :: path) rfl (List.cons_ne_nil k path) upper rfl)
    cases hmapping : base.isMapping with
    | false => rw [mergeValue_of_base hmapping, at?_of_other hmapping, h]
    | true =>
      obtain ⟨es, label, rfl⟩ := eq_map_of_isMapping hmapping
      rw [at?_map] at h
      rw [mergeValue, at?_map, at?_map, find?_merged hbase hupper hk]
      cases hw : Entries.find? fs k with
      | none => rfl
      | some w =>
        rw [hw] at h
        have hopen' : w.Open path := by
          intro front rest heq hrest v hv
          apply hopen (k :: front) rest (by rw [heq]; rfl) hrest
          rw [at?_map, hw]
          exact hv
        cases hold : Entries.find? es k with
        | none =>
          rw [Option.map_some, mergeValue_none]
          exact h
        | some old =>
          exact ih (isNested_of_find? hbase hold) (isNested_of_find? hupper hw) hpath h hopen'

/-- **What is no mapping hides** whatever the old mapping had below. -/
theorem at?_merge_of_hidden (hbase : base.isNested = true) (hupper : upper.isNested = true)
    (hfront : IsPath front) (h : upper.at? front = some v) (hv : v.isMapping = false) :
    (mergeValue (some base) upper).at? (front ++ k :: path) = none := by
  rw [at?_append, at?_merge_of_some hbase hupper hfront h, mergeValue_of_other hv]
  exact at?_of_other hv k path

/-! ## Keys in order -/

/-- **The keys of merged mappings**: the old ones in their order, and then the new ones that the
    old mapping does not have, in theirs. -/
theorem keys_mergeEntries {es fs : Entries} (hes : es.isKeyed = true) (hfs : fs.isKeyed = true) :
    (mergeEntries es fs).map (·.1) =
      es.map (·.1) ++ (fs.map (·.1)).filter fun k => (Entries.find? es k).isNone := by
  rw [Entries.mergeEntries_eq hes hfs, List.map_append, List.map_map, List.filter_map]
  rfl

end Value

/-! ## Merging once more -/

namespace Entries

variable {base es : Entries}

theorem isKeyed_nil : isKeyed [] = true := rfl

theorem mergeEntries_nil (hes : es.isKeyed = true) : mergeEntries [] es = es := by
  rw [mergeEntries_eq isKeyed_nil hes]
  simp

/-- If each value stays as it is when it is merged into what it gave, so do the entries. -/
theorem alikeEntries_merge_again (hbase : base.isKeyed = true) (hes : es.isKeyed = true)
    (hself : es.hasSelfKeys = true)
    (hagain : ∀ e ∈ es, ∀ k, Value.Alike (mergeValue (some (mergeValue (base.find? k) e.2)) e.2)
      (mergeValue (base.find? k) e.2)) :
    Value.alikeEntries (mergeEntries (mergeEntries base es) es) (mergeEntries base es) = true := by
  have hmerged := isKeyed_mergeEntries hbase hes
  have hbaseKeys := (isKeyed_iff.mp hbase).1
  have hkeys := (isKeyed_iff.mp hes).1
  -- All keys of the new mapping are there already.
  have hnone : (es.filter fun e => ((mergeEntries base es).find? e.1).isNone) = [] := by
    rw [List.filter_eq_nil_iff]
    intro e he
    rw [find?_mergeEntries hbaseKeys hes (hkeys e he),
      find?_of_mem hes (hkeys e he) he (hasSelfKeys_iff.mp hself e he)]
    simp
  rw [mergeEntries_eq hmerged hes, hnone, List.append_nil]
  apply Value.alikeEntries_of_forall₂
  rw [List.forall₂_map_left_iff, List.forall₂_same]
  intro e he
  refine ⟨Value.alike_refl e.1, ?_⟩
  have hkey := (isKeyed_iff.mp hmerged).1 e he
  cases hfound : find? es e.1 with
  | none =>
    rw [overridden_of_none hfound]
    exact Value.alike_refl e.2
  | some v =>
    obtain ⟨f, hf, hsame, rfl⟩ := exists_mem_of_find? hfound
    have hvalue : some e.2 = some (mergeValue (base.find? e.1) f.2) := by
      have hself := Value.same_self_of_same hkey (hkeys f hf) hsame
      rw [← find?_of_mem hmerged hkey he hself, find?_mergeEntries hbaseKeys hes hkey, hfound]
      rfl
    rw [overridden, hfound, Option.some.inj hvalue]
    exact hagain f hf e.1

end Entries

namespace Value

/-- Does every key that is reached equal itself? -/
def hasSelfKeys (v : Value) : Bool := v.everyMapping Entries.hasSelfKeys

/-- **What was merged stays as it is** if it is merged once more. -/
theorem alike_mergeValue_again (v : Value) (hv : v.isNested = true) (hself : v.hasSelfKeys = true)
    (old : Option Value) (hold : ∀ w ∈ old, w.isNested = true) :
    Alike (mergeValue (some (mergeValue old v)) v) (mergeValue old v) := by
  match v with
  | map es label =>
    obtain ⟨hkeyed, hvalues⟩ := everyMapping_map.mp hv
    obtain ⟨hkeys, hinner⟩ := everyMapping_map.mp hself
    by_cases hmapping : ∃ base label', old = some (map base label')
    · obtain ⟨base, label', rfl⟩ := hmapping
      have hbase := hold _ rfl
      rw [mergeValue, mergeValue, Alike, alike]
      apply Entries.alikeEntries_merge_again (everyMapping_map.mp hbase).1 hkeyed hkeys
      intro e he k
      apply alike_mergeValue_again e.2 (hvalues e he) (hinner e he)
      intro w hw
      exact isNested_of_find? hbase hw
    · -- Nothing is there to be merged into, as in an empty mapping.
      have hfirst : mergeValue old (map es label) = map es label := by
        apply mergeValue_of_old
        intro w hw
        cases w with
        | map base label' => exact absurd ⟨base, label', hw⟩ hmapping
        | _ => rfl
      rw [hfirst, mergeValue, Alike, alike]
      have hagain := Entries.alikeEntries_merge_again Entries.isKeyed_nil hkeyed hkeys
        fun e he _ => alike_mergeValue_again e.2 (hvalues e he) (hinner e he) none
          fun w hw => absurd hw (Option.not_mem_none w)
      rwa [Entries.mergeEntries_nil hkeyed] at hagain
  | null | bool _ | int _ | real _ | text _ | bytes _ | date .. | time .. | list .. | tuple _
  | set .. => exact alike_refl _
termination_by sizeOf v
decreasing_by
  all_goals
    have := List.sizeOf_lt_of_mem he
    obtain ⟨k, w⟩ := e
    simp only [Prod.mk.sizeOf_spec, Value.map.sizeOf_spec] at this ⊢
    omega

/-! ## Overriding by path -/

/-- **A value overrides another one by path.**  A path leads through mappings by keys, and keys
    are compared by content. -/
structure Overrides (base upper merged : Value) : Prop where
  /-- What is no mapping is there as it is. -/
  value : ∀ path v, IsPath path → upper.at? path = some v → v.isMapping = false →
    merged.at? path = some v
  /-- What is not mentioned, and nothing is in its way, is there as it was, or is not there. -/
  kept : ∀ path, IsPath path → upper.at? path = none → upper.Open path →
    merged.at? path = base.at? path
  mapping : ∀ path v, IsPath path → upper.at? path = some v → v.isMapping = true →
    ∃ w, merged.at? path = some w ∧ w.isMapping = true
  /-- Nothing is below what is no mapping. -/
  hidden : ∀ front k rest v, IsPath front → upper.at? front = some v → v.isMapping = false →
    merged.at? (front ++ k :: rest) = none
  /-- Old keys come first and in their order, and then the new ones in theirs. -/
  order : ∀ path es label fs label', IsPath path → base.at? path = some (map es label) →
    upper.at? path = some (map fs label') → ∃ gs, merged.at? path = some (map gs none) ∧
      gs.map (·.1) = es.map (·.1) ++ (fs.map (·.1)).filter fun k => (Entries.find? es k).isNone
  /-- A mapping that meets none is there as it is. -/
  alone : ∀ path fs label, IsPath path → upper.at? path = some (map fs label) →
    (∀ w, base.at? path = some w → w.isMapping = false) →
    merged.at? path = some (map fs label)

/-- What is found at a path of a nested mapping is nested. -/
theorem isNested_of_at? {v w : Value} {path : List Value} (hv : v.isNested = true)
    (h : v.at? path = some w) : w.isNested = true := by
  induction path generalizing v with
  | nil =>
    obtain rfl := Option.some.inj h
    exact hv
  | cons k path ih =>
    cases v with
    | map es label =>
      obtain ⟨u, hu, h⟩ := Option.bind_eq_some_iff.mp h
      exact ih (isNested_of_find? hv hu) h
    | _ => cases h

theorem overrides_mergeValue {base upper : Value} (hbase : base.isNested = true)
    (hupper : upper.isNested = true) : Overrides base upper (mergeValue (some base) upper) where
  value path v hpath h hv := by
    rw [at?_merge_of_some hbase hupper hpath h, mergeValue_of_other hv]
  kept path hpath h hopen := at?_merge_of_none hbase hupper hpath h hopen
  mapping path v hpath h hv := by
    refine ⟨_, at?_merge_of_some hbase hupper hpath h, ?_⟩
    obtain ⟨fs, label, rfl⟩ := eq_map_of_isMapping hv
    unfold mergeValue
    split <;> rfl
  hidden front k rest v hfront h hv := at?_merge_of_hidden hbase hupper hfront h hv
  order path es label fs label' hpath hold hnew := by
    refine ⟨mergeEntries es fs, ?_, ?_⟩
    · rw [at?_merge_of_some hbase hupper hpath hnew, hold, mergeValue]
    · exact keys_mergeEntries (everyMapping_map.mp (isNested_of_at? hbase hold)).1
        (everyMapping_map.mp (isNested_of_at? hupper hnew)).1
  alone path fs label hpath h hold := by
    rw [at?_merge_of_some hbase hupper hpath h, mergeValue_of_old fun w hw => hold w hw]

end Value

/-- **Merging overrides by path**, and merging the same mapping once more changes nothing, where
    all of its keys equal themselves.  A key that does not is a number that is none and that no
    other number is the same object as. -/
theorem mergeEntries_overrides {base upper : Entries} {label label' : Label}
    (hbase : (Value.map base label).isNested = true)
    (hupper : (Value.map upper label').isNested = true) :
    Value.Overrides (.map base label) (.map upper label') (.map (mergeEntries base upper) none) ∧
      ((Value.map upper label').hasSelfKeys = true →
        Value.Alike (.map (mergeEntries (mergeEntries base upper) upper) none)
          (.map (mergeEntries base upper) none)) := by
  have hmerged : mergeValue (some (.map base label)) (.map upper label') =
      .map (mergeEntries base upper) none := by rw [mergeValue]
  constructor
  · rw [← hmerged]
    exact Value.overrides_mergeValue hbase hupper
  · intro hself
    have hagain := Value.alike_mergeValue_again (.map upper label') hupper hself
      (some (.map base label)) fun w hw => Option.some.inj hw ▸ hbase
    rwa [hmerged, mergeValue] at hagain

/-- Settings with a section in two files, a number as a key, and what is a mapping in one file
    only. -/
def sharedLayer : Entries :=
  [(.text "output", .map [(.text "base_path", .text "out"),
      (.text "more", .map [(.int 1, .null), (.text "deep", .bool true)] none)] none),
    (.text "sources", .list [] none), (.text "lockfile", .map [(.text "path", .text "x")] none)]

/-- What overrides them. -/
def projectLayer : Entries :=
  [(.text "new", .int 3),
    (.text "output", .map [(.text "more", .map [(.text "last", .int 7),
      (.real (.finite false (2 ^ 52) (-52)), .text "one")] (some 4))] none),
    (.text "lockfile", .null), (.text "sources", .map [(.text "a", .int 1)] none)]

theorem mergeEntries_overrides_layers :
    (Value.map sharedLayer none).isNested = true ∧ (Value.map projectLayer none).isNested = true ∧
      Value.Overrides (.map sharedLayer none) (.map projectLayer none)
        (.map (mergeEntries sharedLayer projectLayer) none) ∧
      Value.Alike (.map (mergeEntries (mergeEntries sharedLayer projectLayer) projectLayer) none)
        (.map (mergeEntries sharedLayer projectLayer) none) := by
  have hshared : (Value.map sharedLayer none).isNested = true := by decide +kernel
  have hproject : (Value.map projectLayer none).isNested = true := by decide +kernel
  have hself : (Value.map projectLayer none).hasSelfKeys = true := by decide +kernel
  have hmerged := mergeEntries_overrides hshared hproject
  exact ⟨hshared, hproject, hmerged.1, hmerged.2 hself⟩

end Regen
