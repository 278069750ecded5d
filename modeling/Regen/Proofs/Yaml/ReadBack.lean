import Mathlib.Data.List.Forall2
import Mathlib.Data.List.ReduceOption
import Regen.Proofs.Text.Utf8
import Regen.Proofs.Value.Alike
import Regen.Proofs.Value.Keys
import Regen.Proofs.Yaml.Nodes
import Regen.Proofs.Yaml.Rounds
import Regen.Proofs.Yaml.Sharing
import Regen.Yaml.File

/-! # Legible documents are read back

    The nodes of a legible document are numbered in the order of their starts, so all of them are
    met, and what is built from them is the document again but for the labels. -/

namespace Regen.Yaml

open Value

/-! ## Numbers -/

namespace Node

/-- Nodes that stand one behind the other are numbered from one number up to another. -/
def AreNumbered (first size : Nat) : List Node → Prop
  | [] => first = size
  | n :: ns => ∃ next, n.IsNumbered first next ∧ AreNumbered next size ns

section numbers
variable {first next size : Nat} {root : Node} {ns : List Node}

theorem IsNumbered.lt (h : root.IsNumbered first size) : first < size :=
  Nat.lt_of_le_of_lt (h.least root (.refl root)) (h.bound root (.refl root))

theorem AreNumbered.le (h : AreNumbered first size ns) : first ≤ size := by
  induction ns generalizing first with
  | nil => exact Nat.le_of_eq h
  | cons n ns ih =>
    obtain ⟨next, hn, hns⟩ := h
    exact Nat.le_trans (Nat.le_of_lt hn.lt) (ih hns)

theorem AreNumbered.append {ms : List Node} (h : AreNumbered first next ms)
    (hns : AreNumbered next size ns) : AreNumbered first size (ms ++ ns) := by
  induction ms generalizing first with
  | nil =>
    obtain rfl : first = next := h
    exact hns
  | cons m ms ih =>
    obtain ⟨middle, hm, hms⟩ := h
    exact ⟨middle, hm, ih hms⟩

/-- Each of the nodes has numbers of its own between the first and the last one. -/
theorem AreNumbered.exists_of_mem (h : AreNumbered first size ns) {n : Node} (hn : n ∈ ns) :
    ∃ a b, n.IsNumbered a b ∧ first ≤ a ∧ b ≤ size := by
  induction ns generalizing first with
  | nil => cases hn
  | cons m ns ih =>
    obtain ⟨next, hm, hns⟩ := h
    rcases List.mem_cons.mp hn with rfl | hn
    · exact ⟨first, next, hm, Nat.le_refl _, hns.le⟩
    · obtain ⟨a, b, hab, hle, hsize⟩ := ih hns hn
      exact ⟨a, b, hab, Nat.le_trans (Nat.le_of_lt hm.lt) hle, hsize⟩

/-- Within nodes that stand one behind the other a number is given once. -/
theorem AreNumbered.unique (h : AreNumbered first size ns) {c d m n : Node} (hc : c ∈ ns)
    (hd : d ∈ ns) (hm : m.Within c) (hn : n.Within d) (hid : m.id = n.id) : m = n := by
  induction ns generalizing first with
  | nil => cases hc
  | cons k ns ih =>
    obtain ⟨next, hk, hns⟩ := h
    have hlater {c m : Node} (hc : c ∈ ns) (hm : m.Within c) : next ≤ m.id := by
      obtain ⟨a, b, hab, hle, -⟩ := hns.exists_of_mem hc
      exact Nat.le_trans hle (hab.least m hm)
    rcases List.mem_cons.mp hc with rfl | hc' <;> rcases List.mem_cons.mp hd with rfl | hd'
    · exact hk.unique m n hm hn hid
    · exact absurd (hk.bound m hm) (hid ▸ Nat.not_lt.mpr (hlater hd' hn))
    · exact absurd (hk.bound n hn) (hid ▸ Nat.not_lt.mpr (hlater hc' hm))
    · exact ih hns hc' hd'

/-- **A plain node in front of its parts.** -/
theorem IsNumbered.of_parts (hplain : root.IsPlain) (hid : root.id = first)
    (hparts : AreNumbered (first + 1) size root.parts) : root.IsNumbered first size := by
  have hwithin {m : Node} (hm : m.Within root) : m = root ∨ ∃ c ∈ root.parts, m.Within c := by
    cases hm with
    | refl => exact .inl rfl
    | part hc h => exact .inr ⟨_, hc, h⟩
  have hlater {c m : Node} (hc : c ∈ root.parts) (hm : m.Within c) :
      first + 1 ≤ m.id ∧ m.id < size := by
    obtain ⟨a, b, hab, hle, hsize⟩ := hparts.exists_of_mem hc
    exact ⟨Nat.le_trans hle (hab.least m hm), Nat.lt_of_lt_of_le (hab.bound m hm) hsize⟩
  refine ⟨fun n hn => ?_, fun n hn => ?_, fun m n hm hn heq => ?_, fun n hn c hc => ?_,
    fun n hn => ?_⟩
  · rcases hwithin hn with rfl | ⟨c, hc, h⟩
    · exact Nat.le_of_eq hid.symm
    · exact Nat.le_of_succ_le (hlater hc h).1
  · rcases hwithin hn with rfl | ⟨c, hc, h⟩
    · exact hid ▸ hparts.le
    · exact (hlater hc h).2
  · rcases hwithin hm with rfl | ⟨c, hc, hm'⟩ <;> rcases hwithin hn with rfl | ⟨d, hd, hn'⟩
    · rfl
    · have := (hlater hd hn').1
      omega
    · have := (hlater hc hm').1
      omega
    · exact hparts.unique hc hd hm' hn' heq
  · rcases hwithin hn with rfl | ⟨d, hd, h⟩
    · have := (hlater hc (.refl c)).1
      omega
    · obtain ⟨a, b, hab, -⟩ := hparts.exists_of_mem hd
      exact hab.later n h c hc
  · rcases hwithin hn with rfl | ⟨c, hc, h⟩
    · exact hplain
    · obtain ⟨a, b, hab, -⟩ := hparts.exists_of_mem hc
      exact hab.plain n h

end numbers

end Node

/-! ## The nodes of a legible value -/

theorem isScalar_of_value {i : Nat} {tag : Tag} {text : String} {v : Value}
    (h : scalarValue i tag text = .ok v) : tag.isScalar = true := by
  cases tag <;> first | rfl | cases h

section nodes
variable {indent : Nat} {b : Builder}

theorem areNumbered_itemNodes {xs : List Value}
    (h : ∀ x ∈ xs, ∀ i, (nodeOf i x).IsNumbered i (i + nodeCount x)) (i : Nat) :
    Node.AreNumbered i (i + itemCount xs) (itemNodes i xs) := by
  induction xs generalizing i with
  | nil => rfl
  | cons x xs ih =>
    rw [itemCount, ← Nat.add_assoc]
    exact ⟨_, h x List.mem_cons_self i, ih (fun y hy => h y (List.mem_cons_of_mem _ hy)) _⟩

theorem isNumbered_scalarNode {v : Value} {s : Scalar} (hs : Scalar.ofValue? v = some s)
    (hv : ∀ i, scalarValue i s.tag (String.ofList s.text) = .ok v) (i : Nat) :
    (nodeOf i v).IsNumbered i (i + nodeCount v) := by
  rw [nodeOf_scalar hs, nodeCount_scalar hs, scalarNode_eq hs]
  exact .of_parts ⟨isScalar_of_value (hv i), v, hv i⟩ rfl rfl

theorem nodeOf_text (i : Nat) (s : String) : nodeOf i (.text s) = .scalar i .str s := by
  rw [nodeOf_scalar rfl, scalarNode_eq rfl]
  exact congrArg _ String.ofList_toList

theorem isNumbered_key (i : Nat) (s : String) :
    (nodeOf i (.text s)).IsNumbered i (i + nodeCount (.text s)) := by
  rw [nodeOf_text]
  exact .of_parts ⟨rfl, .text s, rfl⟩ rfl rfl

theorem exists_key_of_mem {es : Entries} (hkeys : ∀ e ∈ es, ∃ s, e.1 = .text s) {i : Nat}
    {e : Node × Node} (he : e ∈ entryNodes i es) : ∃ i text, e.1 = .scalar i .str text := by
  induction es generalizing i with
  | nil => cases he
  | cons f es ih =>
    obtain ⟨k, v⟩ := f
    obtain ⟨s, rfl⟩ := hkeys (k, v) List.mem_cons_self
    rcases List.mem_cons.mp he with rfl | he
    · exact ⟨i, s, nodeOf_text i s⟩
    · exact ih (fun e he => hkeys e (List.mem_cons_of_mem _ he)) he

theorem areNumbered_entryNodes {es : Entries} (hkeys : ∀ e ∈ es, ∃ s, e.1 = .text s)
    (h : ∀ e ∈ es, ∀ i, (nodeOf i e.2).IsNumbered i (i + nodeCount e.2)) (i : Nat) :
    Node.AreNumbered i (i + entryCount es) ((entryNodes i es).flatMap fun e => [e.1, e.2]) := by
  induction es generalizing i with
  | nil => rfl
  | cons e es ih =>
    obtain ⟨k, v⟩ := e
    obtain ⟨s, rfl⟩ := hkeys (k, v) List.mem_cons_self
    rw [entryCount, ← Nat.add_assoc, ← Nat.add_assoc]
    exact ⟨_, isNumbered_key i s, _, h (.text s, v) List.mem_cons_self _,
      ih (fun e he => hkeys e (List.mem_cons_of_mem _ he))
        (fun e he => h e (List.mem_cons_of_mem _ he)) _⟩

theorem isNumbered_map {es : Entries} (hes : areLegibleEntries indent es = true)
    (h : ∀ e ∈ es, ∀ i, (nodeOf i e.2).IsNumbered i (i + nodeCount e.2)) (label : Label) (i : Nat) :
    (nodeOf i (.map es label)).IsNumbered i (i + nodeCount (.map es label)) := by
  have hkeys : ∀ e ∈ es, ∃ s, e.1 = .text s := fun e he =>
    (of_mem_areLegibleEntries hes he).1.imp fun _ hs => hs.1
  rw [nodeOf, nodeCount, ← Nat.add_assoc]
  exact .of_parts ⟨rfl, fun e he => exists_key_of_mem hkeys he⟩ rfl
    (areNumbered_entryNodes hkeys h (i + 1))

/-- **The nodes of a legible value are numbered in the order of their starts.** -/
theorem isNumbered_nodeOf {v : Value} (h : v.isLegible indent = true) (i : Nat) :
    (nodeOf i v).IsNumbered i (i + nodeCount v) := by
  induction indent, v, h using isLegible_induction generalizing i with
  | scalar indent v h hscalar =>
    obtain ⟨s, hs⟩ := Option.isSome_iff_exists.mp hscalar
    exact isNumbered_scalarNode hs (isLegible_of_value hs h).2 i
  | list indent xs label h ih =>
    rw [nodeOf, nodeCount, ← Nat.add_assoc]
    exact .of_parts rfl rfl
      (areNumbered_itemNodes (fun x hx => ih x hx (areLegible_iff.mp h x hx)) (i + 1))
  | map indent es label h ih =>
    exact isNumbered_map h (fun e he => ih e he (of_mem_areLegibleEntries h he).2) label i

/-! ## Their values -/

theorem value_scalar {n : Node} {v : Value} (h : b.metAt n.id = some (.scalar v)) (fuel : Nat) :
    b.value (fuel + 1) n = v := by
  have hmet : b.met.getD n.id none = some (.scalar v) := h
  unfold Builder.value
  rw [hmet]

theorem value_sequence {i : Nat} (h : b.metAt i = some .collection) (items : List Node)
    (fuel : Nat) :
    b.value (fuel + 1) (.sequence i .seq items) = .list (items.map (b.value fuel)) (some i) := by
  have hmet : b.met.getD i none = some .collection := h
  conv_lhs => unfold Builder.value
  simp only [Node.id, hmet]

theorem value_mapping {i : Nat} (h : b.metAt i = some .collection) (hspread : b.spread = [])
    (es : List (Node × Node)) (fuel : Nat) :
    b.value (fuel + 1) (.mapping i .map es) =
      .map (Entries.insertAll [] (es.map fun e => (b.value fuel e.1, b.value fuel e.2)))
        (some i) := by
  have hmet : b.met.getD i none = some .collection := h
  have hentries : b.entriesOf i es = es := by rw [Builder.entriesOf, hspread]; rfl
  conv_lhs => unfold Builder.value
  simp only [Node.id, hmet, hentries]
  exact if_neg (by decide)

/-- The value that is built from a value's nodes is the value again but for the labels. -/
def IsRebuilt (b : Builder) (v : Value) : Prop :=
  ∀ i fuel, nodeCount v ≤ fuel →
    (∀ n : Node, n.Within (nodeOf i v) → b.metAt n.id = some n.met) →
      Alike v (b.value fuel (nodeOf i v))

theorem alike_items {xs : List Value} (h : ∀ x ∈ xs, IsRebuilt b x) {i fuel : Nat}
    (hfuel : itemCount xs ≤ fuel)
    (hmet : ∀ c ∈ itemNodes i xs, ∀ n : Node, n.Within c → b.metAt n.id = some n.met) :
    List.Forall₂ Alike xs ((itemNodes i xs).map (b.value fuel)) := by
  induction xs generalizing i with
  | nil => exact .nil
  | cons x xs ih =>
    rw [itemCount] at hfuel
    refine .cons ?_ ?_
    · exact h x List.mem_cons_self i fuel (by omega) (hmet _ List.mem_cons_self)
    · exact ih (fun y hy => h y (List.mem_cons_of_mem _ hy)) (by omega)
        fun c hc => hmet c (List.mem_cons_of_mem _ hc)

/-- The keys of legible entries are distinct. -/
theorem distinct_of_areLegible {es : Entries} (h : areLegibleEntries indent es = true) :
    es.Distinct := by
  induction es with
  | nil => exact .nil
  | cons e es ih =>
    obtain ⟨k, v⟩ := e
    cases k with
    | text s =>
      simp only [areLegibleEntries, Bool.and_eq_true, Option.isNone_iff_eq_none] at h
      refine .cons (fun f hf t ht => ?_) (ih h.2)
      obtain rfl : s = t := Value.text.inj ht
      exact Entries.ne_of_get?_eq_none h.1.1.2 hf
    | _ => cases h

theorem alike_entries {es : Entries} (hkeys : ∀ e ∈ es, ∃ s, e.1 = .text s)
    (h : ∀ e ∈ es, IsRebuilt b e.2) (i fuel : Nat) (hfuel : entryCount es ≤ fuel)
    (hmet : ∀ e ∈ entryNodes i es, ∀ n : Node, n.Within e.1 ∨ n.Within e.2 →
      b.metAt n.id = some n.met) :
    List.Forall₂ (fun e f => e.1 = f.1 ∧ Alike e.2 f.2) es
      ((entryNodes i es).map fun e => (b.value fuel e.1, b.value fuel e.2)) := by
  induction es generalizing i with
  | nil => exact .nil
  | cons e es ih =>
    obtain ⟨k, v⟩ := e
    obtain ⟨s, rfl⟩ := hkeys (k, v) List.mem_cons_self
    have hcount : nodeCount (.text s) = 1 := nodeCount_scalar rfl
    rw [entryCount, hcount] at hfuel
    have hentry := hmet _ List.mem_cons_self
    refine .cons ⟨?_, ?_⟩ ?_
    · obtain ⟨fuel, rfl⟩ : ∃ n, fuel = n + 1 := ⟨fuel - 1, by omega⟩
      refine (value_scalar ?_ fuel).symm
      have := hentry _ (.inl (.refl _))
      dsimp only at this ⊢
      rw [this, nodeOf_text]
      rfl
    · exact h (.text s, v) List.mem_cons_self _ fuel (by dsimp only; omega) fun n hn => hentry n (.inr hn)
    · exact ih (fun e he => hkeys e (List.mem_cons_of_mem _ he))
        (fun e he => h e (List.mem_cons_of_mem _ he)) _ (by omega)
        fun e he => hmet e (List.mem_cons_of_mem _ he)

/-- Entries with the keys of legible ones are inserted as they are. -/
theorem insertAll_of_keys {es fs : Entries} (hes : areLegibleEntries indent es = true)
    (h : List.Forall₂ (fun e f => e.1 = f.1) es fs) : Entries.insertAll [] fs = fs := by
  have heq : es.map (·.1) = fs.map (·.1) := by
    rw [← List.forall₂_eq_eq_eq, List.forall₂_map_left_iff, List.forall₂_map_right_iff]
    exact h
  show Entries.insertAll [] fs = [] ++ fs
  refine Entries.insertAll_of_distinct (fun f hf => ?_) ?_
  · have hmem : f.1 ∈ es.map (·.1) := heq ▸ List.mem_map_of_mem hf
    obtain ⟨e, he, hkey⟩ := List.mem_map.mp hmem
    obtain ⟨s, hs, -⟩ := (of_mem_areLegibleEntries hes he).1
    exact ⟨s, hkey ▸ hs⟩
  · have hdistinct : (es.map (·.1)).Pairwise fun k l => ∀ s, k = .text s → l ≠ .text s :=
      List.pairwise_map.mpr (distinct_of_areLegible hes)
    exact List.pairwise_map.mp (heq ▸ hdistinct)

theorem isRebuilt_map {es : Entries} (hspread : b.spread = [])
    (hes : areLegibleEntries indent es = true) (h : ∀ e ∈ es, IsRebuilt b e.2) (label : Label) :
    IsRebuilt b (.map es label) := by
  intro i fuel hfuel hmet
  have hkeys : ∀ e ∈ es, ∃ s, e.1 = .text s := fun e he =>
    (of_mem_areLegibleEntries hes he).1.imp fun _ hs => hs.1
  rw [nodeCount] at hfuel
  obtain ⟨fuel, rfl⟩ : ∃ n, fuel = n + 1 := ⟨fuel - 1, by omega⟩
  rw [nodeOf] at hmet ⊢
  have hself : b.metAt i = some .collection := hmet _ (.refl _)
  have hrebuilt := alike_entries hkeys h (i + 1) fuel (by omega)
    fun e he n hn => hn.elim
      (fun hn => hmet n (.part (List.mem_flatMap.mpr ⟨e, he, by simp⟩) hn))
      (fun hn => hmet n (.part (List.mem_flatMap.mpr ⟨e, he, by simp⟩) hn))
  rw [value_mapping hself hspread, insertAll_of_keys hes (hrebuilt.imp fun _ _ hef => hef.1), Alike,
    alike]
  exact alikeEntries_of_forall₂ (hrebuilt.imp fun _ _ hef => ⟨hef.1 ▸ alike_refl _, hef.2⟩)

/-- **When all nodes of a legible value have been met, the value is built again.** -/
theorem isRebuilt_of_legible {v : Value} (hspread : b.spread = []) (h : v.isLegible indent = true) :
    IsRebuilt b v := by
  induction indent, v, h using isLegible_induction with
  | scalar indent v h hscalar =>
    intro i fuel hfuel hmet
    obtain ⟨s, hs⟩ := Option.isSome_iff_exists.mp hscalar
    rw [nodeCount_scalar hs] at hfuel
    obtain ⟨fuel, rfl⟩ : ∃ n, fuel = n + 1 := ⟨fuel - 1, by omega⟩
    have hself := hmet _ (.refl _)
    rw [nodeOf_scalar hs, scalarNode_eq hs] at hself ⊢
    rw [Node.met, (isLegible_of_value hs h).2] at hself
    rw [value_scalar hself]
    exact alike_refl v
  | list indent xs label h ih =>
    intro i fuel hfuel hmet
    rw [nodeCount] at hfuel
    obtain ⟨fuel, rfl⟩ : ∃ n, fuel = n + 1 := ⟨fuel - 1, by omega⟩
    rw [nodeOf] at hmet ⊢
    have hself : b.metAt i = some .collection := hmet _ (.refl _)
    rw [value_sequence hself, Alike, alike]
    exact alikeLists_of_forall₂ (alike_items (fun x hx => ih x hx (areLegible_iff.mp h x hx))
      (by omega) fun c hc n hn => hmet n (.part hc hn))
  | map indent es label h ih =>
    exact isRebuilt_map hspread h (fun e he => ih e he (of_mem_areLegibleEntries h he).2) label

end nodes

/-! ## Values that share nothing -/

section labels
variable {m : Meetings} {v : Value} {xs : List Value} {es : Entries}

/-- What has been seen behind places with these labels. -/
def seenBehind (m : Meetings) (ls : List Label) : List Nat := ls.reduceOption.reverse ++ m.seen

theorem seenBehind_append (ls ms : List Label) :
    seenBehind m (ls ++ ms) = seenBehind { m with seen := seenBehind m ls } ms := by
  simp [seenBehind, List.reduceOption_append]

/-- A walk meets no label again that is new and stands at one place only. -/
def IsFresh (m : Meetings) (ls : List Label) (walk : Meetings → Meetings) : Prop :=
  (seenBehind m ls).Nodup → walk m = { m with seen := seenBehind m ls }

theorem IsFresh.comp {ls ms : List Label} {f g : Meetings → Meetings} (hf : ∀ m, IsFresh m ls f)
    (hg : ∀ m, IsFresh m ms g) : IsFresh m (ls ++ ms) fun m => g (f m) := by
  intro hnodup
  rw [seenBehind_append] at hnodup ⊢
  have hfront : (seenBehind m ls).Nodup := (List.nodup_append.mp hnodup).2.1
  dsimp only
  rw [hf m hfront, hg _ hnodup]

theorem IsFresh.value (v : Value) {ls : List Label} {f : Meetings → Meetings}
    (hf : ∀ m, IsFresh m ls f) :
    IsFresh m (anchorLabel v :: ls)
      fun m => if (m.note v).2 then f (m.note v).1 else (m.note v).1 := by
  intro hnodup
  have hsplit := seenBehind_append (m := m) [anchorLabel v] ls
  rw [List.singleton_append] at hsplit
  rw [hsplit] at hnodup ⊢
  have hnote : m.note v = ({ m with seen := seenBehind m [anchorLabel v] }, true) := by
    cases hlabel : anchorLabel v with
    | none => exact note_of_none hlabel
    | some l =>
      have hnew : l ∉ m.seen := by
        have hfront := (List.nodup_append.mp hnodup).2.1
        rw [hlabel] at hfront
        exact (List.nodup_cons.mp hfront).1
      exact note_of_new hlabel hnew
  dsimp only
  rw [hnote, if_pos rfl, hf _ hnodup]

theorem isFresh_meetAll {ys : List Value}
    (h : List.Forall₂ (fun x y => Alike x y ∧ ∀ m, IsFresh m (labels x) (meet · x)) xs ys)
    (m : Meetings) : IsFresh m (labelsOfAll xs) (meetAll · xs) := by
  induction h generalizing m with
  | nil => exact fun _ => rfl
  | cons hx _ ih => exact .comp hx.2 ih

theorem isFresh_meetEntries {fs : Entries} (h : List.Forall₂ (fun e f =>
      (Alike e.1 f.1 ∧ ∀ m, IsFresh m (labels e.1) (meet · e.1)) ∧
        Alike e.2 f.2 ∧ ∀ m, IsFresh m (labels e.2) (meet · e.2)) es fs) (m : Meetings) :
    IsFresh m (labelsOfEntries es) (meetEntries · es) := by
  induction h generalizing m with
  | nil => exact fun _ => rfl
  | cons he _ ih => exact .comp he.1.2 fun _ => .comp he.2.2 ih

/-- **A walk through a value** meets no label again if none stands at two places. -/
theorem isFresh_cases : AlikeCases fun v _ => ∀ m, IsFresh m (labels v) (meet · v) where
  scalar v w h m := by
    obtain ⟨s, hv, -⟩ := exists_scalar h
    rw [labels_of_scalar hv]
    simp only [meet_of_scalar hv]
    have hfresh := @IsFresh.value m v [] id fun _ _ => rfl
    simp only [id, ite_self] at hfresh
    exact hfresh
  list xs ys l m h n := .value (.list xs l) (isFresh_meetAll h)
  tuple xs ys h n := IsFresh.value (f := (meetAll · xs)) (.tuple xs) (isFresh_meetAll h)
  set xs ys l m h n := .value (.set xs l) (isFresh_meetAll h)
  map es fs l m h n := .value (.map es l) (isFresh_meetEntries h)

/-- **Nothing is met again in a document in which no label stands at two places.** -/
theorem again_eq_nil (h : (labelsOfEntries es).reduceOption.Nodup) :
    (meetEntries ⟨[], []⟩ es).again = [] := by
  have hnodup : (seenBehind ⟨[], []⟩ (labelsOfEntries es)).Nodup := by
    simpa [seenBehind] using h
  have hself : alikeEntries es es = true :=
    alikeEntries_of_forall₂ (List.forall₂_same.mpr fun e _ => ⟨alike_refl e.1, alike_refl e.2⟩)
  have hwalk := isFresh_meetEntries (isFresh_cases.of_alikeEntries es es hself) _ hnodup
  exact congrArg Meetings.again hwalk

end labels

/-! ## Documents -/

section documents
variable {es : Entries}

/-- The nodes of a legible document are built into the document again. -/
theorem exists_toValue (hes : areLegibleEntries 0 es = true) :
    ∃ v, Document.toValue ⟨nodeOf 0 (.map es none), nodeCount (.map es none)⟩ = .ok v ∧
      Alike (.map es none) v := by
  have hvalues {e : Value × Value} (he : e ∈ es) := (of_mem_areLegibleEntries hes he).2
  have hnumbered := isNumbered_map hes (fun e he => isNumbered_nodeOf (hvalues he)) none 0
  rw [Nat.zero_add] at hnumbered
  obtain ⟨b, hrun, hspread, hmet⟩ := exists_build hnumbered
  refine ⟨b.value (nodeCount (.map es none) + 1) (nodeOf 0 (.map es none)), ?_,
    isRebuilt_map hspread hes (fun e he => isRebuilt_of_legible hspread (hvalues he)) none 0 _
      (Nat.le_succ _) hmet⟩
  rw [Document.toValue, StateT.run, hrun]
  rfl

/-- **A legible document that shares nothing is read as it was**, but for the labels. -/
theorem exists_ofBytes (hne : es ≠ []) (hes : areLegibleEntries 0 es = true)
    (hlabels : (labelsOfEntries es).reduceOption.Nodup) :
    ∃ v, ofBytes (Text.encodeUtf8 (write es)) = .ok v ∧ Alike (.map es none) v := by
  have hshare := again_eq_nil hlabels
  obtain ⟨v, hv, halike⟩ := exists_toValue hes
  have hreturn : '\r' ∉ write es := by
    intro hmem
    have := (exists_write hne hes hshare).1 _ hmem
    revert this
    decide
  have hread : read (write es) = .ok v := by
    rw [read, tokens_write hne hes hshare]
    show (Document.ofTokens _ >>= _) = _
    rw [ofTokens_tokensOf hes]
    exact hv
  refine ⟨v, ?_, halike⟩
  rw [ofBytes, Text.decodeUtf8_encodeUtf8]
  dsimp only
  rw [Text.unifyNewlines_of_not_mem hreturn, hread]

end documents

end Regen.Yaml
