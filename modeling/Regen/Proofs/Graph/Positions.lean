import Mathlib.Algebra.BigOperators.Fin
import Mathlib.Combinatorics.Enumerative.DoubleCounting
import Mathlib.Logic.Relation
import Regen.Proofs.Graph.Construction

/-! # Names and positions of a graph

    A graph that is built from dependencies keeps its names in ascending order and its edges as
    positions.  This module says what such a graph knows, once and for all its questions:

    * names and positions correspond one to one;
    * an edge between positions is an entry of the dependencies between their names, and so are
      chains of edges;
    * the two directions in which edges are kept agree, and so do their numbers. -/

namespace Regen

open Relation

/-- The source `x` names `y` among its dependencies. -/
def Needs (dependencies : Ledger (List String)) (x y : String) : Prop :=
  ∃ wanted, dependencies.find? x = some wanted ∧ y ∈ wanted

/-- A name is known if it is a further name, has dependencies, or is one. -/
def Known (dependencies : Ledger (List String)) (more : List String) (x : String) : Prop :=
  x ∈ more ∨ ∃ e ∈ dependencies, x = e.1 ∨ x ∈ e.2

namespace Graph

/-- The position `i` needs the position `j`. -/
def Edge (g : Graph) (i j : Nat) : Prop := j ∈ g.needsAt i

/-- **Lawful graphs**: names ascend, edges stay within the positions and are kept once in both
    directions. -/
structure Lawful (g : Graph) : Prop where
  ascending : g.ids.Pairwise (Text.codes · < Text.codes ·)
  /-- The needs are kept for the known positions only. -/
  needs_size : g.needs.size = g.size
  edge_lt : ∀ {i j}, g.Edge i j → j < g.size
  needs_nodup : ∀ i, (g.needsAt i).Nodup
  users_nodup : ∀ j, (g.usersAt j).Nodup
  mem_usersAt : ∀ {i j}, i ∈ g.usersAt j ↔ g.Edge i j

/-! ## Positions of names -/

section positions
variable {g : Graph}

theorem Lawful.nodup (h : g.Lawful) : g.ids.Nodup := Text.nodup_of_ascending h.ascending

theorem nameAt_eq_getElem {i : Nat} (hi : i < g.ids.length) : g.nameAt i = g.ids[i] := by
  unfold nameAt
  rw [List.getElem?_eq_getElem hi]
  rfl

theorem nameAt_mem {i : Nat} (hi : i < g.size) : g.nameAt i ∈ g.ids := by
  rw [nameAt_eq_getElem hi]
  exact List.getElem_mem _

theorem position?_eq_some (h : g.Lawful) {x : String} {i : Nat} :
    g.position? x = some i ↔ i < g.size ∧ g.nameAt i = x := by
  unfold position?
  rw [idxOf?_eq_some h.nodup, List.getElem?_eq_some_iff]
  constructor
  · rintro ⟨hi, hx⟩
    exact ⟨hi, by rw [nameAt_eq_getElem hi]; exact hx⟩
  · rintro ⟨hi, hx⟩
    exact ⟨hi, by rw [nameAt_eq_getElem hi] at hx; exact hx⟩

theorem nameAt_injective (h : g.Lawful) {i j : Nat} (hi : i < g.size) (hj : j < g.size)
    (heq : g.nameAt i = g.nameAt j) : i = j := by
  rw [nameAt_eq_getElem hi, nameAt_eq_getElem hj] at heq
  exact (h.nodup.getElem_inj_iff).mp heq

theorem exists_position {x : String} (hx : x ∈ g.ids) : ∃ i, i < g.size ∧ g.nameAt i = x := by
  obtain ⟨i, hi, heq⟩ := List.getElem_of_mem hx
  exact ⟨i, hi, by rw [nameAt_eq_getElem hi]; exact heq⟩

theorem contains_iff {x : String} : g.contains x = true ↔ x ∈ g.ids := by
  simp [contains, position?, List.isSome_idxOf?]

theorem Edge.lt_left (h : g.Lawful) {i j : Nat} (hij : g.Edge i j) : i < g.size := by
  by_contra hi
  have hnone : g.needs[i]? = none := by
    rw [Array.getElem?_eq_none]
    rw [h.needs_size]
    omega
  simp [Edge, needsAt, hnone] at hij

/-- Positions without repeats belong to names without repeats. -/
theorem names_eraseDups (h : g.Lawful) {xs : List String} (hxs : ∀ x ∈ xs, x ∈ g.ids) :
    (xs.filterMap g.position?).eraseDups.map g.nameAt = xs.eraseDups := by
  induction xs using List.reverseRecOn with
  | nil => rfl
  | append_singleton xs x ih =>
    obtain ⟨i, hi, hname⟩ := exists_position (hxs x (by simp))
    have hposition : g.position? x = some i := (position?_eq_some h).mpr ⟨hi, hname⟩
    -- A position comes again exactly if its name does.
    have hagain : i ∈ xs.filterMap g.position? ↔ x ∈ xs := by
      rw [List.mem_filterMap]
      constructor
      · rintro ⟨y, hy, hsame⟩
        have hyname := ((position?_eq_some h).mp hsame).2
        rwa [← hname, hyname]
      · intro hx
        exact ⟨x, hx, hposition⟩
    have ih := ih fun y hy => hxs y (List.mem_append_left _ hy)
    rw [List.filterMap_append, List.filterMap_cons_some hposition, List.filterMap_nil,
      eraseDups_concat, eraseDups_concat]
    by_cases hx : x ∈ xs
    · rw [if_pos hx, if_pos (hagain.mpr hx), ih]
    · rw [if_neg hx, if_neg fun hi => hx (hagain.mp hi), List.map_append, ih, List.map_singleton,
        hname]

end positions

/-! ## Counting edges -/

section counting
variable {g : Graph}

theorem edgeCount_eq_sum_needs (h : g.Lawful) :
    g.edgeCount = ∑ i ∈ Finset.range g.size, (g.needsAt i).length := by
  have hsum : g.edgeCount = (g.needs.toList.map List.length).sum := rfl
  rw [hsum, ← Fin.sum_univ_fun_getElem, ← h.needs_size, ← Array.length_toList,
    Finset.sum_range]
  refine Finset.sum_congr rfl fun i _ => ?_
  simp [needsAt]

/-- Every edge is kept once among the needs and once among the users. -/
theorem edgeCount_eq_sum_users (h : g.Lawful) :
    g.edgeCount = ∑ j ∈ Finset.range g.size, (g.usersAt j).length := by
  classical
  have hneeds : ∀ i, ((Finset.range g.size).bipartiteAbove g.Edge i).card =
      (g.needsAt i).length := by
    intro i
    rw [← List.toFinset_card_of_nodup (h.needs_nodup i)]
    congr 1
    ext j
    simp only [Finset.bipartiteAbove, Finset.mem_filter, Finset.mem_range, List.mem_toFinset]
    exact ⟨fun hij => hij.2, fun hij => ⟨h.edge_lt hij, hij⟩⟩
  have husers : ∀ j, ((Finset.range g.size).bipartiteBelow g.Edge j).card =
      (g.usersAt j).length := by
    intro j
    rw [← List.toFinset_card_of_nodup (h.users_nodup j)]
    congr 1
    ext i
    simp only [Finset.bipartiteBelow, Finset.mem_filter, Finset.mem_range, List.mem_toFinset,
      h.mem_usersAt]
    exact ⟨fun hij => hij.2, fun hij => ⟨hij.lt_left h, hij⟩⟩
  rw [edgeCount_eq_sum_needs h, ← Finset.sum_congr rfl fun i _ => hneeds i,
    Finset.sum_card_bipartiteAbove_eq_sum_card_bipartiteBelow]
  exact Finset.sum_congr rfl fun j _ => husers j

end counting

/-! ## The graph of dependencies -/

section dependencies
variable (dependencies : Ledger (List String)) (more : List String)

/-- The names of a graph are the known ones. -/
theorem mem_ids_ofDependencies {x : String} :
    x ∈ (ofDependencies dependencies more).ids ↔ Known dependencies more x := by
  rw [(filled_ofDependencies dependencies more).ids_eq]
  simp only [Text.mem_sortedDistinct, List.mem_append, mentioned, List.mem_flatMap, List.mem_cons]
  rfl

theorem ascending_ofDependencies :
    (ofDependencies dependencies more).ids.Pairwise (Text.codes · < Text.codes ·) := by
  rw [(filled_ofDependencies dependencies more).ids_eq]
  exact Text.pairwise_sortedDistinct _

/-- A position needs what its name needs, which is nothing if it has no dependencies. -/
theorem needsAt_ofDependencies {i : Nat} {x : String}
    (hx : (ofDependencies dependencies more).ids[i]? = some x) :
    (ofDependencies dependencies more).needsAt i =
      targets (ofDependencies dependencies more).ids dependencies x := by
  have hfilled := filled_ofDependencies dependencies more
  rw [hfilled.needsAt_eq i x (hfilled.ids_eq ▸ hx), hfilled.ids_eq]
  by_cases hname : x ∈ dependencies.names
  · rw [if_pos (Text.mem_sortedDistinct.mpr hname)]
  · have hnone : dependencies.find? x = none := by
      cases hfind : dependencies.find? x with
      | none => rfl
      | some wanted =>
        exact absurd (List.mem_map_of_mem (Ledger.mem_of_find? hfind)) hname
    rw [if_neg fun hmem => hname (Text.mem_sortedDistinct.mp hmem), targets, hnone]
    rfl

/-- There are needs for the known positions only. -/
theorem needsAt_of_le {i : Nat} (hi : (ofDependencies dependencies more).size ≤ i) :
    (ofDependencies dependencies more).needsAt i = [] := by
  have hfilled := filled_ofDependencies dependencies more
  have hnone : (ofDependencies dependencies more).needs[i]? = none := by
    rw [Array.getElem?_eq_none]
    rw [hfilled.needs_size, ← hfilled.ids_eq]
    exact hi
  rw [needsAt, hnone]
  rfl

theorem usersAt_of_le {j : Nat} (hj : (ofDependencies dependencies more).size ≤ j) :
    (ofDependencies dependencies more).usersAt j = [] := by
  have hfilled := filled_ofDependencies dependencies more
  have hnone : (ofDependencies dependencies more).users[j]? = none := by
    rw [Array.getElem?_eq_none]
    rw [hfilled.users_size, ← hfilled.ids_eq]
    exact hj
  rw [usersAt, hnone]
  rfl

/-- A position's needs are the positions of the names that its name needs. -/
theorem edge_ofDependencies_iff {i j : Nat} :
    (ofDependencies dependencies more).Edge i j ↔
      ∃ x w, (ofDependencies dependencies more).ids[i]? = some x ∧ Needs dependencies x w ∧
        (ofDependencies dependencies more).position? w = some j := by
  unfold Edge
  cases hx : (ofDependencies dependencies more).ids[i]? with
  | none =>
    rw [needsAt_of_le dependencies more (List.getElem?_eq_none_iff.mp hx)]
    simp
  | some x =>
    rw [needsAt_ofDependencies dependencies more hx, targets, List.mem_eraseDups]
    cases hf : dependencies.find? x with
    | none => simp [Needs, hf]
    | some wanted => simp [Needs, hf, position?]

/-- Positions ascend with their names. -/
theorem lt_of_codes_lt {ids : List String} (hids : ids.Pairwise (Text.codes · < Text.codes ·))
    {i j : Nat} {x y : String} (hx : ids[i]? = some x) (hy : ids[j]? = some y)
    (hlt : Text.codes x < Text.codes y) : i < j := by
  obtain ⟨hi, rfl⟩ := List.getElem?_eq_some_iff.mp hx
  obtain ⟨hj, rfl⟩ := List.getElem?_eq_some_iff.mp hy
  rcases Nat.lt_trichotomy i j with hij | rfl | hji
  · exact hij
  · exact absurd hlt (List.lt_irrefl (α := Nat) _)
  · exact absurd hlt (List.lt_asymm (α := Nat) (List.pairwise_iff_getElem.mp hids j i hj hi hji))

/-- The users of a position are noted in ascending order, as the names are read in theirs. -/
theorem pairwise_usersAt (j : Nat) :
    ((ofDependencies dependencies more).usersAt j).Pairwise (· < ·) := by
  have hfilled := filled_ofDependencies dependencies more
  have hids := ascending_ofDependencies dependencies more
  by_cases hj : j < (ofDependencies dependencies more).size
  · rw [hfilled.usersAt_eq j (hfilled.ids_eq ▸ hj), ← hfilled.ids_eq, List.pairwise_filterMap]
    refine ((Text.pairwise_sortedDistinct _).filter _).imp fun {x y} hlt i hi k hk => ?_
    have hnodup := Text.nodup_of_ascending hids
    exact lt_of_codes_lt hids ((idxOf?_eq_some hnodup).mp hi) ((idxOf?_eq_some hnodup).mp hk) hlt
  · rw [usersAt_of_le dependencies more (Nat.le_of_not_lt hj)]
    exact .nil

/-- **The two directions are transposes**: the users of a position are those that need it. -/
theorem mem_usersAt_iff_edge {i j : Nat} :
    i ∈ (ofDependencies dependencies more).usersAt j ↔
      (ofDependencies dependencies more).Edge i j := by
  have hfilled := filled_ofDependencies dependencies more
  have hnodup := Text.nodup_of_ascending (ascending_ofDependencies dependencies more)
  constructor
  · intro hi
    by_cases hj : j < (ofDependencies dependencies more).size
    · rw [hfilled.usersAt_eq j (hfilled.ids_eq ▸ hj), ← hfilled.ids_eq, List.mem_filterMap] at hi
      obtain ⟨x, hx, hposition⟩ := hi
      have hat := (idxOf?_eq_some hnodup).mp hposition
      rw [Edge, needsAt_ofDependencies dependencies more hat]
      simpa using (List.mem_filter.mp hx).2
    · rw [usersAt_of_le dependencies more (Nat.le_of_not_lt hj)] at hi
      cases hi
  · intro hij
    obtain ⟨x, w, hx, hneeds, hw⟩ := (edge_ofDependencies_iff dependencies more).mp hij
    obtain ⟨hj, _⟩ := List.idxOf?_eq_some_iff.mp hw
    rw [hfilled.usersAt_eq j (hfilled.ids_eq ▸ hj), ← hfilled.ids_eq, List.mem_filterMap]
    refine ⟨x, List.mem_filter.mpr ⟨Text.mem_sortedDistinct.mpr ?_, ?_⟩,
      (idxOf?_eq_some hnodup).mpr hx⟩
    · obtain ⟨wanted, hfind, _⟩ := hneeds
      exact List.mem_map_of_mem (Ledger.mem_of_find? hfind)
    · rw [Edge, needsAt_ofDependencies dependencies more hx] at hij
      simpa using hij

/-- **Graphs of dependencies are lawful.** -/
theorem lawful_ofDependencies : (ofDependencies dependencies more).Lawful := by
  have hfilled := filled_ofDependencies dependencies more
  constructor
  · exact ascending_ofDependencies dependencies more
  · rw [hfilled.needs_size, size, hfilled.ids_eq]
  · intro i j hij
    obtain ⟨x, w, _, _, hw⟩ := (edge_ofDependencies_iff dependencies more).mp hij
    obtain ⟨hj, _⟩ := List.idxOf?_eq_some_iff.mp hw
    exact hj
  · intro i
    cases hx : (ofDependencies dependencies more).ids[i]? with
    | none =>
      rw [needsAt_of_le dependencies more (List.getElem?_eq_none_iff.mp hx)]
      exact .nil
    | some x =>
      rw [needsAt_ofDependencies dependencies more hx]
      exact nodup_eraseDups _
  · intro j
    exact (pairwise_usersAt dependencies more j).imp fun hlt => Nat.ne_of_lt hlt
  · exact mem_usersAt_iff_edge dependencies more

/-- Edges between known positions are dependencies between their names. -/
theorem edge_iff_needs {i j : Nat} (hi : i < (ofDependencies dependencies more).size)
    (hj : j < (ofDependencies dependencies more).size) :
    (ofDependencies dependencies more).Edge i j ↔
      Needs dependencies ((ofDependencies dependencies more).nameAt i)
        ((ofDependencies dependencies more).nameAt j) := by
  have hlawful := lawful_ofDependencies dependencies more
  have hname : (ofDependencies dependencies more).ids[i]? =
      some ((ofDependencies dependencies more).nameAt i) := by
    rw [nameAt_eq_getElem hi]
    exact List.getElem?_eq_getElem hi
  rw [edge_ofDependencies_iff]
  constructor
  · rintro ⟨x, w, hx, hneeds, hw⟩
    rw [hname, Option.some.injEq] at hx
    rw [hx, ((position?_eq_some hlawful).mp hw).2]
    exact hneeds
  · intro hneeds
    exact ⟨_, _, hname, hneeds, (position?_eq_some hlawful).mpr ⟨hj, rfl⟩⟩

variable {dependencies more}

/-- Both ends of a dependency are known. -/
theorem known_of_needs {x y : String} (h : Needs dependencies x y) :
    Known dependencies more x ∧ Known dependencies more y := by
  obtain ⟨wanted, hfind, hy⟩ := h
  have hmem := Ledger.mem_of_find? hfind
  exact ⟨Or.inr ⟨_, hmem, Or.inl rfl⟩, Or.inr ⟨_, hmem, Or.inr hy⟩⟩

/-- What a known name needs is known. -/
theorem mem_ids_of_wanted {x w : String} (hw : w ∈ (dependencies.find? x).getD []) :
    w ∈ (ofDependencies dependencies more).ids := by
  cases hfind : dependencies.find? x with
  | none =>
    rw [hfind] at hw
    cases hw
  | some wanted =>
    rw [hfind] at hw
    exact (mem_ids_ofDependencies dependencies more).mpr (known_of_needs ⟨wanted, hfind, hw⟩).2

/-- A position's needs are, by name, the first occurrences in its name's entry. -/
theorem names_needsAt {i : Nat} {x : String}
    (hx : (ofDependencies dependencies more).ids[i]? = some x) :
    ((ofDependencies dependencies more).needsAt i).map (ofDependencies dependencies more).nameAt =
      ((dependencies.find? x).getD []).eraseDups := by
  rw [needsAt_ofDependencies dependencies more hx]
  exact names_eraseDups (lawful_ofDependencies dependencies more) fun w hw => mem_ids_of_wanted hw

/-- Chains of edges are chains of dependencies. -/
theorem chain_names {i j : Nat} (h : TransGen (ofDependencies dependencies more).Edge i j) :
    TransGen (Needs dependencies) ((ofDependencies dependencies more).nameAt i)
      ((ofDependencies dependencies more).nameAt j) := by
  have hlawful := lawful_ofDependencies dependencies more
  have hstep : ∀ k l, (ofDependencies dependencies more).Edge k l →
      Needs dependencies ((ofDependencies dependencies more).nameAt k)
        ((ofDependencies dependencies more).nameAt l) := by
    intro k l hkl
    exact (edge_iff_needs dependencies more (hkl.lt_left hlawful) (hlawful.edge_lt hkl)).mp hkl
  exact TransGen.lift _ hstep i j h

/-- Chains of dependencies are chains of edges. -/
theorem chain_positions {i : Nat} (hi : i < (ofDependencies dependencies more).size)
    {y : String}
    (h : TransGen (Needs dependencies) ((ofDependencies dependencies more).nameAt i) y) :
    ∃ j, j < (ofDependencies dependencies more).size ∧
      (ofDependencies dependencies more).nameAt j = y ∧
      TransGen (ofDependencies dependencies more).Edge i j := by
  induction h with
  | single hneeds =>
    obtain ⟨j, hj, rfl⟩ := exists_position
      ((mem_ids_ofDependencies dependencies more).mpr (known_of_needs hneeds).2)
    exact ⟨j, hj, rfl, .single ((edge_iff_needs dependencies more hi hj).mpr hneeds)⟩
  | tail _ hneeds ih =>
    obtain ⟨k, hk, rfl, hik⟩ := ih
    obtain ⟨j, hj, rfl⟩ := exists_position
      ((mem_ids_ofDependencies dependencies more).mpr (known_of_needs hneeds).2)
    exact ⟨j, hj, rfl, hik.tail ((edge_iff_needs dependencies more hk hj).mpr hneeds)⟩

end dependencies

end Graph

end Regen
