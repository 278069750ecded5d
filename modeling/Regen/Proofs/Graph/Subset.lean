import Regen.Proofs.Graph.Order

/-! # Wanted names in generation order

    The wanted names that a graph knows are picked from the generation order of the whole graph, so
    they keep every constraint between them, also one that goes through names that are not wanted.
    The other wanted names, the strangers, follow in ascending order (`Arranged`).  A circle
    anywhere in the graph leaves no order to pick from. -/

namespace Regen.Graph

open Relation

/-- **How wanted names are arranged**: the known ones, then the strangers. -/
structure Arranged (dependencies : Ledger (List String)) (more wanted known strangers : List String) :
    Prop where
  nodup : (known ++ strangers).Nodup
  mem_iff : ∀ x, x ∈ known ++ strangers ↔ x ∈ wanted
  knows : ∀ x ∈ known, Known dependencies more x
  strange : ∀ x ∈ strangers, ¬Known dependencies more x
  /-- A known name stands behind every wanted one that it depends on, directly or through others,
      wanted or not. -/
  behind : ∀ x ∈ known, ∀ y ∈ wanted, TransGen (Needs dependencies) x y → [y, x].Sublist known
  ascending : strangers.Pairwise (Text.codes · < Text.codes ·)

section wanted
variable {dependencies : Ledger (List String)} {more wanted ordered : List String}

/-- Wanted names that depend on something are no strangers. -/
theorem Arranged.mem_known {known strangers : List String}
    (h : Arranged dependencies more wanted known strangers) {x y : String} (hx : x ∈ wanted)
    (hxy : TransGen (Needs dependencies) x y) : x ∈ known := by
  obtain ⟨z, hxz, _⟩ := TransGen.head'_iff.mp hxy
  refine (List.mem_append.mp ((h.mem_iff x).mpr hx)).resolve_right fun hstrange => ?_
  exact h.strange x hstrange (known_of_needs hxz).1

theorem mem_strangers {x : String} :
    x ∈ Text.sortedDistinct
        (wanted.filter fun name => !(ofDependencies dependencies more).contains name) ↔
      x ∈ wanted ∧ ¬Known dependencies more x := by
  rw [Text.mem_sortedDistinct, List.mem_filter, ← mem_ids_ofDependencies, ← contains_iff]
  simp

/-- The wanted names of a generation order, with the strangers behind them, are arranged. -/
theorem Ordered.arranged {order : List Nat}
    (h : Ordered (ofDependencies dependencies more) order) (wanted : List String) :
    Arranged dependencies more wanted
      ((order.map (ofDependencies dependencies more).nameAt).filter wanted.contains)
      (Text.sortedDistinct
        (wanted.filter fun name => !(ofDependencies dependencies more).contains name)) := by
  obtain ⟨hnodup, hmem, hbehind⟩ := h.names
  have hknown : ∀ x, x ∈ (order.map (ofDependencies dependencies more).nameAt).filter
      wanted.contains ↔ Known dependencies more x ∧ x ∈ wanted := by
    intro x
    rw [List.mem_filter, hmem, List.contains_iff_mem]
  refine
    { nodup := ?_
      mem_iff := fun x => ?_
      knows := fun x hx => ((hknown x).mp hx).1
      strange := fun x hx => (mem_strangers.mp hx).2
      behind := fun x hx y hy hxy => ?_
      ascending := Text.pairwise_sortedDistinct _ }
  · refine List.Nodup.append (hnodup.filter _) (Text.nodup_sortedDistinct _) ?_
    intro x hx hstrange
    exact (mem_strangers.mp hstrange).2 ((hknown x).mp hx).1
  · rw [List.mem_append, hknown, mem_strangers]
    tauto
  · -- Picking the wanted names leaves the two of them in place.
    have hpair : [y, x].filter wanted.contains = [y, x] := by
      simp [hy, ((hknown x).mp hx).2]
    rw [← hpair]
    exact (hbehind x y hxy).filter _

/-- How wanted names come out: arranged, or as a name on a circle. -/
theorem orderSubset_cases (dependencies : Ledger (List String)) (more wanted : List String) :
    (∃ known strangers,
      (ofDependencies dependencies more).orderSubset wanted = .ok (known ++ strangers) ∧
      Arranged dependencies more wanted known strangers ∧
      ∀ x, ¬TransGen (Needs dependencies) x x) ∨
    (∃ x, (ofDependencies dependencies more).orderSubset wanted = .error (.cycle x) ∧
      TransGen (Needs dependencies) x x) := by
  rcases generationOrder_cases (lawful_ofDependencies dependencies more) with
    ⟨order, hordered, hok⟩ | ⟨j, _, hcircle, herror⟩
  · exact .inl ⟨_, _, by rw [orderSubset, hok]; rfl, hordered.arranged wanted,
      acyclic_of_generationOrder hok⟩
  · exact .inr ⟨_, by rw [orderSubset, herror]; rfl, chain_names hcircle⟩

/-- Without circles any names can be put in generation order. -/
theorem exists_orderSubset (hacyclic : ∀ x, ¬TransGen (Needs dependencies) x x)
    (wanted : List String) :
    ∃ ordered, (ofDependencies dependencies more).orderSubset wanted = .ok ordered := by
  rcases orderSubset_cases dependencies more wanted with ⟨_, _, hok, _⟩ | ⟨x, _, hcircle⟩
  · exact ⟨_, hok⟩
  · exact absurd hcircle (hacyclic x)

/-- Wanted names have no generation order only if there is a circle, and one that goes through the
    name that is given. -/
theorem circle_of_orderSubset {f : Failure}
    (h : (ofDependencies dependencies more).orderSubset wanted = .error f) :
    ∃ x, f = .cycle x ∧ TransGen (Needs dependencies) x x := by
  rcases orderSubset_cases dependencies more wanted with ⟨_, _, hok, _⟩ | ⟨x, herror, hcircle⟩
  · rw [hok] at h
    cases h
  · rw [herror] at h
    exact ⟨x, (Except.error.inj h).symm, hcircle⟩

/-- The wanted names in generation order: each once, behind all wanted ones that it depends on,
    directly or through names that are not wanted. -/
theorem orderSubset_ok (h : (ofDependencies dependencies more).orderSubset wanted = .ok ordered) :
    ordered.Nodup ∧ (∀ x, x ∈ ordered ↔ x ∈ wanted) ∧
      ∀ x y, x ∈ wanted → y ∈ wanted → TransGen (Needs dependencies) x y →
        [y, x].Sublist ordered := by
  rcases orderSubset_cases dependencies more wanted with ⟨known, strangers, hok, harranged, _⟩ |
    ⟨x, herror, _⟩
  · rw [hok] at h
    obtain rfl := Except.ok.inj h
    refine ⟨harranged.nodup, harranged.mem_iff, fun x y hx hy hxy => ?_⟩
    have hknown : x ∈ known := harranged.mem_known hx hxy
    exact (harranged.behind x hknown y hy hxy).trans (List.sublist_append_left _ _)
  · rw [herror] at h
    cases h

end wanted

/-- **Wanted names come in generation order.**  For every graph and whichever names are wanted, in
    whatever order and however often each is given, known to the graph or not:

    * a circle is reported exactly if the whole graph has one, also if no wanted name leads to it;
    * otherwise the answer holds the wanted names, each once: the known ones, each behind every
      wanted one that it depends on, and then the strangers in ascending order. -/
theorem orderSubset_exact (dependencies : Ledger (List String)) (more wanted : List String) :
    let g := ofDependencies dependencies more
    ((∃ x, g.orderSubset wanted = .error (.cycle x)) ↔
      ∃ x, TransGen (Needs dependencies) x x) ∧
    ((∃ x, g.orderSubset wanted = .error (.cycle x)) ∨
      ∃ known strangers, g.orderSubset wanted = .ok (known ++ strangers) ∧
        Arranged dependencies more wanted known strangers) := by
  intro g
  rcases orderSubset_cases dependencies more wanted with
    ⟨known, strangers, hok, harranged, hacyclic⟩ | ⟨x, herror, hcircle⟩
  · refine ⟨⟨fun ⟨x, herror⟩ => ?_, fun ⟨x, hcircle⟩ => absurd hcircle (hacyclic x)⟩,
      .inr ⟨known, strangers, hok, harranged⟩⟩
    rw [hok] at herror
    cases herror
  · exact ⟨⟨fun _ => ⟨x, hcircle⟩, fun _ => ⟨x, herror⟩⟩, .inl ⟨x, herror⟩⟩

/-- A constraint through a name that is not wanted, a repeated name and two strangers. -/
example : (ofDependencies [("a", ["b"]), ("b", ["c"])] []).orderSubset ["y", "a", "x", "c", "a"] =
    .ok ["c", "a", "x", "y"] := by
  decide

end Regen.Graph
