import Regen.Proofs.Lockfile.Planned

/-! # Answers do not depend on the order of arrival

    Dependencies, sources and files may arrive in any order, and names may be asked for in any order
    and more than once.  A graph sorts its names before it gives them positions, sorts the names
    with dependencies before it reads their needs and looks needs up by name, so rearranged
    dependencies make the same graph.  The order within a list of needs is the stored one and stays
    as it is. -/

namespace Regen

/-! ## Graphs -/

namespace Graph

variable {dependencies others : Ledger (List String)} {more further names again : List String}

theorem mem_mentioned_congr (h : dependencies.SameEntries others) (x : String) :
    x ∈ mentioned dependencies ↔ x ∈ mentioned others :=
  (h.perm.flatMap_right _).mem_iff

/-- **Rearranged dependencies make the same graph.** -/
theorem ofDependencies_congr (h : dependencies.SameEntries others)
    (hmore : ∀ x, x ∈ more ↔ x ∈ further) :
    ofDependencies dependencies more = ofDependencies others further := by
  have hids : Text.sortedDistinct (more ++ mentioned dependencies) =
      Text.sortedDistinct (further ++ mentioned others) :=
    Text.sortedDistinct_congr fun x => by
      rw [List.mem_append, List.mem_append, hmore, mem_mentioned_congr h]
  have hnames : Text.sortedDistinct dependencies.names = Text.sortedDistinct others.names :=
    Text.sortedDistinct_congr fun _ => (h.perm.map _).mem_iff
  simp only [ofDependencies, hids, hnames, h.find?_eq]

/-- The walks from changed names find the same dependents, whichever name is the first. -/
theorem transitiveDependents_congr (hnames : ∀ x, x ∈ names ↔ x ∈ again) :
    (ofDependencies dependencies more).transitiveDependents names =
      (ofDependencies dependencies more).transitiveDependents again := by
  have hlawful := lawful_ofDependencies dependencies more
  refine Text.eq_of_ascending (pairwise_transitiveDependents hlawful _)
    (pairwise_transitiveDependents hlawful _) fun x => ?_
  simp only [mem_transitiveDependents, hnames]

theorem orderSubset_congr (g : Graph) (hnames : ∀ x, x ∈ names ↔ x ∈ again) :
    g.orderSubset names = g.orderSubset again := by
  have hwanted : names.contains = again.contains := by
    funext x
    rw [Bool.eq_iff_iff, List.contains_iff_mem, List.contains_iff_mem, hnames]
  have hstrangers : Text.sortedDistinct (names.filter fun name => !g.contains name) =
      Text.sortedDistinct (again.filter fun name => !g.contains name) :=
    Text.sortedDistinct_congr fun x => by rw [List.mem_filter, List.mem_filter, hnames]
  simp only [orderSubset, hwanted, hstrangers]

end Graph

/-! ## Lockfiles -/

namespace Lockfile

/-- Two lockfiles have the same sources, files and dependencies, in whatever order they arrived. -/
structure Rearranged (l m : Lockfile) : Prop where
  sources : l.sources.SameEntries m.sources
  files : l.files.SameEntries m.files
  dependencies : l.dependencies.SameEntries m.dependencies

variable {l m : Lockfile} {names again : List String}

theorem Rearranged.graph_eq (h : l.Rearranged m) : l.graph = m.graph :=
  Graph.ofDependencies_congr h.dependencies fun _ => (h.sources.perm.map _).mem_iff

theorem Rearranged.filesOf_eq (h : l.Rearranged m) (sources : List String) :
    l.filesOf sources = m.filesOf sources := by
  unfold filesOf
  split
  · rfl
  · exact Text.sorted_congr ((h.files.perm.filter _).map _)

theorem Rearranged.estimateMillis_eq (h : l.Rearranged m) (paths : List String) :
    l.estimateMillis paths = m.estimateMillis paths := by
  simp only [estimateMillis, h.files.find?_eq]

theorem Rearranged.plan_eq (h : l.Rearranged m) (hnames : ∀ x, x ∈ names ↔ x ∈ again) :
    l.plan names = m.plan again := by
  simp only [plan, planWith, h.graph_eq, h.filesOf_eq, h.estimateMillis_eq,
    Text.sortedDistinct_congr hnames]

end Lockfile

/-- **Answers do not depend on the order of arrival.**  The dependencies and the further names may
    arrive in any order, and so may a lockfile's sources, files and dependencies; what is asked for
    may be given in any order and repeatedly.  All answers are the same, and so is the source that a
    failure names. -/
theorem answers_of_rearranged {dependencies others : Ledger (List String)}
    {more further names again : List String} {l m : Lockfile}
    (hdependencies : dependencies.SameEntries others) (hmore : ∀ x, x ∈ more ↔ x ∈ further)
    (hnames : ∀ x, x ∈ names ↔ x ∈ again) (hl : l.Rearranged m) :
    let g := Graph.ofDependencies dependencies more
    let g' := Graph.ofDependencies others further
    g.ids = g'.ids ∧
    (∀ x, g.dependenciesOf x = g'.dependenciesOf x) ∧
    (∀ x, g.dependentsOf x = g'.dependentsOf x) ∧
    g.transitiveDependents names = g'.transitiveDependents again ∧
    g.generationOrder = g'.generationOrder ∧
    g.orderSubset names = g'.orderSubset again ∧
    l.plan names = m.plan again := by
  intro g g'
  have hgraph : g = g' := Graph.ofDependencies_congr hdependencies hmore
  rw [← hgraph]
  exact ⟨rfl, fun _ => rfl, fun _ => rfl, Graph.transitiveDependents_congr hnames, rfl,
    g.orderSubset_congr hnames, hl.plan_eq hnames⟩

namespace Lockfile

/-- The same entries in reverse. -/
def reversed (l : Lockfile) : Lockfile :=
  { l with
    sources := l.sources.reverse
    files := l.files.reverse
    dependencies := l.dependencies.reverse }

/-- A graph with a circle, read backwards, and names that are repeated. -/
theorem answers_of_rearranged_circular :
    circular.dependencies.SameEntries circular.reversed.dependencies ∧
      (∀ x, x ∈ ["z", "a"] ↔ x ∈ ["a", "z", "a"]) ∧ (∀ x, x ∈ ["b", "x"] ↔ x ∈ ["x", "b", "x"]) ∧
      circular.Rearranged circular.reversed ∧
      (Graph.ofDependencies circular.dependencies ["z", "a"]).orderSubset ["b", "x"] =
        (Graph.ofDependencies circular.reversed.dependencies ["a", "z", "a"]).orderSubset
          ["x", "b", "x"] ∧
      circular.plan ["b", "x"] = circular.reversed.plan ["x", "b", "x"] := by
  have hdependencies : circular.dependencies.SameEntries circular.reversed.dependencies :=
    ⟨by decide, (List.reverse_perm _).symm⟩
  have hmore : ∀ x, x ∈ ["z", "a"] ↔ x ∈ ["a", "z", "a"] := by simp [or_comm]
  have hnames : ∀ x, x ∈ ["b", "x"] ↔ x ∈ ["x", "b", "x"] := by simp [or_comm]
  have hl : circular.Rearranged circular.reversed :=
    ⟨⟨by decide, (List.reverse_perm _).symm⟩, ⟨by decide, (List.reverse_perm _).symm⟩,
      hdependencies⟩
  obtain ⟨-, -, -, -, -, horder, hplan⟩ := answers_of_rearranged hdependencies hmore hnames hl
  exact ⟨hdependencies, hmore, hnames, hl, horder, hplan⟩

end Lockfile

end Regen
