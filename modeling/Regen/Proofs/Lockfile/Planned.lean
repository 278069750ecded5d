import Mathlib.Data.Finset.Dedup
import Mathlib.Order.Bounds.Defs
import Regen.Lockfile.Plan
import Regen.Proofs.Graph.Dependents
import Regen.Proofs.Ledger

/-! # What a plan holds

    A plan is worked out from a lockfile and the names of changed sources, and nothing else.  Each
    of its fields is said here in terms of the lockfile's entries (`PlanFor`): which sources and
    files are generated again, whether an incremental run will do, and how long it may take. -/

namespace Regen

open Relation

/-- A set of sources is closed if it holds every source that depends on a member. -/
def ClosedUnder (dependencies : Ledger (List String)) (S : Set String) : Prop :=
  ∀ x y, Needs dependencies x y → y ∈ S → x ∈ S

/-- What depends on a member of a closed set, directly or through others, is a member. -/
theorem ClosedUnder.mem_of_chain {dependencies : Ledger (List String)} {S : Set String}
    (h : ClosedUnder dependencies S) {x y : String} (hxy : ReflTransGen (Needs dependencies) x y)
    (hy : y ∈ S) : x ∈ S := by
  induction hxy using ReflTransGen.head_induction_on with
  | refl => exact hy
  | head hneeds _ ih => exact h _ _ hneeds ih

namespace Lockfile

variable {l : Lockfile} {changed : List String}

/-! ## Sources -/

/-- **The sources to rebuild** are the changed ones and what depends on them. -/
theorem mem_sourcesToRebuild {x : String} :
    x ∈ (l.plan changed).sourcesToRebuild ↔
      ∃ c ∈ changed, ReflTransGen (Needs l.dependencies) x c := by
  rw [Plan.sourcesToRebuild, Text.mem_sortedDistinct, List.mem_append]
  simp only [plan, planWith, graph, Graph.mem_transitiveDependents, Text.mem_sortedDistinct,
    reflTransGen_iff_eq_or_transGen]
  constructor
  · rintro (hx | ⟨c, hc, hchain⟩)
    · exact ⟨x, hx, .inl rfl⟩
    · exact ⟨c, hc, .inr hchain⟩
  · rintro ⟨c, hc, rfl | hchain⟩
    · exact .inl hc
    · exact .inr ⟨c, hc, hchain⟩

/-- They are the least set that has the changed sources and is closed. -/
theorem isLeast_sourcesToRebuild (l : Lockfile) (changed : List String) :
    IsLeast {S : Set String | (∀ c ∈ changed, c ∈ S) ∧ ClosedUnder l.dependencies S}
      {x | x ∈ (l.plan changed).sourcesToRebuild} := by
  refine ⟨⟨fun c hc => ?_, fun x y hneeds hy => ?_⟩, fun S ⟨hchanged, hclosed⟩ x hx => ?_⟩
  · exact mem_sourcesToRebuild.mpr ⟨c, hc, .refl⟩
  · obtain ⟨c, hc, hchain⟩ := mem_sourcesToRebuild.mp hy
    exact mem_sourcesToRebuild.mpr ⟨c, hc, .head hneeds hchain⟩
  · obtain ⟨c, hc, hchain⟩ := mem_sourcesToRebuild.mp hx
    exact hclosed.mem_of_chain hchain (hchanged c hc)

/-! ## Files -/

/-- **The recorded files of some sources** are those whose record names one of them or no owner. -/
theorem mem_filesOf (hdistinct : l.files.names.Nodup) {sources : List String} {path : String} :
    path ∈ l.filesOf sources ↔
      sources ≠ [] ∧ ∃ r, l.files.find? path = some r ∧ (r.owner = "" ∨ r.owner ∈ sources) := by
  unfold filesOf
  by_cases hnone : sources = []
  · simp [hnone]
  · rw [if_neg (by simpa using hnone), Text.mem_sorted, List.mem_map]
    simp only [List.mem_filter, Ledger.find?_eq_some_iff hdistinct, Bool.or_eq_true, beq_iff_eq,
      List.contains_iff_mem]
    constructor
    · rintro ⟨⟨name, r⟩, hr, rfl⟩
      exact ⟨hnone, r, hr⟩
    · rintro ⟨-, r, hr⟩
      exact ⟨(path, r), hr, rfl⟩

theorem pairwise_filesOf (hdistinct : l.files.names.Nodup) (sources : List String) :
    (l.filesOf sources).Pairwise (Text.codes · < Text.codes ·) := by
  unfold filesOf
  split
  · exact .nil
  · exact Text.pairwise_sorted_of_nodup (hdistinct.sublist (List.filter_sublist.map _))

/-- Where all paths are recorded, the estimate is a millisecond for every KiB of their records. -/
theorem exists_records {paths : List String} (h : ∀ p ∈ paths, ∃ r, l.files.find? p = some r) :
    ∃ records, List.Forall₂ (fun p r => l.files.find? p = some r) paths records ∧
      l.estimateMillis paths = (records.map FileRecord.size).sum / 1024 := by
  have hsizes : ∃ records, List.Forall₂ (fun p r => l.files.find? p = some r) paths records ∧
      (paths.filterMap fun p => (l.files.find? p).map FileRecord.size) =
        records.map FileRecord.size := by
    induction paths with
    | nil => exact ⟨[], .nil, rfl⟩
    | cons p rest ih =>
      obtain ⟨r, hr⟩ := h p List.mem_cons_self
      obtain ⟨records, hall, heq⟩ := ih fun q hq => h q (List.mem_cons_of_mem _ hq)
      exact ⟨r :: records, .cons hr hall, by simp [hr, heq]⟩
  obtain ⟨records, hall, heq⟩ := hsizes
  refine ⟨records, hall, ?_⟩
  rw [estimateMillis, heq]
  exact Int.fdiv_eq_ediv_of_nonneg _ (by decide)

/-! ## The plan -/

/-- **The plan after some sources changed**, field by field. -/
structure PlanFor (l : Lockfile) (changed : List String) (p : Plan) : Prop where
  changed_ascending : p.changed.Pairwise (Text.codes · < Text.codes ·)
  mem_changed : ∀ x, x ∈ p.changed ↔ x ∈ changed
  dependents_ascending : p.dependents.Pairwise (Text.codes · < Text.codes ·)
  mem_dependents : ∀ x, x ∈ p.dependents ↔ ∃ c ∈ changed, TransGen (Needs l.dependencies) x c
  sources_ascending : p.sourcesToRebuild.Pairwise (Text.codes · < Text.codes ·)
  sources_least : IsLeast {S : Set String | (∀ c ∈ changed, c ∈ S) ∧ ClosedUnder l.dependencies S}
    {x | x ∈ p.sourcesToRebuild}
  totalSources : p.totalSources = p.sourcesToRebuild.toFinset.card
  files_ascending : p.files.Pairwise (Text.codes · < Text.codes ·)
  mem_files : ∀ path, path ∈ p.files ↔
    changed ≠ [] ∧ ∃ r, l.files.find? path = some r ∧ (r.owner = "" ∨ r.owner ∈ changed)
  isIncremental : p.isIncremental = true ↔ p.dependents.toFinset.card ≤ 2 * changed.toFinset.card
  /-- The recorded sizes of the files, in KiB and rounded down. -/
  estimatedMillis : ∃ records, List.Forall₂ (fun path r => l.files.find? path = some r) p.files
    records ∧ p.estimatedMillis = (records.map FileRecord.size).sum / 1024

/-- Texts in ascending order are as many as the set of them has. -/
theorem length_eq_card {names others : List String} (h : names.Pairwise (Text.codes · < Text.codes ·))
    (hmem : ∀ x, x ∈ names ↔ x ∈ others) : names.length = others.toFinset.card := by
  rw [← List.toFinset_card_of_nodup (Text.nodup_of_ascending h)]
  exact congrArg _ (List.toFinset.ext hmem)

/-- An incremental run will do if there are at most two dependents for every changed source. -/
theorem isIncremental_planWith (g : Graph) : (l.planWith g changed).isIncremental = true ↔
    (l.planWith g changed).dependents.length ≤ 2 * (l.planWith g changed).changed.length := by
  show Plan.canIncremental _ _ = true ↔ _
  rw [Plan.canIncremental, Plan.fanOutLimit, decide_eq_true_iff]
  exact_mod_cast Iff.rfl

/-- **A plan holds exactly what is to be generated again**, whatever depends on what, circles
    included, and whichever names changed, repeated and unknown ones included.  The lockfile is an
    argument of the plan and stays as it is. -/
theorem plan_exact (hdistinct : l.files.names.Nodup) (changed : List String) :
    PlanFor l changed (l.plan changed) := by
  have hchanged : (l.plan changed).changed.Pairwise (Text.codes · < Text.codes ·) :=
    Text.pairwise_sortedDistinct changed
  have hmem : ∀ x, x ∈ (l.plan changed).changed ↔ x ∈ changed := fun x => Text.mem_sortedDistinct
  have hdependents : (l.plan changed).dependents.Pairwise (Text.codes · < Text.codes ·) :=
    Graph.pairwise_transitiveDependents (Graph.lawful_ofDependencies _ _) _
  have hsources : (l.plan changed).sourcesToRebuild.Pairwise (Text.codes · < Text.codes ·) :=
    Text.pairwise_sortedDistinct _
  have hfiles : ∀ path, path ∈ (l.plan changed).files ↔
      changed ≠ [] ∧ ∃ r, l.files.find? path = some r ∧ (r.owner = "" ∨ r.owner ∈ changed) := by
    intro path
    have hsome : (l.plan changed).changed ≠ [] ↔ changed ≠ [] := by
      simp only [ne_eq, List.eq_nil_iff_forall_not_mem, hmem]
    show path ∈ l.filesOf (l.plan changed).changed ↔ _
    simp only [mem_filesOf hdistinct, hsome, hmem]
  refine
    { changed_ascending := hchanged
      mem_changed := hmem
      dependents_ascending := hdependents
      mem_dependents := fun x => ?_
      sources_ascending := hsources
      sources_least := isLeast_sourcesToRebuild l changed
      totalSources := length_eq_card hsources fun x => Iff.rfl
      files_ascending := pairwise_filesOf hdistinct _
      mem_files := hfiles
      isIncremental := ?_
      estimatedMillis := exists_records fun path hpath => ?_ }
  · simp [plan, planWith, graph, Graph.mem_transitiveDependents]
  · rw [← length_eq_card hdependents fun x => Iff.rfl, ← length_eq_card hchanged hmem]
    exact isIncremental_planWith l.graph
  · obtain ⟨-, r, hr, -⟩ := (hfiles path).mp hpath
    exact ⟨r, hr⟩

/-- Two sources that need each other, a repeated need, and a file without an owner. -/
def circular : Lockfile :=
  let noon : Time.Moment := ⟨⟨2024, 5, 31⟩, 12, 0, 0, 0, some 0⟩
  { Lockfile.empty noon "1" with
    sources := [("d", ⟨"/d", "", "f1", noon, [], []⟩), ("a", ⟨"/a", "", "f2", noon, [], []⟩)]
    files := [("out/b.txt", ⟨"00", 2000, noon, "b", .null, .null⟩),
      ("out/any.txt", ⟨"01", 1500, noon, "", .null, .null⟩),
      ("out/a.txt", ⟨"02", 700, noon, "a", .null, .null⟩)]
    dependencies := [("b", ["c", "a", "c"]), ("a", ["b"])] }

/-- A changed source on a circle, given twice, and one that nobody knows. -/
theorem plan_exact_of_circular : circular.files.names.Nodup ∧
    PlanFor circular ["b", "x", "b"] (circular.plan ["b", "x", "b"]) :=
  ⟨by decide, plan_exact (by decide) _⟩

example : circular.plan ["b", "x", "b"] =
    ⟨["b", "x"], ["a", "b"], ["out/any.txt", "out/b.txt"], true, 3⟩ := by
  decide

end Lockfile

end Regen
