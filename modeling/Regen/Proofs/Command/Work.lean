import Regen.Command.Plan
import Regen.Proofs.Graph.Subset
import Regen.Proofs.Lockfile.Planned
import Regen.Proofs.Outcome

/-! # What is generated again

    A source is dirty when its current fingerprint is not the recorded one or either of them is
    missing.  What the next run generates is said here in those terms and in terms of chains of
    wants: dependencies that the lockfile records or that the settings name. -/

namespace Regen.Command

open Relation

/-! ## Wants -/

/-- The source `x` wants `y`: the lockfile records it, or the settings say so. -/
def Wants (stored : Lockfile) (s : Settings) (x y : String) : Prop :=
  Needs stored.dependencies x y ∨ ∃ source ∈ s.sources, source.name = x ∧ y ∈ source.dependsOn

section wants
variable {l : Lockfile} {a b x y : String}

theorem needs_iff {dependencies : Ledger (List String)} :
    Needs dependencies x y ↔ y ∈ (dependencies.find? x).getD [] := by
  unfold Needs
  match dependencies.find? x with
  | none => simp
  | some wanted => simp

/-- Adding a dependency adds that one. -/
theorem needs_addDependency :
    Needs (l.addDependency a b).dependencies x y ↔
      Needs l.dependencies x y ∨ (a = x ∧ b = y) := by
  rw [needs_iff, needs_iff]
  unfold Lockfile.addDependency
  dsimp only
  by_cases hx : a = x
  · subst hx
    rw [Ledger.find?_insert_self, Option.getD_some]
    split
    · next hknown =>
      -- The dependency was there before.
      have hb := List.contains_iff_mem.mp hknown
      constructor
      · exact Or.inl
      · rintro (hy | ⟨_, rfl⟩)
        · exact hy
        · exact hb
    · rw [List.mem_append, List.mem_singleton]
      exact or_congr Iff.rfl ⟨fun h => ⟨rfl, h.symm⟩, fun h => h.2.symm⟩
  · rw [Ledger.find?_insert_of_ne _ _ hx]
    simp [hx]

theorem needs_addDependencies (wanted : List String) :
    Needs (wanted.foldl (fun l w => l.addDependency a w) l).dependencies x y ↔
      Needs l.dependencies x y ∨ (a = x ∧ y ∈ wanted) := by
  induction wanted generalizing l with
  | nil => simp
  | cons w rest ih =>
    rw [List.foldl_cons, ih, needs_addDependency, List.mem_cons]
    tauto

theorem mem_dependencies {s : Settings} (hnames : s.sourceNames.Nodup) {e : String × List String} :
    e ∈ s.dependencies ↔
      ∃ source ∈ s.sources, source.dependsOn ≠ [] ∧ e = (source.name, source.dependsOn) := by
  have hdistinct : (((s.sources.filter fun x => !x.dependsOn.isEmpty).map fun x =>
      (x.name, x.dependsOn)).map (·.1)).Nodup := by
    rw [List.map_map]
    exact hnames.sublist (List.filter_sublist.map _)
  rw [Settings.dependencies, Ledger.ofEntries_of_nodup hdistinct, List.mem_map]
  constructor
  · rintro ⟨source, hsource, rfl⟩
    obtain ⟨hmem, hsome⟩ := List.mem_filter.mp hsource
    exact ⟨source, hmem, by simpa using hsome, rfl⟩
  · rintro ⟨source, hmem, hsome, rfl⟩
    exact ⟨source, List.mem_filter.mpr ⟨hmem, by simpa using hsome⟩, rfl⟩

/-- **The lockfile with the dependencies of the settings records exactly the wants.** -/
theorem needs_withDependencies {stored : Lockfile} {s : Settings} (hnames : s.sourceNames.Nodup) :
    Needs (withDependencies stored s).dependencies x y ↔ Wants stored s x y := by
  have hfold : ∀ (entries : Ledger (List String)) (l : Lockfile),
      Needs (entries.foldl (fun l e => e.2.foldl (fun l w => l.addDependency e.1 w) l)
        l).dependencies x y ↔
        Needs l.dependencies x y ∨ ∃ e ∈ entries, e.1 = x ∧ y ∈ e.2 := by
    intro entries
    induction entries with
    | nil => simp
    | cons e rest ih =>
      intro l
      rw [List.foldl_cons, ih, needs_addDependencies]
      simp only [List.mem_cons, exists_eq_or_imp]
      tauto
  rw [withDependencies, hfold, Wants]
  refine or_congr Iff.rfl ⟨?_, ?_⟩
  · rintro ⟨e, he, rfl, hy⟩
    obtain ⟨source, hsource, _, rfl⟩ := (mem_dependencies hnames).mp he
    exact ⟨source, hsource, rfl, hy⟩
  · rintro ⟨source, hsource, rfl, hy⟩
    exact ⟨_, (mem_dependencies hnames).mpr ⟨source, hsource, List.ne_nil_of_mem hy, rfl⟩, rfl, hy⟩

/-- Steps that change nothing but the dependencies change nothing else together. -/
theorem exists_foldl_dependencies {α : Type} {step : Lockfile → α → Lockfile}
    (hstep : ∀ x, ∃ add : Ledger (List String) → Ledger (List String),
      ∀ l, step l x = { l with dependencies := add l.dependencies }) (xs : List α) :
    ∃ add : Ledger (List String) → Ledger (List String),
      ∀ l, xs.foldl step l = { l with dependencies := add l.dependencies } := by
  induction xs with
  | nil => exact ⟨id, fun _ => rfl⟩
  | cons x rest ih =>
    obtain ⟨addFirst, hfirst⟩ := hstep x
    obtain ⟨addRest, hrest⟩ := ih
    refine ⟨addRest ∘ addFirst, fun l => ?_⟩
    rw [List.foldl_cons, hrest, hfirst]
    rfl

/-- **Settings add to the dependencies of a lockfile** and change nothing else. -/
theorem exists_withDependencies (s : Settings) :
    ∃ add : Ledger (List String) → Ledger (List String),
      ∀ l, withDependencies l s = { l with dependencies := add l.dependencies } := by
  apply exists_foldl_dependencies
  intro e
  apply exists_foldl_dependencies
  intro wanted
  exact ⟨fun dependencies =>
    let known := (dependencies.find? e.1).getD []
    dependencies.insert e.1 (if known.contains wanted then known else known ++ [wanted]),
    fun _ => rfl⟩

theorem sources_withDependencies (stored : Lockfile) (s : Settings) :
    (withDependencies stored s).sources = stored.sources := by
  obtain ⟨add, hadd⟩ := exists_withDependencies s
  rw [hadd]

theorem changedSources_withDependencies (stored : Lockfile) (s : Settings)
    (current : Ledger String) :
    (withDependencies stored s).changedSources current = stored.changedSources current := by
  obtain ⟨add, hadd⟩ := exists_withDependencies s
  rw [hadd]
  rfl

theorem files_withDependencies (stored : Lockfile) (s : Settings) :
    (withDependencies stored s).files = stored.files := by
  obtain ⟨add, hadd⟩ := exists_withDependencies s
  rw [hadd]

end wants

/-! ## Dirty sources -/

/-- **A configured source is dirty** if its current fingerprint is not known, it has no record, or
    the record has another fingerprint. -/
def Dirty (stored : Lockfile) (s : Settings) (current : Ledger String) (x : String) : Prop :=
  x ∈ s.sourceNames ∧ (current.find? x = none ∨ stored.sources.find? x = none ∨
    ∃ fingerprint record, current.find? x = some fingerprint ∧
      stored.sources.find? x = some record ∧ record.fingerprint ≠ fingerprint)

/-- The current fingerprints are those of configured sources, each once. -/
structure Current (s : Settings) (current : Ledger String) : Prop where
  distinct : current.names.Nodup
  configured : ∀ x ∈ current.names, x ∈ s.sourceNames

section dirty
variable {l stored : Lockfile} {s : Settings} {current : Ledger String} {x : String}

theorem mem_unresolvedSources :
    x ∈ unresolvedSources s current ↔ x ∈ s.sourceNames ∧ current.find? x = none := by
  rw [unresolvedSources, Text.mem_sorted, List.mem_filter]
  simp [Ledger.has]

theorem sourceChanged_iff {fingerprint : String} :
    l.sourceChanged x fingerprint = true ↔ l.sources.find? x = none ∨
      ∃ record, l.sources.find? x = some record ∧ record.fingerprint ≠ fingerprint := by
  unfold Lockfile.sourceChanged
  match l.sources.find? x with
  | none => simp
  | some record => simp

theorem mem_changedSources (hdistinct : current.names.Nodup) :
    x ∈ l.changedSources current ↔ ∃ fingerprint, current.find? x = some fingerprint ∧
      l.sourceChanged x fingerprint = true := by
  rw [Lockfile.changedSources, Text.mem_sorted, List.mem_map]
  constructor
  · rintro ⟨⟨n, fingerprint⟩, he, rfl⟩
    obtain ⟨hmem, hchanged⟩ := List.mem_filter.mp he
    exact ⟨fingerprint, (Ledger.find?_eq_some_iff hdistinct).mpr hmem, hchanged⟩
  · rintro ⟨fingerprint, hfind, hchanged⟩
    exact ⟨(x, fingerprint), List.mem_filter.mpr ⟨Ledger.mem_of_find? hfind, hchanged⟩, rfl⟩

/-- **The changed and the unresolved sources are the dirty ones.** -/
theorem mem_changed_iff_dirty (hcurrent : Current s current) (hsources : l.sources = stored.sources) :
    x ∈ l.changedSources current ++ unresolvedSources s current ↔ Dirty stored s current x := by
  rw [List.mem_append, mem_changedSources hcurrent.distinct, mem_unresolvedSources, Dirty]
  match hfind : current.find? x with
  | none => simp
  | some fingerprint =>
    have hx : x ∈ s.sourceNames :=
      hcurrent.configured x (Ledger.mem_names.mpr ⟨_, Ledger.mem_of_find? hfind⟩)
    simp [sourceChanged_iff, hsources, hx]

end dirty

/-! ## The plan -/

section work
variable {stored : Lockfile} {s : Settings} {current : Ledger String} {force : Bool} {w : Work}
  {x y : String}

/-- A source is to be generated again if it is dirty or a chain of wants leads from it to a dirty
    one. -/
def Affected (stored : Lockfile) (s : Settings) (current : Ledger String) (x : String) : Prop :=
  Dirty stored s current x ∨ ∃ y, TransGen (Wants stored s) x y ∧ Dirty stored s current y

/-- Chains of recorded dependencies are chains of wants once the settings' own are added. -/
theorem chain_withDependencies (hnames : s.sourceNames.Nodup) :
    TransGen (Needs (withDependencies stored s).dependencies) x y ↔
      TransGen (Wants stored s) x y := by
  have hrelation : Needs (withDependencies stored s).dependencies = Wants stored s := by
    funext x y
    exact propext (needs_withDependencies hnames)
  rw [hrelation]

/-- The plan for the sources that are changed or unresolved, with the dependencies of the settings
    added to the recorded ones. -/
def pendingPlan (stored : Lockfile) (s : Settings) (current : Ledger String) : Plan :=
  (withDependencies stored s).planWith (withDependencies stored s).graph
    ((withDependencies stored s).changedSources current ++ unresolvedSources s current)

/-- The parts of the work. -/
theorem workOf_eq_ok (h : workOf s stored current force = .ok w) :
    w.plan = pendingPlan stored s current ∧
      w.full = (force || w.plan.requiresFull) ∧
      (withDependencies stored s).graph.orderSubset
        (if w.full then s.sourceNames else w.plan.sourcesToRebuild) = .ok w.ordered := by
  obtain ⟨ordered, hordered, hw⟩ := bind_eq_ok.mp h
  obtain rfl := Except.ok.inj hw
  exact ⟨rfl, rfl, hordered⟩

/-- **The sources to rebuild** are the changed and the unresolved ones, and those with a chain of
    dependencies to one of them. -/
theorem mem_sourcesToRebuild :
    x ∈ (pendingPlan stored s current).sourcesToRebuild ↔
      ∃ c ∈ stored.changedSources current ++ unresolvedSources s current,
        x = c ∨ TransGen (Needs (withDependencies stored s).dependencies) x c := by
  refine Lockfile.mem_sourcesToRebuild.trans ?_
  simp only [changedSources_withDependencies, reflTransGen_iff_eq_or_transGen, eq_comm]

/-- **The sources to rebuild are the affected ones.** -/
theorem mem_sourcesToRebuild_iff_affected (hnames : s.sourceNames.Nodup)
    (hcurrent : Current s current) :
    x ∈ (pendingPlan stored s current).sourcesToRebuild ↔ Affected stored s current x := by
  simp only [mem_sourcesToRebuild, mem_changed_iff_dirty hcurrent rfl,
    chain_withDependencies hnames]
  constructor
  · rintro ⟨c, hc, rfl | hchain⟩
    · exact .inl hc
    · exact .inr ⟨c, hchain, hc⟩
  · rintro (hx | ⟨c, hchain, hc⟩)
    · exact ⟨x, hx, .inl rfl⟩
    · exact ⟨c, hc, .inr hchain⟩

/-- An incremental list has the affected sources. -/
theorem mem_ordered_of_incremental (hnames : s.sourceNames.Nodup) (hcurrent : Current s current)
    (h : workOf s stored current force = .ok w) (hno : w.full = false) :
    x ∈ w.ordered ↔ Affected stored s current x := by
  obtain ⟨hplan, -, hordered⟩ := workOf_eq_ok h
  obtain ⟨-, hmem, -⟩ := Graph.orderSubset_ok hordered
  rw [hmem, hno, if_neg Bool.false_ne_true, hplan]
  exact mem_sourcesToRebuild_iff_affected hnames hcurrent

/-- **The work covers the affected sources and, while it is incremental, nothing else.**  Whatever
    is listed is listed once, behind all listed sources that it wants, directly or through
    others. -/
theorem workOf_ok (hnames : s.sourceNames.Nodup) (hcurrent : Current s current)
    (h : workOf s stored current force = .ok w) :
    (∀ x ∈ s.sourceNames, Affected stored s current x → x ∈ w.ordered) ∧
    (w.full = false → ∀ x ∈ w.ordered, Affected stored s current x) ∧
    (w.full = true → ∀ x, x ∈ w.ordered ↔ x ∈ s.sourceNames) ∧
    w.ordered.Nodup ∧
    ∀ x ∈ w.ordered, ∀ y ∈ w.ordered, TransGen (Wants stored s) x y → [y, x].Sublist w.ordered := by
  obtain ⟨-, -, hordered⟩ := workOf_eq_ok h
  obtain ⟨hdistinct, hmem, hbehind⟩ := Graph.orderSubset_ok hordered
  have hincremental : w.full = false → ∀ x, x ∈ w.ordered ↔ Affected stored s current x :=
    fun hno x => mem_ordered_of_incremental hnames hcurrent h hno
  have hall : w.full = true → ∀ x, x ∈ w.ordered ↔ x ∈ s.sourceNames := by
    intro hyes x
    rw [hmem, hyes, if_pos rfl]
  refine ⟨?_, ?_, hall, hdistinct, ?_⟩
  · intro x hx haffected
    -- A full list has the source because it is configured, an incremental one for its own sake.
    by_cases hyes : w.full = true
    · exact (hall hyes x).mpr hx
    · exact (hincremental (Bool.eq_false_iff.mpr hyes) x).mpr haffected
  · intro hno x hx
    exact (hincremental hno x).mp hx
  · intro x hx y hy hchain
    have hrecorded := (chain_withDependencies hnames).mpr hchain
    exact hbehind x y ((hmem x).mp hx) ((hmem y).mp hy) hrecorded

end work

end Regen.Command
