import Regen.Proofs.Command.Reports

/-! # Planning after an update

    A plan that follows an update reads what the update recorded.  With the fingerprints that the
    update found, it takes for changed what the update could not resolve, and nothing else. -/

namespace Regen.Command

open Relation

section work
variable {V : Value → Value → Prop} {s : Settings} {stored m : Lockfile} {current : Ledger String}
  {scanned : Ledger FileRecord} {x y : String}

/-! ## What is dirty after an update -/

/-- **After an update the unresolved sources are the dirty ones.** -/
theorem Updated.dirty_iff (hm : Updated V s stored current scanned m) :
    Dirty m s current x ↔ x ∈ unresolvedSources s current := by
  rw [mem_unresolvedSources]
  constructor
  · rintro ⟨hx, hdirty⟩
    refine ⟨hx, ?_⟩
    match hfind : current.find? x with
    | none => rfl
    | some fingerprint =>
      obtain ⟨source, hsource, rfl⟩ := List.mem_map.mp hx
      obtain ⟨r, hr, hsame, -⟩ := hm.resolved source hsource fingerprint hfind
      simp [hfind, hr, hsame] at hdirty
  · rintro ⟨hx, hnone⟩
    exact ⟨hx, .inl hnone⟩

/-- An update records the dependencies of its settings. -/
theorem Updated.needs_iff (hnames : s.sourceNames.Nodup)
    (hm : Updated V s stored current scanned m) :
    Needs m.dependencies x y ↔ Needs s.dependencies x y := by
  simp only [Needs, find?_dependencies hnames, hm.dependencies.2]

/-- After an update the lockfile records no other wants than the settings. -/
theorem Updated.wants_iff (hnames : s.sourceNames.Nodup)
    (hm : Updated V s stored current scanned m) : Wants m s x y ↔ Needs s.dependencies x y := by
  rw [Wants, hm.needs_iff hnames, ← needs_dependencies_iff hnames, or_self]

/-- The dependencies that a plan goes by after an update have no circle if those of the settings
    have none. -/
theorem Updated.acyclic (hnames : s.sourceNames.Nodup) (hm : Updated V s stored current scanned m)
    (hacyclic : ∀ x, ¬TransGen (Needs s.dependencies) x x) (x : String) :
    ¬TransGen (Needs (withDependencies m s).dependencies) x x := by
  rw [chain_withDependencies hnames]
  have hwants : Wants m s = Needs s.dependencies := by
    funext x y
    exact propext (hm.wants_iff hnames)
  rw [hwants]
  exact hacyclic x

/-- With no changed source nothing depends on one, and an incremental run is enough. -/
theorem planWith_nil (l : Lockfile) (dependencies : Ledger (List String)) (more : List String) :
    (l.planWith (Graph.ofDependencies dependencies more) []).requiresFull = false := by
  have hnone : (Graph.ofDependencies dependencies more).transitiveDependents [] = [] := by
    rw [List.eq_nil_iff_forall_not_mem]
    intro x hx
    obtain ⟨_, hc, _⟩ := Graph.mem_transitiveDependents.mp hx
    cases hc
  have hchanged : Text.sortedDistinct [] = [] := rfl
  simp [Plan.requiresFull, Lockfile.planWith, hchanged, hnone, Plan.canIncremental]

/-- **The work after an update**: there is an order for it, the unresolved sources count as
    changed, and it is empty exactly when there are none. -/
theorem Updated.exists_work (hnames : s.sourceNames.Nodup) (hcurrent : Current s current)
    (hm : Updated V s stored current scanned m) {order : List String}
    (horder : (Graph.ofDependencies s.dependencies s.sourceNames).generationOrder = .ok order) :
    ∃ w, workOf s m current false = .ok w ∧
      (∀ x, x ∈ w.plan.changed ↔ x ∈ unresolvedSources s current) ∧
      (w.ordered = [] ↔ unresolvedSources s current = []) := by
  have hacyclic := hm.acyclic hnames (Graph.acyclic_of_generationOrder horder)
  obtain ⟨w, hw⟩ : ∃ w, workOf s m current false = .ok w := by
    obtain ⟨ordered, hordered⟩ := Graph.exists_orderSubset hacyclic _
    exact ⟨_, bind_eq_ok.mpr ⟨ordered, hordered, rfl⟩⟩
  obtain ⟨hplan, hfull, -⟩ := workOf_eq_ok hw
  obtain ⟨hcover, hincremental, -, -, -⟩ := workOf_ok hnames hcurrent hw
  have hchanged : ∀ x, x ∈ w.plan.changed ↔ x ∈ unresolvedSources s current := by
    intro x
    rw [hplan, ← hm.dirty_iff]
    simp only [pendingPlan, Lockfile.planWith]
    rw [Text.mem_sortedDistinct, mem_changed_iff_dirty hcurrent (sources_withDependencies m s)]
  refine ⟨w, hw, hchanged, ?_⟩
  constructor
  · -- The work covers what is dirty, so an unresolved source would be in it.
    intro hempty
    rw [List.eq_nil_iff_forall_not_mem]
    intro x hx
    have hdirty := hm.dirty_iff.mpr hx
    have hordered := hcover x hdirty.1 (.inl hdirty)
    rw [hempty] at hordered
    cases hordered
  · -- With nothing changed the run is incremental, and its work is dirty or depends on what is.
    intro hresolved
    have hclean : ∀ x, ¬Dirty m s current x := by
      intro x hdirty
      have hx := hm.dirty_iff.mp hdirty
      rw [hresolved] at hx
      cases hx
    have hnone : (withDependencies m s).changedSources current ++ unresolvedSources s current =
        [] := by
      rw [List.eq_nil_iff_forall_not_mem]
      intro x hx
      exact hclean x ((mem_changed_iff_dirty hcurrent (sources_withDependencies m s)).mp hx)
    rw [hplan, pendingPlan, hnone, Lockfile.graph, planWith_nil] at hfull
    rw [List.eq_nil_iff_forall_not_mem]
    intro x hx
    rcases hincremental hfull x hx with hdirty | ⟨y, _, hdirty⟩
    · exact hclean x hdirty
    · exact hclean y hdirty

end work

/-! ## Plans after updates -/

section plans
variable {config : Path} {lockfile listed fingerprints : Option Path} {h h₁ k k₁ k₂ : Host}
  {s : Settings} {m : Lockfile} {current : Ledger String} {w : Work}

/-- A plan with a given lockfile and given fingerprints explains a circle or shows the work. -/
theorem run_plan_of_load {force : Bool} (hopen : Gives (openSettings config) k s k₁)
    (hsources : s.sources ≠ []) (hload : Lockfile.load k.disk (lockfilePath s lockfile) = .ok m)
    (hcurrent : Gives (currentFingerprints s listed) k current k₂) :
    (plan config lockfile listed force).run.run k =
      (explainCircle (workOf s m current force) >>= fun w => showWork s w force).run.run k₂ := by
  obtain ⟨rfl, -⟩ := gives_openSettings.mp hopen
  have hopened : Gives (openLockfile (lockfilePath s lockfile)) k m k :=
    gives_openLockfile.mpr ⟨by rw [Lockfile.loadOrCreate, hload], rfl⟩
  rw [run_plan force hopen hsources, planWith, hopened.run_bind, hcurrent.run_bind]

theorem run_plan_of_work {force : Bool} (hopen : Gives (openSettings config) k s k₁)
    (hsources : s.sources ≠ []) (hload : Lockfile.load k.disk (lockfilePath s lockfile) = .ok m)
    (hcurrent : Gives (currentFingerprints s listed) k current k₂)
    (hw : workOf s m current force = .ok w) :
    (plan config lockfile listed force).run.run k = (showWork s w force).run.run k₂ := by
  have hexplained : Gives (explainCircle (workOf s m current force)) k₂ w k₂ := by
    rw [hw]
    exact gives_pure.mpr ⟨rfl, rfl⟩
  rw [run_plan_of_load hopen hsources hload hcurrent, hexplained.run_bind]

/-- **A plan agrees with the update before it.**  An update that ends with success found
    fingerprints and wrote a lockfile.  If the lockfile's path does not run through a link that
    stands at its own end, and if YAML gives back texts, numbers and shapes of the document that
    was written, then a lockfile is read there, and there is an order for the work that it asks
    for with these fingerprints.  The changed sources are the unresolved ones.  So every plan that
    finds the same settings, the same lockfile and the same fingerprints says that everything is up
    to date if every source was resolved, and else shows work that is not empty. -/
theorem plan_after_lockUpdate (hopen : Gives (openSettings config) h s h₁)
    (hsources : s.sources ≠ [])
    (hexit : (ending ((lockUpdate config lockfile fingerprints).run.run h).1).exitCode = 0) :
    ∃ stored current h₂ scanned l d₁,
      UpdateRun s (reading h) config (lockfilePath s lockfile) fingerprints (afterReading h) stored
        current h₂ scanned l ((lockUpdate config lockfile fingerprints).run.run h).2.disk ∧
      h₂.disk.makeFolders (lockfilePath s lockfile).parent = (d₁, .ok ()) ∧
      (d₁.HasFreeEnd (lockfilePath s lockfile) → ∀ V, ReadsBack V → l.GivenBack V →
        ∃ m w, Lockfile.load ((lockUpdate config lockfile fingerprints).run.run h).2.disk
            (lockfilePath s lockfile) = .ok m ∧
          m.revision = stored.revision + 1 ∧
          workOf s m current false = .ok w ∧
          (∀ x, x ∈ w.plan.changed ↔ x ∈ unresolvedSources s current) ∧
          (w.ordered = [] ↔ unresolvedSources s current = []) ∧
          ∀ k k₁ k₂ listed, Gives (openSettings config) k s k₁ →
            Lockfile.contentAt k.disk (lockfilePath s lockfile) =
              Lockfile.contentAt ((lockUpdate config lockfile fingerprints).run.run h).2.disk
                (lockfilePath s lockfile) →
            Gives (currentFingerprints s listed) k current k₂ →
            (plan config lockfile listed false).run.run k =
              (if unresolvedSources s current = [] then
                say "[green]✓[/] Everything is up to date. Nothing to regenerate."
              else showWork s w false).run.run k₂) := by
  have hnames := nodup_sourceNames_of_open hopen
  rw [run_lockUpdate hopen hsources] at hexit ⊢
  obtain ⟨h', hrun⟩ := gives_of_exitCode (fails_updateWith s _ config lockfile fingerprints) hexit
  obtain ⟨stored, current, h₂, scanned, l, hupdate⟩ := gives_updateWith hrun
  obtain ⟨-, d₁, content, hmade, hencode, hcontent⟩ := hupdate.written
  rw [hrun]
  refine ⟨stored, current, h₂, scanned, l, d₁, hupdate, hmade, fun hfree V hV hback => ?_⟩
  obtain ⟨m, hm, hload⟩ := hupdate.exists_updated hV hnames hback hencode
  obtain ⟨order, horder⟩ := hupdate.orders
  obtain ⟨w, hw, hchanged, hempty⟩ :=
    hm.exists_work hnames (current_of_gives hupdate.resolves) horder
  refine ⟨m, w, hload (hcontent hfree), hm.revision, hw, hchanged, hempty, ?_⟩
  intro k k₁ k₂ listed hopen' hsame hcurrent
  rw [run_plan_of_work hopen' hsources (hload (hsame.trans (hcontent hfree))) hcurrent hw]
  unfold showWork
  by_cases hnone : unresolvedSources s current = []
  · rw [if_pos hnone, if_pos (List.isEmpty_iff.mpr (hempty.mpr hnone))]
  · rw [if_neg hnone]

/-- Does the second machine have the settings and the fingerprints of the first, with no source
    unresolved? -/
def findsSame (s : Settings) (h k : Host) : Bool :=
  ((openSettings configPath).run.run k).1.toOption == some s &&
  match (currentFingerprints s (some listPath)).run.run h,
    (currentFingerprints s (some listPath)).run.run k with
  | (.ok current, _), (.ok again, _) => again == current && (unresolvedSources s current).isEmpty
  | _, _ => false

theorem of_findsSame {h₂ : Host} (hfinds : findsSame s h k)
    (hcurrent : Gives (currentFingerprints s (some listPath)) h current h₂) :
    ∃ k₁ k₂, Gives (openSettings configPath) k s k₁ ∧
      Gives (currentFingerprints s (some listPath)) k current k₂ ∧
      unresolvedSources s current = [] := by
  rw [findsSame, Bool.and_eq_true, beq_iff_eq] at hfinds
  obtain ⟨hopened, hfinds⟩ := hfinds
  have hopen : ((openSettings configPath).run.run k).1 = .ok s := by
    match hrun : ((openSettings configPath).run.run k).1 with
    | .ok _ =>
      rw [hrun] at hopened
      exact congrArg Except.ok (Option.some.inj hopened)
    | .error _ =>
      rw [hrun] at hopened
      cases hopened
  rw [show (currentFingerprints s (some listPath)).run.run h = _ from hcurrent] at hfinds
  match hrun : (currentFingerprints s (some listPath)).run.run k with
  | (.ok again, k₂) =>
    rw [hrun] at hfinds
    simp only [Bool.and_eq_true, beq_iff_eq, List.isEmpty_iff] at hfinds
    obtain ⟨rfl, hnone⟩ := hfinds
    exact ⟨_, k₂, gives_of_fst hopen, hrun, hnone⟩
  | (.error _, _) =>
    rw [hrun] at hfinds
    cases hfinds

/-- Is something left to be generated after an update that writes in the place of a link? -/
def worksOnMore : Bool :=
  let k := (oneSourceRun (some chainPath) "main" linkChain).2
  ((currentFingerprints (oneSettings "main") (some listPath)).run.run
      (afterReading (oneSourceHost "main" linkChain))).1.toOption.any fun current =>
    (Lockfile.loadOrCreate k.disk chainPath k.now k.toolVersion).toOption.any fun stored =>
      (workOf (oneSettings "main") stored current false).toOption.any fun w =>
        !w.plan.changed.isEmpty

/-- A machine whose settings have no source. -/
def bareHost : Host :=
  { twoSourcesHost with
    disk := ⟨[(configPath.parts, .file "sources: []".toUTF8.toList 0)], []⟩ }

/-- What the machines have: no sources, and after an update the fingerprints of before it. -/
theorem machines_find :
    Gives (openSettings configPath) bareHost Settings.default bareHost ∧
      findsSame (oneSettings "main") (afterReading (oneSourceHost "main" []))
        (oneSourceRun none "main" []).2 ∧
      findsSame (oneSettings "main") (afterReading (oneSourceHost "main" linkChain))
        (oneSourceRun (some chainPath) "main" linkChain).2 ∧ worksOnMore := by
  refine ⟨gives_of_opened ?_, ?_, ?_, ?_⟩
  · decide +kernel
  · rw [oneSourceRun_of_open oneSource_comesBack.1]
    decide +kernel
  · rw [oneSourceRun_of_open chained_lost.1]
    decide +kernel
  · rw [worksOnMore, oneSourceRun_of_open chained_lost.1]
    decide +kernel

/-- After an update that resolved the only source everything is up to date. -/
theorem plan_after_lockUpdate_of_one :
    (ending (oneSourceRun none "main" []).1).exitCode = 0 ∧
    ∃ k₂, (plan configPath none (some listPath) false).run.run (oneSourceRun none "main" []).2 =
      (say "[green]✓[/] Everything is up to date. Nothing to regenerate.").run.run k₂ := by
  obtain ⟨hopen, hcheck, hexit⟩ := oneSource_comesBack
  obtain ⟨stored, current, h₂, scanned, l, d₁, hrun, hmade, hplan⟩ :=
    plan_after_lockUpdate hopen (List.cons_ne_nil _ _) hexit
  obtain ⟨hfree, hback⟩ := of_comesBack hcheck hrun hmade
  obtain ⟨m, w, -, -, -, -, -, hplan⟩ := hplan hfree Value.Alike Value.readsBack_alike hback
  obtain ⟨k₁, k₂, hopen', hcurrent, hnone⟩ := of_findsSame machines_find.2.1 hrun.resolves
  refine ⟨hexit, k₂, ?_⟩
  rw [hplan _ k₁ k₂ _ hopen' rfl hcurrent, if_pos hnone]

/-- What an update on that machine leaves. -/
abbrev bareRun : Except Stop Unit × Host := (lockUpdate configPath none none).run.run bareHost

/-- **A plan may disagree with the update before it**: without sources nothing is written that it
    could read, and it does not find what was written in the place of a link that the path runs
    through, so that a resolved source counts as changed. -/
theorem plan_misses_lockUpdate :
    (∃ s, ((openSettings configPath).run.run bareHost).1 = .ok s ∧
      (ending bareRun.1).exitCode = 0 ∧
      ∀ m, Lockfile.load bareRun.2.disk (lockfilePath s none) ≠ .ok m) ∧
    ∃ s current h₂ k k₁ k₂ stored w,
      (ending (oneSourceRun (some chainPath) "main" linkChain).1).exitCode = 0 ∧
      (oneSourceRun (some chainPath) "main" linkChain).2 = k ∧
      Gives (currentFingerprints s (some listPath))
        (afterReading (oneSourceHost "main" linkChain)) current h₂ ∧
      Gives (openSettings configPath) k s k₁ ∧
      Gives (currentFingerprints s (some listPath)) k current k₂ ∧
      unresolvedSources s current = [] ∧
      Lockfile.loadOrCreate k.disk chainPath k.now k.toolVersion = .ok stored ∧
      workOf s stored current false = .ok w ∧ w.plan.changed ≠ [] := by
  constructor
  · obtain ⟨hopen, -⟩ := machines_find
    obtain ⟨h', hrun, text, rfl⟩ := run_noSources (afterReading bareHost)
    rw [bareRun, run_lockUpdate_of_none hopen rfl, hrun]
    refine ⟨_, congrArg Prod.fst hopen, rfl, fun m hm => ?_⟩
    have habsent : (Lockfile.load bareHost.disk (lockfilePath Settings.default none)).toOption.isSome =
      false := by decide
    rw [show Lockfile.load bareHost.disk (lockfilePath Settings.default none) = .ok m from hm]
      at habsent
    cases habsent
  · obtain ⟨hopen, hexit, -⟩ := chained_lost
    obtain ⟨-, -, hfinds, hworks⟩ := machines_find
    obtain ⟨current, hcurrent, hworks⟩ := exists_ok_of_any hworks
    obtain ⟨stored, hstored, hworks⟩ := exists_ok_of_any hworks
    obtain ⟨w, hw, hchanged⟩ := exists_ok_of_any hworks
    have hcurrent := gives_of_fst hcurrent
    obtain ⟨k₁, k₂, hopen', hagain, hnone⟩ := of_findsSame hfinds hcurrent
    exact ⟨_, current, _, _, k₁, k₂, stored, w, hexit, rfl, hcurrent, hopen', hagain, hnone,
      hstored, hw, by simpa using hchanged⟩

end plans

end Regen.Command
