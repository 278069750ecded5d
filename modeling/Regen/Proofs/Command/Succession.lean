import Regen.Proofs.Command.Kept
import Regen.Proofs.Command.UpToDate

/-! # Plans under later settings

    An update records the dependencies of its settings, and a plan adds those of its own settings
    to the recorded ones.  So a plan that follows an update under earlier settings goes by the
    dependencies of both: it lists sources that only the earlier settings have, and it finds
    circles that neither of them has. -/

namespace Regen

open Relation

/-- A source of the settings depends on another one. -/
def Settings.DependsOn (s : Settings) (x y : String) : Prop :=
  ∃ source ∈ s.sources, source.name = x ∧ y ∈ source.dependsOn

namespace Command

/-- A source depends on another one by earlier settings or by later ones. -/
def EitherDependsOn (s s' : Settings) (x y : String) : Prop := s.DependsOn x y ∨ s'.DependsOn x y

/-! ## What is wanted -/

section wants
variable {V : Value → Value → Prop} {s s' : Settings} {stored m : Lockfile}
  {current found : Ledger String} {scanned : Ledger FileRecord} {force : Bool} {w : Work}
  {x y : String}

/-- **After an update under earlier settings the wants are the dependencies of both.** -/
theorem Updated.wants_later (hnames : s.sourceNames.Nodup)
    (hm : Updated V s stored current scanned m) (s' : Settings) :
    Wants m s' = EitherDependsOn s s' := by
  funext x y
  apply propext
  rw [Wants, hm.needs_iff hnames, needs_dependencies_iff hnames]
  rfl

/-- **There is an order for the work unless the wants have a circle**, and then the source that is
    named lies on one. -/
theorem workOf_cases (hnames : s.sourceNames.Nodup) (m : Lockfile) (current : Ledger String)
    (force : Bool) :
    ((∀ x, ¬TransGen (Wants m s) x x) ∧ ∃ w, workOf s m current force = .ok w) ∨
      ∃ x, TransGen (Wants m s) x x ∧ workOf s m current force = .error (.cycle x) := by
  cases hw : workOf s m current force with
  | ok w =>
    refine .inl ⟨fun x hcircle => ?_, w, rfl⟩
    obtain ⟨ordered, hordered, -⟩ := bind_eq_ok.mp hw
    obtain ⟨order, horder, -⟩ := bind_eq_ok.mp hordered
    exact Graph.acyclic_of_generationOrder horder x ((chain_withDependencies hnames).mpr hcircle)
  | error f =>
    rcases bind_eq_error.mp hw with hordered | ⟨ordered, -, hpure⟩
    · obtain ⟨x, rfl, hcircle⟩ := Graph.circle_of_orderSubset hordered
      exact .inr ⟨x, (chain_withDependencies hnames).mp hcircle, rfl⟩
    · cases hpure

/-! ## What is listed -/

/-- The configured sources that a plan spares. -/
def sparedSources (s : Settings) (w : Work) : List String :=
  s.sourceNames.filter fun x => !w.ordered.contains x

/-- The listed sources that are not configured. -/
def strangeSources (s : Settings) (w : Work) : List String :=
  w.ordered.filter fun x => !s.sourceNames.contains x

/-- **What a plan under later settings lists** after an update under earlier ones. -/
structure Schedules (s s' : Settings) (m : Lockfile) (current : Ledger String) (w : Work) :
    Prop where
  /-- A full list has the configured sources. -/
  full : w.full = true → ∀ x, x ∈ w.ordered ↔ x ∈ s'.sourceNames
  /-- An incremental list has the dirty sources and those that depend on one by either settings. -/
  incremental : w.full = false → ∀ x, x ∈ w.ordered ↔ Dirty m s' current x ∨
    ∃ y, TransGen (EitherDependsOn s s') x y ∧ Dirty m s' current y
  /-- What is listed and not configured had dependencies by the earlier settings. -/
  earlier : ∀ x ∈ w.ordered, x ∉ s'.sourceNames → ∃ y, s.DependsOn x y
  /-- The hit rate is the share of the spared sources, less those that are not configured. -/
  rate : w.full = false → w.plan.cacheHitRate s'.sources.length =
    .ofRatio false ((sparedSources s' w).length - (strangeSources s' w).length) s'.sources.length

/-- With few enough dependents a plan that is not forced is incremental. -/
theorem not_full_of_le (hw : workOf s m current false = .ok w)
    (hfew : w.plan.dependents.length ≤ 2 * w.plan.changed.length) : w.full = false := by
  obtain ⟨hplan, hfull, -⟩ := workOf_eq_ok hw
  have henough : w.plan.isIncremental = true := by
    rw [hplan] at hfew ⊢
    exact (Lockfile.isIncremental_planWith _).mpr hfew
  rw [hfull, Plan.requiresFull, henough]
  rfl

/-- While all that had dependencies is configured, what is listed is configured too. -/
theorem Schedules.exact (h : Schedules s s' m current w)
    (hstay : ∀ x y, s.DependsOn x y → x ∈ s'.sourceNames) :
    (∀ x ∈ w.ordered, x ∈ s'.sourceNames) ∧
      (w.full = false → w.plan.cacheHitRate s'.sources.length =
        .ofRatio false (sparedSources s' w).length s'.sources.length) := by
  have hconfigured : ∀ x ∈ w.ordered, x ∈ s'.sourceNames := by
    intro x hx
    by_contra hout
    obtain ⟨y, hy⟩ := h.earlier x hx hout
    exact hout (hstay x y hy)
  refine ⟨hconfigured, fun hno => ?_⟩
  have hstrange : strangeSources s' w = [] := by
    refine List.filter_eq_nil_iff.mpr fun x hx => ?_
    simpa using hconfigured x hx
  rw [h.rate hno, hstrange, List.length_nil, Nat.sub_zero]

/-- What two lists share does not count for the difference of their lengths. -/
theorem length_sub_length {xs ys : List String} (hxs : xs.Nodup) (hys : ys.Nodup) :
    xs.length - ys.length = (xs.filter fun x => !ys.contains x).length -
      (ys.filter fun y => !xs.contains y).length := by
  have hshared : (xs.filter ys.contains).length = (ys.filter xs.contains).length := by
    apply List.Perm.length_eq
    rw [List.perm_ext_iff_of_nodup (hxs.filter _) (hys.filter _)]
    intro x
    simp only [List.mem_filter, List.contains_iff_mem]
    exact and_comm
  have hleft := List.length_eq_length_filter_add (l := xs) ys.contains
  have hright := List.length_eq_length_filter_add (l := ys) xs.contains
  omega

theorem cacheHitRate_of_incremental (hnames : s.sourceNames.Nodup)
    (hw : workOf s m current force = .ok w) (hfull : w.full = false) :
    w.plan.cacheHitRate s.sources.length =
      .ofRatio false ((sparedSources s w).length - (strangeSources s w).length)
        s.sources.length := by
  obtain ⟨-, hrequired, hordered⟩ := workOf_eq_ok hw
  obtain ⟨hdistinct, hmem, -⟩ := Graph.orderSubset_ok hordered
  rw [hfull, if_neg Bool.false_ne_true] at hmem
  -- The list has the sources to rebuild, each once.
  have hlength : w.plan.totalSources = w.ordered.length := by
    apply List.Perm.length_eq
    have hrebuilt : w.plan.sourcesToRebuild.Nodup := Text.nodup_sortedDistinct _
    rw [List.perm_ext_iff_of_nodup hrebuilt hdistinct]
    exact fun x => (hmem x).symm
  have hno : w.plan.requiresFull = false := (Bool.or_eq_false_iff.mp (hrequired ▸ hfull)).2
  have hconfigured : s.sources.length = s.sourceNames.length := by
    rw [Settings.sourceNames, List.length_map]
  rw [cacheHitRate_eq, hno, if_neg Bool.false_ne_true, hlength, hconfigured,
    length_sub_length hnames hdistinct]
  rfl

theorem Updated.schedules (hnames : s.sourceNames.Nodup) (hnames' : s'.sourceNames.Nodup)
    (hm : Updated V s stored current scanned m) (hfound : Current s' found)
    (hw : workOf s' m found force = .ok w) : Schedules s s' m found w := by
  obtain ⟨-, -, hall, -, -⟩ := workOf_ok hnames' hfound hw
  have hincremental : w.full = false → ∀ x, x ∈ w.ordered ↔ Dirty m s' found x ∨
      ∃ y, TransGen (EitherDependsOn s s') x y ∧ Dirty m s' found y := by
    intro hno x
    rw [mem_ordered_of_incremental hnames' hfound hw hno, Affected, hm.wants_later hnames]
  refine ⟨hall, hincremental, ?_, cacheHitRate_of_incremental hnames' hw⟩
  intro x hx hout
  cases hfull : w.full with
  | true => exact absurd ((hall hfull x).mp hx) hout
  | false =>
    rcases (hincremental hfull x).mp hx with hdirty | ⟨y, hchain, -⟩
    · exact absurd hdirty.1 hout
    · -- The first step of the chain starts at the source, which is one of the earlier settings.
      obtain ⟨z, hfirst, -⟩ := TransGen.head'_iff.mp hchain
      rcases hfirst with hearlier | ⟨source, hsource, rfl, -⟩
      · exact ⟨z, hearlier⟩
      · exact absurd (List.mem_map_of_mem hsource) hout

end wants

/-! ## Runs -/

/-- **What a plan goes by that finds a saved lockfile**: settings that have sources, the lockfile at
    the path that they or an option name, and current fingerprints. -/
structure PlanAfter (l : Lockfile) (config : Path) (lockfile listed : Option Path) (h : Host)
    (s : Settings) (current : Ledger String) (h' : Host) : Prop where
  opens : ∃ h₁, Gives (openSettings config) h s h₁
  sources : s.sources ≠ []
  holds : Lockfile.contentAt h.disk (lockfilePath s lockfile) = l.encode.toOption
  resolves : Gives (currentFingerprints s listed) h current h'

section runs
variable {config : Path} {lockfile fingerprints : Option Path} {h h₁ h₂ : Host} {s : Settings}

/-- What follows an exit is not run. -/
theorem run_sayAndExit_bind {α β : Type} (text : String) (code : Nat) (f : α → Command β)
    (h : Host) : (sayAndExit text code >>= f).run.run h =
      (sayAndExit text code : Command β).run.run h := by
  rcases gives_or_stops (say text) h with ⟨_, h', hsay⟩ | ⟨e, h', hsay⟩
  · have hexit : ∀ γ : Type, Stops (sayAndExit text code : Command γ) h (.exit code) h' := by
      intro γ
      unfold sayAndExit
      rw [Stops, hsay.run_bind]
      rfl
    rw [(hexit α).run_bind, hexit β]
  · have hstop : ∀ γ : Type, Stops (sayAndExit text code : Command γ) h e h' :=
      fun γ => hsay.run_bind
    rw [(hstop α).run_bind, hstop β]

/-- A plan that finds a circle of wants stops at a source on one. -/
theorem run_plan_of_circle {listed : Option Path} {force : Bool} {k k₁ k' : Host} {m : Lockfile}
    {found : Ledger String} {x : String} (hopen : Gives (openSettings config) k s k₁)
    (hsources : s.sources ≠ []) (hload : Lockfile.load k.disk (lockfilePath s lockfile) = .ok m)
    (hfound : Gives (currentFingerprints s listed) k found k')
    (hcircle : TransGen (Wants m s) x x) :
    ∃ y, TransGen (Wants m s) y y ∧ (plan config lockfile listed force).run.run k =
      (sayAndExit (Message.cycle y) 1 : Command Unit).run.run k' := by
  rcases workOf_cases (nodup_sourceNames_of_open hopen) m found force with ⟨hnone, -⟩ | ⟨y, hy, hw⟩
  · exact absurd hcircle (hnone x)
  · refine ⟨y, hy, ?_⟩
    rw [run_plan_of_load hopen hsources hload hfound, hw]
    exact run_sayAndExit_bind ..

/-- The lockfile that is read wherever a path holds what an update saved. -/
theorem UpdateRun.exists_loaded {started : Value} {p : Path} {stored l : Lockfile}
    {current : Ledger String} {scanned : Ledger FileRecord} {d : Disk}
    (hrun : UpdateRun s started config p fingerprints h stored current h₂ scanned l d)
    (hnames : s.sourceNames.Nodup) (hback : l.GivenBack Value.Alike) :
    ∃ m, Updated Value.Alike s stored current scanned m ∧
      ∀ d p, Lockfile.contentAt d p = l.encode.toOption → Lockfile.load d p = .ok m := by
  obtain ⟨-, d₁, content, -, hencode, -⟩ := hrun.written
  obtain ⟨m, hm, hload⟩ := hrun.exists_updated Value.readsBack_alike hnames hback hencode
  refine ⟨m, hm, fun d p hcontent => hload ?_⟩
  rw [hcontent, hencode]
  rfl

/-- **A plan meets the circles of the earlier settings and the later ones together.**  An update
    that ends with success saved a lockfile.  If YAML gives it back, every plan that finds it goes
    by the dependencies of its own settings and of those that were updated: without a circle of
    these it shows work, and with one it stops at a source on such a circle, forced or not. -/
theorem plan_stops_at_circle (hopen : Gives (openSettings config) h s h₁) (hsources : s.sources ≠ [])
    (hexit : (ending ((lockUpdate config lockfile fingerprints).run.run h).1).exitCode = 0) :
    ∃ stored current h₂ scanned l,
      UpdateRun s (reading h) config (lockfilePath s lockfile) fingerprints (afterReading h) stored
        current h₂ scanned l ((lockUpdate config lockfile fingerprints).run.run h).2.disk ∧
      (l.GivenBack Value.Alike → ∀ config' lockfile' listed force k s' found k',
        PlanAfter l config' lockfile' listed k s' found k' →
          ((∀ x, ¬TransGen (EitherDependsOn s s') x x) → ∃ w,
            (plan config' lockfile' listed force).run.run k =
              (showWork s' w force).run.run k') ∧
          ((∃ x, TransGen (EitherDependsOn s s') x x) → ∃ x, TransGen (EitherDependsOn s s') x x ∧
            (plan config' lockfile' listed force).run.run k =
              (sayAndExit (Message.cycle x) 1 : Command Unit).run.run k')) := by
  have hnames := nodup_sourceNames_of_open hopen
  obtain ⟨stored, current, h₂, scanned, l, hrun⟩ := exists_updateRun hopen hsources hexit
  refine ⟨stored, current, h₂, scanned, l, hrun, ?_⟩
  intro hback config' lockfile' listed force k s' found k' hplan
  obtain ⟨m, hm, hload⟩ := hrun.exists_loaded hnames hback
  obtain ⟨k₁, hopen'⟩ := hplan.opens
  have hread := hload _ _ hplan.holds
  rw [← hm.wants_later hnames]
  constructor
  · intro hnone
    rcases workOf_cases (nodup_sourceNames_of_open hopen') m found force with
      ⟨-, w, hw⟩ | ⟨x, hcircle, -⟩
    · exact ⟨w, run_plan_of_work hopen' hplan.sources hread hplan.resolves hw⟩
    · exact absurd hcircle (hnone x)
  · rintro ⟨x, hcircle⟩
    exact run_plan_of_circle hopen' hplan.sources hread hplan.resolves hcircle

/-- **A plan schedules by the earlier settings and the later ones together.**  An update that ends
    with success saved a lockfile.  If YAML gives it back, every plan that finds it shows work,
    unless the dependencies of its own settings and of those that were updated have a circle
    together.  The work lists the configured sources when it is full, and else the dirty ones and
    what depends on them by either settings.  If every source that had dependencies is still
    configured, nothing but configured sources is listed, and the hit rate is the share of those
    that are not. -/
theorem plan_schedules_either (hopen : Gives (openSettings config) h s h₁)
    (hsources : s.sources ≠ [])
    (hexit : (ending ((lockUpdate config lockfile fingerprints).run.run h).1).exitCode = 0) :
    ∃ stored current h₂ scanned l,
      UpdateRun s (reading h) config (lockfilePath s lockfile) fingerprints (afterReading h) stored
        current h₂ scanned l ((lockUpdate config lockfile fingerprints).run.run h).2.disk ∧
      (l.GivenBack Value.Alike → ∃ m, Updated Value.Alike s stored current scanned m ∧
        ∀ config' lockfile' listed force k s' found k',
          PlanAfter l config' lockfile' listed k s' found k' →
          (∀ x, ¬TransGen (EitherDependsOn s s') x x) →
          ∃ w, workOf s' m found force = .ok w ∧
            (plan config' lockfile' listed force).run.run k =
              (showWork s' w force).run.run k' ∧
            Schedules s s' m found w ∧
            ((∀ x y, s.DependsOn x y → x ∈ s'.sourceNames) →
              (∀ x ∈ w.ordered, x ∈ s'.sourceNames) ∧
              (w.full = false → w.plan.cacheHitRate s'.sources.length =
                .ofRatio false (sparedSources s' w).length s'.sources.length))) := by
  have hnames := nodup_sourceNames_of_open hopen
  obtain ⟨stored, current, h₂, scanned, l, hrun⟩ := exists_updateRun hopen hsources hexit
  refine ⟨stored, current, h₂, scanned, l, hrun, fun hback => ?_⟩
  obtain ⟨m, hm, hload⟩ := hrun.exists_loaded hnames hback
  refine ⟨m, hm, ?_⟩
  intro config' lockfile' listed force k s' found k' hplan hnone
  obtain ⟨k₁, hopen'⟩ := hplan.opens
  have hnames' := nodup_sourceNames_of_open hopen'
  have hcases := workOf_cases hnames' m found force
  rw [hm.wants_later hnames] at hcases
  rcases hcases with ⟨-, w, hw⟩ | ⟨x, hcircle, -⟩
  · have hschedules := hm.schedules hnames hnames' (current_of_gives hplan.resolves) hw
    refine ⟨w, hw, run_plan_of_work hopen' hplan.sources (hload _ _ hplan.holds) hplan.resolves hw,
      hschedules, ?_⟩
    exact hschedules.exact
  · exact absurd hcircle (hnone x)

end runs

/-! ### An update and its successors -/

section successors

/-- The application of `twoSources`, and the interface that depends on it now. -/
def turnedSources : String := "sources:
- &x
  type: crd
  name: app
  git:
    url: https://a.b/c
- <<: *x
  name: api
  depends_on: app
"

/-- The interface of `twoSources` alone. -/
def fewerSources : String := "sources:
- type: crd
  name: api
  git:
    url: https://a.b/c
"

def turnedPath : Path := ⟨0, ["turned.yaml"]⟩

def fewerPath : Path := ⟨0, ["fewer.yaml"]⟩

/-- Fingerprints after the interface has changed. -/
def newerPath : Path := ⟨0, ["newer"]⟩

/-- A machine with the settings `twoSources` and with what they may turn into. -/
def successionHost : Host :=
  { twoSourcesHost with
    disk := ⟨[
      (configPath.parts, .file twoSources.toUTF8.toList 0),
      (turnedPath.parts, .file turnedSources.toUTF8.toList 0),
      (fewerPath.parts, .file fewerSources.toUTF8.toList 0),
      (listPath.parts, .file "api: x\napp: x".toUTF8.toList 0),
      (newerPath.parts, .file "api: y".toUTF8.toList 0)], []⟩ }

/-- What an update leaves there. -/
abbrev successionRun : Except Stop Unit × Host :=
  (lockUpdate configPath none (some listPath)).run.run successionHost

/-- Have the sources a generation order? -/
def hasOrder (s : Settings) : Bool :=
  (Graph.ofDependencies s.dependencies s.sourceNames).generationOrder.toOption.isSome

/-- Is this source one that depends on the other one, and does no other source depend on any? -/
def onlyDependsOn (s : Settings) (x y : String) : Bool :=
  s.sources.any (fun source => source.name == x && source.dependsOn.contains y) &&
    s.sources.all fun source => source.name == x || source.dependsOn.isEmpty

/-- Does a plan find settings and fingerprints on a machine, the same path for the lockfile, and no
    circle, and do settings and fingerprints pass a check? -/
def plansBy (s : Settings) (config listed : Path) (h : Host)
    (check : Settings → Ledger String → Bool) : Bool :=
  ((openSettings config).run.run h).1.toOption.any fun s' =>
    !s'.sources.isEmpty && s'.lockfilePath == s.lockfilePath && hasOrder s' &&
      ((currentFingerprints s' (some listed)).run.run h).1.toOption.any (check s')

variable {s s' : Settings} {h h₂ : Host} {config listed : Path} {x y z : String}

theorem acyclic_of_hasOrder (hnames : s.sourceNames.Nodup) (horder : hasOrder s) (x : String) :
    ¬TransGen s.DependsOn x x := by
  have hneeds : Needs s.dependencies = s.DependsOn := by
    funext x y
    exact propext (needs_dependencies_iff hnames)
  unfold hasOrder at horder
  cases hrun : (Graph.ofDependencies s.dependencies s.sourceNames).generationOrder with
  | ok order => exact hneeds ▸ Graph.acyclic_of_generationOrder hrun x
  | error f =>
    rw [hrun] at horder
    cases horder

theorem of_onlyDependsOn (h : onlyDependsOn s x y) :
    s.DependsOn x y ∧ ∀ z w, s.DependsOn z w → z = x := by
  obtain ⟨hany, hall⟩ := (Bool.and_eq_true _ _).mp h
  constructor
  · obtain ⟨source, hsource, hneeds⟩ := List.any_eq_true.mp hany
    simp only [Bool.and_eq_true, beq_iff_eq, List.contains_iff_mem] at hneeds
    exact ⟨source, hsource, hneeds.1, hneeds.2⟩
  · rintro z w ⟨source, hsource, rfl, hw⟩
    have hcase := List.all_eq_true.mp hall source hsource
    simp only [Bool.or_eq_true, beq_iff_eq, List.isEmpty_iff] at hcase
    rcases hcase with hx | hnone
    · exact hx
    · rw [hnone] at hw
      cases hw

theorem of_plansBy {check : Settings → Ledger String → Bool}
    (hplans : plansBy s config listed h check) :
    ∃ s' found h₁ h', Gives (openSettings config) h s' h₁ ∧ s'.sources ≠ [] ∧
      lockfilePath s' none = lockfilePath s none ∧ (∀ x, ¬TransGen s'.DependsOn x x) ∧
      Gives (currentFingerprints s' (some listed)) h found h' ∧ check s' found := by
  obtain ⟨s', hopen, hcheck⟩ := exists_ok_of_any hplans
  obtain ⟨hfacts, hcheck⟩ := (Bool.and_eq_true _ _).mp hcheck
  simp only [Bool.and_eq_true, Bool.not_eq_true', List.isEmpty_eq_false_iff, beq_iff_eq] at hfacts
  obtain ⟨⟨hsources, hpath⟩, horder⟩ := hfacts
  obtain ⟨found, hfound, hcheck⟩ := exists_ok_of_any hcheck
  have hgives := gives_of_fst hopen
  refine ⟨s', found, _, _, hgives, hsources, ?_, ?_, gives_of_fst hfound, hcheck⟩
  · rw [lockfilePath, lockfilePath, hpath]
  · exact acyclic_of_hasOrder (nodup_sourceNames_of_open hgives) horder

set_option maxRecDepth 3000 in
/-- The update succeeds, and what it writes comes back; its successors open their settings. -/
theorem succession_facts :
    ∃ s, Gives (openSettings configPath) successionHost s successionHost ∧ s.sources ≠ [] ∧
      (∀ x, ¬TransGen s.DependsOn x x) ∧
      (s.DependsOn "app" "api" ∧ ∀ x y, s.DependsOn x y → x = "app") ∧
      comesBack s (lockfilePath s none) successionHost ∧
      goesBy s successionHost (fun _ current _ _ => current.find? "api" == some "x") ∧
      (ending successionRun.1).exitCode = 0 ∧
      plansBy s turnedPath listPath successionRun.2 (fun s' _ => onlyDependsOn s' "api" "app") ∧
      plansBy s fewerPath newerPath successionRun.2 (fun s' found =>
        s'.sourceNames == ["api"] && s'.sources.all (·.dependsOn.isEmpty) &&
          found.find? "api" == some "y") := by
  have hopen : Gives (openSettings configPath) successionHost twoSettings successionHost := by
    apply gives_of_opened
    rw [successionHost, Text.toUTF8_toList (s := twoSources) rfl]
    decide +kernel
  have hsources : twoSettings.sources ≠ [] := List.cons_ne_nil _ _
  have horder : hasOrder twoSettings := by decide +kernel
  have honly : onlyDependsOn twoSettings "app" "api" := by decide
  have hback : comesBack twoSettings (lockfilePath twoSettings none) successionHost := by
    decide +kernel
  have hgoes : goesBy twoSettings successionHost
      (fun _ current _ _ => current.find? "api" == some "x") := by decide +kernel
  have hexit : (ending successionRun.1).exitCode = 0 := by
    rw [successionRun, run_lockUpdate hopen hsources]
    decide +kernel
  have hturned : plansBy twoSettings turnedPath listPath successionRun.2
      (fun s' _ => onlyDependsOn s' "api" "app") := by
    rw [successionRun, run_lockUpdate hopen hsources, successionHost,
      Text.toUTF8_toList (s := turnedSources) rfl]
    decide +kernel
  have hfewer : plansBy twoSettings fewerPath newerPath successionRun.2 (fun s' found =>
      s'.sourceNames == ["api"] && s'.sources.all (·.dependsOn.isEmpty) &&
        found.find? "api" == some "y") := by
    rw [successionRun, run_lockUpdate hopen hsources]
    decide +kernel
  exact ⟨_, hopen, hsources, acyclic_of_hasOrder (nodup_sourceNames_of_open hopen) horder,
    of_onlyDependsOn honly, hback, hgoes, hexit, hturned, hfewer⟩

/-- A plan on that machine finds what the update saved. -/
theorem planAfter_successionRun {stored l : Lockfile} {current found : Ledger String}
    {scanned : Ledger FileRecord} {h₁ h' : Host}
    (hback : comesBack s (lockfilePath s none) successionHost)
    (hrun : UpdateRun s (reading successionHost) configPath (lockfilePath s none) (some listPath)
      (afterReading successionHost) stored current h₂ scanned l successionRun.2.disk)
    (hopen : Gives (openSettings config) successionRun.2 s' h₁) (hsources : s'.sources ≠ [])
    (hpath : lockfilePath s' none = lockfilePath s none)
    (hfound : Gives (currentFingerprints s' (some listed)) successionRun.2 found h') :
    l.GivenBack Value.Alike ∧ PlanAfter l config none (some listed) successionRun.2 s' found h' := by
  obtain ⟨-, d₁, content, hmade, hencode, hcontent⟩ := hrun.written
  obtain ⟨hfree, hback⟩ := of_comesBack hback hrun hmade
  refine ⟨hback, ⟨h₁, hopen⟩, hsources, ?_, hfound⟩
  rw [hpath, hcontent hfree, hencode]
  rfl

/-- The plan under the turned settings stops at a circle with the recorded dependency. -/
theorem plan_stops_at_circle_of_turned :
    ∃ s s' x h', Gives (openSettings configPath) successionHost s successionHost ∧
      (ending successionRun.1).exitCode = 0 ∧ TransGen (EitherDependsOn s s') x x ∧
      (plan turnedPath none (some listPath) true).run.run successionRun.2 =
        (sayAndExit (Message.cycle x) 1 : Command Unit).run.run h' := by
  obtain ⟨s, hopen, hsources, -, ⟨happ, -⟩, hback, -, hexit, hturned, -⟩ := succession_facts
  obtain ⟨stored, current, h₂, scanned, l, hrun, hplans⟩ :=
    plan_stops_at_circle hopen hsources hexit
  obtain ⟨s', found, h₁, h', hopen', hsources', hpath, -, hfound, honly⟩ := of_plansBy hturned
  obtain ⟨hgiven, hplan⟩ := planAfter_successionRun hback hrun hopen' hsources' hpath hfound
  have hcircle : TransGen (EitherDependsOn s s') "app" "app" :=
    .head (.inl happ) (.single (.inr (of_onlyDependsOn honly).1))
  obtain ⟨x, hx, hstops⟩ := (hplans hgiven _ _ _ true _ _ _ _ hplan).2 ⟨"app", hcircle⟩
  exact ⟨s, s', x, h', hopen, hexit, hx, hstops⟩

/-- **A plan may stop at a circle although no settings have one**: neither those that the update
    recorded nor those that the plan opens. -/
theorem plan_stops_without_circle :
    ∃ s s' x h₁ h', Gives (openSettings configPath) successionHost s successionHost ∧
      (∀ x, ¬TransGen s.DependsOn x x) ∧ (ending successionRun.1).exitCode = 0 ∧
      Gives (openSettings turnedPath) successionRun.2 s' h₁ ∧
      (∀ x, ¬TransGen s'.DependsOn x x) ∧
      (plan turnedPath none (some listPath) false).run.run successionRun.2 =
        (sayAndExit (Message.cycle x) 1 : Command Unit).run.run h' := by
  obtain ⟨s, hopen, hsources, hacyclic, ⟨happ, -⟩, hback, -, hexit, hturned, -⟩ := succession_facts
  obtain ⟨stored, current, h₂, scanned, l, hrun⟩ := exists_updateRun hopen hsources hexit
  obtain ⟨s', found, h₁, h', hopen', hsources', hpath, hacyclic', hfound, honly⟩ :=
    of_plansBy hturned
  obtain ⟨hgiven, hplan⟩ := planAfter_successionRun hback hrun hopen' hsources' hpath hfound
  obtain ⟨m, hm, hload⟩ := hrun.exists_loaded (nodup_sourceNames_of_open hopen) hgiven
  have hcircle : TransGen (Wants m s') "app" "app" := by
    rw [hm.wants_later (nodup_sourceNames_of_open hopen)]
    exact .head (.inl happ) (.single (.inr (of_onlyDependsOn honly).1))
  obtain ⟨x, -, hstops⟩ :=
    run_plan_of_circle hopen' hsources' (hload _ _ hplan.holds) hfound hcircle
  exact ⟨s, s', x, h₁, h', hopen, hacyclic, hexit, hopen', hacyclic', hstops⟩

/-- The settings without the application have no dependencies left. -/
theorem eitherDependsOn_iff_of_none (hnone : s'.sources.all (·.dependsOn.isEmpty)) :
    EitherDependsOn s s' x y ↔ s.DependsOn x y := by
  constructor
  · rintro (hxy | ⟨source, hsource, -, hy⟩)
    · exact hxy
    · rw [List.isEmpty_iff.mp (List.all_eq_true.mp hnone source hsource)] at hy
      cases hy
  · exact Or.inl

/-- The work of the plan under fewer settings is that of both. -/
theorem plan_schedules_either_of_fewer :
    ∃ s s' m found w h', Gives (openSettings configPath) successionHost s successionHost ∧
      (ending successionRun.1).exitCode = 0 ∧ workOf s' m found false = .ok w ∧
      (plan fewerPath none (some newerPath) false).run.run successionRun.2 =
        (showWork s' w false).run.run h' ∧
      Schedules s s' m found w := by
  obtain ⟨s, hopen, hsources, hacyclic, -, hback, -, hexit, -, hfewer⟩ := succession_facts
  obtain ⟨stored, current, h₂, scanned, l, hrun, hplans⟩ :=
    plan_schedules_either hopen hsources hexit
  obtain ⟨s', found, h₁, h', hopen', hsources', hpath, -, hfound, hcheck⟩ := of_plansBy hfewer
  simp only [Bool.and_eq_true] at hcheck
  obtain ⟨hgiven, hplan⟩ := planAfter_successionRun hback hrun hopen' hsources' hpath hfound
  obtain ⟨m, -, hplans⟩ := hplans hgiven
  have hnone : ∀ x, ¬TransGen (EitherDependsOn s s') x x := by
    intro x hcircle
    apply hacyclic x
    exact TransGen.mono (fun _ _ => (eitherDependsOn_iff_of_none hcheck.1.2).mp) x x hcircle
  obtain ⟨w, hw, hshows, hschedules, -⟩ := hplans _ _ _ false _ _ _ _ hplan hnone
  exact ⟨s, s', m, found, w, h', hopen, hexit, hw, hshows, hschedules⟩

/-- **A plan may schedule a source that is not configured**: one that depended on a changed source
    by the settings that the update recorded. -/
theorem plan_schedules_removed :
    ∃ s s' w h₁ h', Gives (openSettings configPath) successionHost s successionHost ∧
      (ending successionRun.1).exitCode = 0 ∧
      Gives (openSettings fewerPath) successionRun.2 s' h₁ ∧
      (plan fewerPath none (some newerPath) false).run.run successionRun.2 =
        (showWork s' w false).run.run h' ∧
      "app" ∈ w.ordered ∧ "app" ∉ s'.sourceNames := by
  obtain ⟨s, hopen, hsources, hacyclic, ⟨happ, honly⟩, hback, hgoes, hexit, -, hfewer⟩ :=
    succession_facts
  obtain ⟨stored, current, h₂, scanned, l, hrun⟩ := exists_updateRun hopen hsources hexit
  obtain ⟨s', found, h₁, h', hopen', hsources', hpath, -, hfound, hcheck⟩ := of_plansBy hfewer
  simp only [Bool.and_eq_true, beq_iff_eq] at hcheck
  obtain ⟨⟨hconfigured, hnone⟩, hnewer⟩ := hcheck
  obtain ⟨hgiven, hplan⟩ := planAfter_successionRun hback hrun hopen' hsources' hpath hfound
  have hnames := nodup_sourceNames_of_open hopen
  have hnames' := nodup_sourceNames_of_open hopen'
  obtain ⟨m, hm, hload⟩ := hrun.exists_loaded hnames hgiven
  have hwants : ∀ {x y}, Wants m s' x y ↔ s.DependsOn x y := by
    intro x y
    rw [hm.wants_later hnames]
    exact eitherDependsOn_iff_of_none hnone
  -- The interface was recorded with the fingerprint that it had.
  have hdirty : Dirty m s' found "api" := by
    refine ⟨by rw [hconfigured]; decide, .inr (.inr ?_)⟩
    have hwas : current.find? "api" = some "x" := by simpa using of_goesBy hgoes hrun
    have hapi : "api" ∈ s.sourceNames := (current_of_gives hrun.resolves).configured _
      (Ledger.find?_isSome_iff.mp (by rw [hwas]; rfl))
    obtain ⟨source, hsource, hname⟩ := List.mem_map.mp hapi
    obtain ⟨r, hr, hfingerprint, -⟩ := hm.resolved source hsource "x" (by rw [hname, hwas])
    refine ⟨"y", r, hnewer, hname ▸ hr, ?_⟩
    rw [hfingerprint]
    decide
  rcases workOf_cases hnames' m found false with ⟨-, w, hw⟩ | ⟨x, hcircle, -⟩
  · have hpending := (workOf_eq_ok hw).1
    have hchanged : "api" ∈ w.plan.changed := by
      rw [hpending]
      apply Text.mem_sortedDistinct.mpr
      exact (mem_changed_iff_dirty (current_of_gives hfound)
        (sources_withDependencies m s')).mpr hdirty
    -- Only the application can depend on what changed, so the plan is incremental.
    have hdependents : ∀ x ∈ w.plan.dependents, x ∈ ["app"] := by
      intro x hx
      rw [hpending] at hx
      obtain ⟨c, -, hchain⟩ := Graph.mem_transitiveDependents.mp hx
      obtain ⟨y, hfirst, -⟩ := TransGen.head'_iff.mp ((chain_withDependencies hnames').mp hchain)
      exact List.mem_singleton.mpr (honly x y (hwants.mp hfirst))
    have hdistinct : w.plan.dependents.Nodup := by
      rw [hpending]
      exact Text.nodup_of_ascending
        (Graph.pairwise_transitiveDependents (Graph.lawful_ofDependencies _ _) _)
    have hfew : w.plan.dependents.length ≤ 1 := (hdistinct.subperm hdependents).length_le
    have hsome : 0 < w.plan.changed.length := List.length_pos_of_mem hchanged
    have hincremental := not_full_of_le hw (by omega)
    refine ⟨s, s', w, h₁, h', hopen, hexit, hopen',
      run_plan_of_work hopen' hsources' (hload _ _ hplan.holds) hfound hw, ?_, ?_⟩
    · rw [mem_ordered_of_incremental hnames' (current_of_gives hfound) hw hincremental]
      exact .inr ⟨"api", .single (hwants.mpr happ), hdirty⟩
    · rw [hconfigured]
      decide
  · exact absurd (TransGen.mono (fun _ _ => hwants.mp) x x hcircle) (hacyclic x)

end successors

end Command

end Regen
