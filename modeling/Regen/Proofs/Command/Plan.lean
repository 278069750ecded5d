import Regen.Proofs.Command.Basic
import Regen.Proofs.Command.Work
import Regen.Proofs.Settings.Accepted
import Regen.Proofs.Text.Utf8

/-! # Planning never leaves anything stale

    A run that shows a plan and ends with success has opened accepted settings and a lockfile,
    found the current fingerprints of configured sources, and shows what was worked out from
    these.  So what the user is shown covers every source that is affected by a change. -/

namespace Regen.Command

open Relation

/-! ## Settings -/

section settings
variable {h h' : Host} {s : Settings} {p : Path}

theorem gives_pathExists {b : Bool} :
    Gives (pathExists p) h b h' ↔ fileExists h.disk p = .ok b ∧ h = h' := by
  unfold pathExists
  rw [gives_bind]
  constructor
  · rintro ⟨_, _, hget, hrun⟩
    obtain ⟨rfl, rfl⟩ := gives_get.mp hget
    exact gives_ofExcept.mp hrun
  · rintro ⟨hfound, rfl⟩
    exact ⟨h, h, gives_get.mpr ⟨rfl, rfl⟩, gives_ofExcept.mpr ⟨hfound, rfl⟩⟩

/-- Settings are opened as the disk and the variables have them, and nothing changes. -/
theorem gives_openSettings {file : Path} :
    Gives (openSettings file) h s h' ↔ h = h' ∧ ∃ found, fileExists h.disk file = .ok found ∧
      ((Settings.load h.disk h.environment file.parent (if found then some file else none)
        h.sharedSettings).run.run []).1 = .ok s := by
  unfold openSettings
  simp only [gives_bind, gives_pathExists]
  constructor
  · rintro ⟨found, _, ⟨hfound, rfl⟩, loaded, _, hload, hrun⟩
    obtain ⟨_, _, hget, hload⟩ := gives_bind.mp hload
    obtain ⟨rfl, rfl⟩ := gives_get.mp hget
    obtain ⟨hloaded, rfl⟩ := gives_pure.mp hload
    split at hrun
    · obtain ⟨rfl, rfl⟩ := gives_pure.mp hrun
      exact ⟨rfl, found, hfound, hloaded⟩
    · exact absurd hrun not_gives_sayAndExit
    · exact absurd hrun not_gives_throw
  · rintro ⟨rfl, found, hfound, hload⟩
    refine ⟨found, h, ⟨hfound, rfl⟩, .ok s, h, ?_, gives_pure.mpr ⟨rfl, rfl⟩⟩
    exact gives_bind.mpr ⟨h, h, gives_get.mpr ⟨rfl, rfl⟩, gives_pure.mpr ⟨hload, rfl⟩⟩

/-- Settings that pass a check are opened, and nothing else happens. -/
theorem exists_opened {config : Path} {check : Settings → Bool}
    (hopened : ((openSettings config).run.run h).1.toOption.any check) :
    ∃ s, Gives (openSettings config) h s h ∧ check s := by
  obtain ⟨s, hopen, hcheck⟩ := exists_ok_of_any hopened
  have hgives := gives_of_fst hopen
  obtain ⟨hsame, -⟩ := gives_openSettings.mp hgives
  rw [← hsame] at hgives
  exact ⟨s, hgives, hcheck⟩

/-- Settings that are found to be these are opened. -/
theorem gives_of_opened {config : Path}
    (hopened : ((openSettings config).run.run h).1.toOption.any (· == s)) :
    Gives (openSettings config) h s h := by
  obtain ⟨s', hopen, hsame⟩ := exists_opened hopened
  rwa [eq_of_beq hsame] at hopen

/-- The settings that a command opens name every source once. -/
theorem nodup_sourceNames_of_open {file : Path} (hopen : Gives (openSettings file) h s h') :
    s.sourceNames.Nodup := by
  obtain ⟨-, found, -, hload⟩ := gives_openSettings.mp hopen
  exact Settings.nodup_sourceNames_of_load (Prod.ext hload rfl)

theorem fails_openLockfile (p : Path) : StopsOnly Stop.Fails (openLockfile p) := by
  refine StopsOnly.get.bind fun h => ?_
  split
  · exact .pure _
  · exact fails_sayAndExit Nat.one_ne_zero
  · exact .throw nofun

end settings

/-! ## Fingerprints -/

section fingerprints
variable {h h' : Host} {s : Settings} {current : Ledger String}

/-- Resolving sources finds fingerprints of these sources only. -/
theorem current_of_resolveFrom (names : List String) {failFast : Bool} {sources : List Source}
    {r r' : Resolution} (hsources : ∀ x ∈ sources, x.name ∈ names)
    (hdistinct : r.fingerprints.names.Nodup) (hnames : ∀ x ∈ r.fingerprints.names, x ∈ names)
    (hrun : Gives (resolveFrom failFast r sources) h r' h') :
    r'.fingerprints.names.Nodup ∧ ∀ x ∈ r'.fingerprints.names, x ∈ names := by
  induction sources generalizing r h with
  | nil =>
    obtain ⟨rfl, _⟩ := gives_pure.mp hrun
    exact ⟨hdistinct, hnames⟩
  | cons source rest ih =>
    rw [resolveFrom] at hrun
    have hrest : ∀ x ∈ rest, x.name ∈ names := fun x hx => hsources x (List.mem_cons_of_mem _ hx)
    obtain ⟨outcome, h₁, _, hrun⟩ := gives_bind.mp hrun
    split at hrun
    -- A source that is resolved adds its own name, and one that fails adds none.
    · refine ih hrest (Ledger.nodup_names_insert hdistinct) (fun x hx => ?_) hrun
      rcases Ledger.mem_names_insert.mp hx with rfl | hx
      · exact hsources source List.mem_cons_self
      · exact hnames x hx
    · split at hrun
      · cases (Prod.mk.inj hrun).1
      · refine ih hrest ?_ ?_ hrun
        · exact hdistinct
        · exact hnames
    · cases (Prod.mk.inj hrun).1

theorem current_of_found (hrun : Gives (foundFingerprints s) h current h') : Current s current := by
  unfold foundFingerprints at hrun
  obtain ⟨outcome, h₁, hresolved, hrun⟩ := gives_bind.mp hrun
  split at hrun
  · next r =>
    obtain ⟨_, _, _, hrun⟩ := gives_bind.mp hrun
    obtain ⟨rfl, _⟩ := gives_pure.mp hrun
    have hresolve : Gives _ h r h₁ := gives_attempt.mp hresolved
    -- Resolving begins with no fingerprint at all.
    have hempty : Ledger.names (Resolution.mk [] []).fingerprints = [] := rfl
    obtain ⟨hdistinct, hnames⟩ := current_of_resolveFrom (r := ⟨[], []⟩) s.sourceNames
      (fun x hx => List.mem_map_of_mem hx) (hempty ▸ List.nodup_nil)
      (hempty ▸ fun _ hx => absurd hx List.not_mem_nil) hresolve
    exact ⟨hdistinct, hnames⟩
  · exact absurd hrun not_gives_sayAndExit
  · cases (Prod.mk.inj hrun).1

theorem current_of_listed {p : Path} (hrun : Gives (listedFingerprints s p) h current h') :
    Current s current := by
  unfold listedFingerprints at hrun
  obtain ⟨given, _, _, hrun⟩ := gives_bind.mp hrun
  obtain ⟨_, _, _, hrun⟩ := gives_bind.mp hrun
  obtain ⟨rfl, _⟩ := gives_pure.mp hrun
  refine ⟨Ledger.nodup_names_ofEntries _, fun x hx => ?_⟩
  obtain ⟨e, he, rfl⟩ := Ledger.mem_names_ofEntries.mp hx
  obtain ⟨name, hname, hfind⟩ := List.mem_filterMap.mp he
  obtain ⟨_, _, rfl⟩ := Option.map_eq_some_iff.mp hfind
  exact hname

/-- **The current fingerprints are those of configured sources.** -/
theorem current_of_gives {file : Option Path}
    (hrun : Gives (currentFingerprints s file) h current h') : Current s current := by
  match file with
  | some p => exact current_of_listed hrun
  | none => exact current_of_found hrun

theorem fails_readFingerprints (p : Path) : StopsOnly Stop.Fails (readFingerprints p) := by
  have hrefuse : ∀ cause, StopsOnly Stop.Fails
      (sayAndExit (Message.fingerprintsFile p.text cause) 1 : Command (Ledger String)) :=
    fun _ => fails_sayAndExit Nat.one_ne_zero
  refine StopsOnly.get.bind fun h => ?_
  split
  · exact hrefuse _
  · exact hrefuse _
  · exact .throw nofun
  · split
    · exact StopsOnly.bind (fails_ofRun _) fun _ => .pure _
    · exact hrefuse _

theorem fails_currentFingerprints (file : Option Path) :
    StopsOnly Stop.Fails (currentFingerprints s file) := by
  match file with
  | some p =>
    refine (fails_readFingerprints p).bind fun given => ?_
    refine StopsOnly.bind (.forIn fun name _ => ?_) fun _ => .pure _
    split
    · exact (fails_say _).bind fun _ => .pure _
    · exact .pure _
  | none =>
    refine StopsOnly.bind (fails_ofRun _) fun outcome => ?_
    split
    · refine StopsOnly.bind (.forIn fun failure _ => ?_) fun _ => .pure _
      exact (fails_say _).bind fun _ => .pure _
    · exact fails_sayAndExit Nat.one_ne_zero
    · exact .throw nofun

end fingerprints

/-! ## Showing the work -/

section showing
variable {s : Settings} {w : Work} {force : Bool}

theorem fails_explainCircle {α : Type} (r : Except Failure α) :
    StopsOnly Stop.Fails (explainCircle r) := by
  unfold explainCircle
  split
  · exact .pure _
  · exact fails_sayAndExit Nat.one_ne_zero
  · exact .throw nofun

theorem gives_explainCircle {α : Type} {r : Except Failure α} {x : α} {h h' : Host}
    (hrun : Gives (explainCircle r) h x h') : r = .ok x ∧ h = h' := by
  unfold explainCircle at hrun
  split at hrun
  · obtain ⟨rfl, rfl⟩ := gives_pure.mp hrun
    exact ⟨rfl, rfl⟩
  · exact absurd hrun not_gives_sayAndExit
  · cases (Prod.mk.inj hrun).1

theorem fails_showFiles (files : List String) : StopsOnly Stop.Fails (showFiles files) := by
  unfold showFiles
  split
  · refine (fails_say _).bind fun _ => StopsOnly.bind (.forIn fun file _ => ?_) fun _ => .pure _
    exact (fails_say _).bind fun _ => .pure _
  · exact .pure _

theorem fails_showWork (s : Settings) (w : Work) (force : Bool) :
    StopsOnly Stop.Fails (showWork s w force) := by
  unfold showWork
  split
  · exact fails_say _
  · refine (fails_say _).bind fun _ => (fails_sayTable _ _).bind fun _ => ?_
    exact (fails_showFiles _).bind fun _ => StopsOnly.bind (fails_ofRun _) fun _ => fails_say _

theorem fails_planWith (s : Settings) (lockfile fingerprints : Option Path) (force : Bool) :
    StopsOnly Stop.Fails (planWith s lockfile fingerprints force) :=
  (fails_openLockfile _).bind fun _ => (fails_currentFingerprints _).bind fun _ =>
    (fails_explainCircle _).bind fun _ => fails_showWork s _ force

end showing

/-! ## Plans -/

section plans
variable {config : Path} {lockfile fingerprints : Option Path} {h h₁ : Host} {s : Settings}

/-- With accepted settings that have sources, the command goes on with these. -/
theorem run_plan (force : Bool) (hopen : Gives (openSettings config) h s h₁)
    (hsources : s.sources ≠ []) :
    (plan config lockfile fingerprints force).run.run h =
      (planWith s lockfile fingerprints force).run.run h₁ := by
  unfold plan
  rw [hopen.run_bind, if_neg (fun hempty => hsources (List.isEmpty_iff.mp hempty))]

/-- What a run that shows a plan did on its way. -/
theorem gives_planWith {force : Bool} {h' : Host}
    (hrun : Gives (planWith s lockfile fingerprints force) h () h') :
    ∃ stored h₁ current h₂ w, Gives (openLockfile (lockfilePath s lockfile)) h stored h₁ ∧
      Gives (currentFingerprints s fingerprints) h₁ current h₂ ∧
      workOf s stored current force = .ok w ∧ Gives (showWork s w force) h₂ () h' := by
  obtain ⟨stored, h₁, hstored, hrun⟩ := gives_bind.mp hrun
  obtain ⟨current, h₂, hcurrent, hrun⟩ := gives_bind.mp hrun
  obtain ⟨w, h₃, hexplain, hshow⟩ := gives_bind.mp hrun
  obtain ⟨hw, rfl⟩ := gives_explainCircle hexplain
  exact ⟨stored, h₁, current, h₂, w, hstored, hcurrent, hw, hshow⟩

/-- **A plan leaves nothing stale, and an incremental one has nothing that is not.**  A run that
    ends with success shows a list such that a configured source that is not on it neither is
    dirty nor wants a dirty one, directly or through others.  An incremental list has no other
    sources than these, and a full one has all configured sources.  Each source is listed once
    and behind all listed ones that it wants, directly or through others. -/
theorem plan_never_stale (hopen : Gives (openSettings config) h s h₁) (hsources : s.sources ≠ [])
    (hexit : (ending ((plan config lockfile fingerprints false).run.run h).1).exitCode = 0) :
    ∃ stored h₂ current h₃ w, Gives (openLockfile (lockfilePath s lockfile)) h₁ stored h₂ ∧
      Gives (currentFingerprints s fingerprints) h₂ current h₃ ∧
      workOf s stored current false = .ok w ∧
      Gives (showWork s w false) h₃ () ((plan config lockfile fingerprints false).run.run h).2 ∧
      (∀ x ∈ s.sourceNames, x ∉ w.ordered → ¬Dirty stored s current x ∧
        ∀ y, TransGen (Wants stored s) x y → ¬Dirty stored s current y) ∧
      (w.full = false → ∀ x ∈ w.ordered, Dirty stored s current x ∨
        ∃ y, TransGen (Wants stored s) x y ∧ Dirty stored s current y) ∧
      (w.full = true → ∀ x, x ∈ w.ordered ↔ x ∈ s.sourceNames) ∧
      w.ordered.Nodup ∧
      ∀ x ∈ w.ordered, ∀ y ∈ w.ordered, TransGen (Wants stored s) x y →
        [y, x].Sublist w.ordered := by
  rw [run_plan false hopen hsources] at hexit ⊢
  obtain ⟨h', hrun⟩ := gives_of_exitCode (fails_planWith s lockfile fingerprints false) hexit
  have hend : ((planWith s lockfile fingerprints false).run.run h₁).2 = h' :=
    congrArg Prod.snd hrun
  obtain ⟨stored, h₂, current, h₃, w, hstored, hcurrent, hw, hshow⟩ := gives_planWith hrun
  obtain ⟨hcover, hincremental, hfull, hdistinct, hbehind⟩ :=
    workOf_ok (nodup_sourceNames_of_open hopen) (current_of_gives hcurrent) hw
  refine ⟨stored, h₂, current, h₃, w, hstored, hcurrent, hw, hend ▸ hshow, ?_, hincremental, hfull,
    hdistinct, hbehind⟩
  intro x hx hout
  -- What is left out is not affected, and dirt of either kind would affect it.
  have hunaffected : ¬Affected stored s current x := fun haffected => hout (hcover x hx haffected)
  constructor
  · intro hdirty
    exact hunaffected (.inl hdirty)
  · intro y hchain hdirty
    exact hunaffected (.inr ⟨y, hchain, hdirty⟩)

/-! ### Two sources -/

/-- An application that depends on an interface. -/
def twoSources : String := "sources:
- type: crd
  name: api
  git:
    url: https://a.b/c
- type: crd
  name: app
  git:
    url: https://a.b/c
  depends_on: api
"

def configPath : Path := ⟨0, ["gensonnet.yaml"]⟩

def listPath : Path := ⟨0, ["fingerprints"]⟩

/-- A machine with these settings, where only the application has a current fingerprint. -/
def twoSourcesHost : Host where
  disk := ⟨[(configPath.parts, .file twoSources.toUTF8.toList 0),
    (listPath.parts, .file "app: x".toUTF8.toList 0)], []⟩
  sharedSettings := ⟨1, ["settings"]⟩
  now := ⟨⟨2024, 6, 1⟩, 12, 0, 0, 0, some 0⟩
  environment := ⟨none, none⟩
  git := []
  clock := []
  unreadable := []
  installed := true
  input := []
  calls := []
  printed := ""

/-- What these settings say, with the output folders that are proposed. -/
def twoSettings : Settings :=
  { Settings.default with
    sources := [
      ⟨"crd", "api", ⟨"https://a.b/c", "main"⟩, [], [], [], "generated/api", []⟩,
      ⟨"crd", "app", ⟨"https://a.b/c", "main"⟩, [], [], [], "generated/app", ["api"]⟩] }

set_option maxRecDepth 3000 in
theorem plan_never_stale_of_two :
    ∃ s h₁ stored current w, Gives (openSettings configPath) twoSourcesHost s h₁ ∧
      s.sourceNames = ["api", "app"] ∧
      (ending ((plan configPath none (some listPath) false).run.run twoSourcesHost).1).exitCode =
        0 ∧
      workOf s stored current false = .ok w ∧
      ∀ x ∈ s.sourceNames, x ∉ w.ordered → ¬Dirty stored s current x := by
  have hopen : Gives (openSettings configPath) twoSourcesHost twoSettings twoSourcesHost := by
    apply gives_of_opened
    rw [twoSourcesHost, Text.toUTF8_toList (s := twoSources) rfl]
    decide +kernel
  have hsources : twoSettings.sources ≠ [] := List.cons_ne_nil _ _
  have hexit : (ending ((plan configPath none (some listPath) false).run.run
      twoSourcesHost).1).exitCode = 0 := by
    rw [run_plan false hopen hsources]
    decide +kernel
  obtain ⟨stored, _, current, _, w, _, _, hw, _, hcover, _⟩ :=
    plan_never_stale hopen hsources hexit
  exact ⟨twoSettings, _, stored, current, w, hopen, rfl, hexit, hw,
    fun x hx hout => (hcover x hx hout).1⟩

end plans

end Regen.Command
