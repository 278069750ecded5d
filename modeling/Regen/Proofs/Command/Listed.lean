import Regen.Proofs.Command.Reports
import Regen.Proofs.Source.Resolution
import Regen.Proofs.Value.Shown

/-! # Sources with a fingerprint and sources without one

    Fingerprints come from git or from a file that lists them.  Either way every configured source
    has a fingerprint or is unresolved, and an unresolved one counts as changed and keeps its
    record.  The two differ in what they take for a fingerprint: git's is never empty, while a
    file gives the text of whatever stands beside a source's name.  So a source with an empty text
    has an empty fingerprint, and one with nothing at all has the text that shows nothing. -/

namespace Regen

/-! ## What a file says of a source -/

/-- What a file says of a source: the value of the last key that is written as its name. -/
def Entries.saysOf? (es : Entries) (name : String) : Option Value :=
  (List.find? (fun e => e.1.toText.toOption == some name) es.reverse).map (·.2)

/-- **A file resolves a source** if it says something of it that is neither null nor an empty
    text.  The fingerprint is the text of that. -/
def Entries.Resolves (es : Entries) (name fingerprint : String) : Prop :=
  ∃ v, es.saysOf? name = some v ∧ v ≠ .null ∧ v ≠ .text "" ∧ v.toText = .ok fingerprint

namespace Value

theorem toText_eq_ok {v : Value} {s : String} (h : v.toText = .ok s) : v.display = s := by
  unfold toText at h
  split at h
  · cases h
  · exact Except.ok.inj h

/-- Only the empty text has no character. -/
theorem toText_ne_empty {v : Value} {s : String} (h : v.toText = .ok s) (hv : v ≠ text "") :
    s ≠ "" := by
  rintro rfl
  exact hv (display_eq_empty_iff.mp (toText_eq_ok h))

end Value

namespace Command

variable {h h' : Host} {s : Settings} {current : Ledger String} {x : String}

/-- An entry is written as a key and a value. -/
def Written (e : Value × Value) (t : String × String) : Prop :=
  e.1.toText = .ok t.1 ∧ e.2.toText = .ok t.2

theorem written_of_mapM {es : Entries} {texts : List (String × String)}
    (h : es.mapM (fun e => do pure (← e.1.toText, ← e.2.toText)) = .ok texts) :
    List.Forall₂ Written es texts := by
  refine (mapM_eq_ok.mp h).imp ?_
  intro e t ht
  obtain ⟨k, hk, ht⟩ := bind_eq_ok.mp ht
  obtain ⟨v, hv, ht⟩ := bind_eq_ok.mp ht
  obtain rfl := Except.ok.inj ht
  exact ⟨hk, hv⟩

/-- The first text under a name is that of the first entry whose key is written so. -/
theorem find?_written {es : List (Value × Value)} {texts : List (String × String)}
    (h : List.Forall₂ Written es texts) (fingerprint : String) :
    (texts.find? fun t => t.1 == x).map (·.2) = some fingerprint ↔
      ∃ v, (es.find? fun e => e.1.toText.toOption == some x).map (·.2) = some v ∧
        v.toText = .ok fingerprint := by
  induction h with
  | nil => simp
  | @cons e t es texts ht _ ih =>
    have hkey : (e.1.toText.toOption == some x) = (t.1 == x) := by
      rw [ht.1]
      rfl
    rw [List.find?_cons, List.find?_cons, hkey]
    cases hx : t.1 == x with
    | true =>
      constructor
      · intro hfound
        exact ⟨e.2, rfl, ht.2.trans (congrArg Except.ok (Option.some.inj hfound))⟩
      · rintro ⟨v, hv, htext⟩
        obtain rfl := Option.some.inj hv
        exact congrArg some (Except.ok.inj (ht.2.symm.trans htext))
    | false => exact ih

/-- **What a file gives for a name** is the text of what it says of it. -/
theorem find?_given {es : Entries} {texts : List (String × String)}
    (h : List.Forall₂ Written es texts) (fingerprint : String) :
    (Ledger.ofEntries texts).find? x = some fingerprint ↔
      ∃ v, es.saysOf? x = some v ∧ v.toText = .ok fingerprint := by
  rw [Ledger.find?_ofEntries]
  exact find?_written (List.rel_reverse h) fingerprint

/-- A file with a mapping, or with nothing, is read entry by entry. -/
theorem gives_readFingerprints {p : Path} {v : Value} {es : Entries} {label : Label}
    {given : Ledger String} (hload : Yaml.load h.disk p = .ok v)
    (hmapping : Value.orElse (some v) (.map [] none) = .map es label)
    (hrun : Gives (readFingerprints p) h given h') :
    ∃ texts, List.Forall₂ Written es texts ∧ given = Ledger.ofEntries texts := by
  obtain ⟨host, _, hget, hrun⟩ := gives_bind.mp hrun
  obtain ⟨rfl, rfl⟩ := gives_get.mp hget
  rw [hload] at hrun
  dsimp only at hrun
  rw [hmapping] at hrun
  obtain ⟨texts, _, htexts, hrun⟩ := gives_bind.mp hrun
  obtain ⟨hwritten, rfl⟩ := gives_ofValue htexts
  obtain ⟨rfl, -⟩ := gives_pure.mp hrun
  exact ⟨texts, written_of_mapM hwritten, rfl⟩

/-! ## Fingerprints from a file -/

/-- The listed fingerprints of some names. -/
def listedOf (given : Ledger String) (names : List String) : List (String × String) :=
  names.filterMap fun name => (given.find? name).map fun fingerprint => (name, fingerprint)

theorem mem_listedOf {given : Ledger String} {names : List String} {fingerprint : String} :
    (x, fingerprint) ∈ listedOf given names ↔ x ∈ names ∧ given.find? x = some fingerprint := by
  rw [listedOf, List.mem_filterMap]
  constructor
  · rintro ⟨name, hname, hfound⟩
    obtain ⟨f, hf, heq⟩ := Option.map_eq_some_iff.mp hfound
    obtain ⟨rfl, rfl⟩ := Prod.mk.inj heq
    exact ⟨hname, hf⟩
  · rintro ⟨hname, hfound⟩
    exact ⟨x, hname, by rw [hfound, Option.map_some]⟩

/-- The listed names are in the order of the sources. -/
theorem names_listedOf (given : Ledger String) (names : List String) :
    (listedOf given names).map (·.1) = names.filter given.has := by
  induction names with
  | nil => rfl
  | cons name names ih =>
    rw [listedOf, List.filterMap_cons, List.filter_cons, Ledger.has]
    cases given.find? name with
    | none => exact ih
    | some fingerprint => exact congrArg (name :: ·) ih

/-- **The fingerprints that a file lists**: of each configured source that it says something of,
    the text of that. -/
theorem find?_of_listed {p : Path} {v : Value} {es : Entries} {label : Label}
    (hnames : s.sourceNames.Nodup) (hload : Yaml.load h.disk p = .ok v)
    (hmapping : Value.orElse (some v) (.map [] none) = .map es label)
    (hrun : Gives (listedFingerprints s p) h current h') (fingerprint : String) :
    current.find? x = some fingerprint ↔
      x ∈ s.sourceNames ∧ ∃ v, es.saysOf? x = some v ∧ v.toText = .ok fingerprint := by
  obtain ⟨given, h₁, hread, hrun⟩ := gives_bind.mp hrun
  obtain ⟨_, _, _, hrun⟩ := gives_bind.mp hrun
  obtain ⟨rfl, -⟩ := gives_pure.mp hrun
  obtain ⟨texts, hwritten, rfl⟩ := gives_readFingerprints hload hmapping hread
  have hdistinct : ((listedOf (.ofEntries texts) s.sourceNames).map (·.1)).Nodup := by
    rw [names_listedOf]
    exact hnames.filter _
  show (Ledger.ofEntries (listedOf (.ofEntries texts) s.sourceNames)).find? x = _ ↔ _
  rw [Ledger.ofEntries_of_nodup hdistinct, Ledger.find?_eq_some_iff hdistinct, mem_listedOf,
    find?_given hwritten]

/-- **A file's fingerprints are what it resolves** exactly if it says neither null nor an empty
    text of any configured source. -/
theorem resolves_iff {es : Entries}
    (hcurrent : ∀ x fingerprint, current.find? x = some fingerprint ↔
      x ∈ s.sourceNames ∧ ∃ v, es.saysOf? x = some v ∧ v.toText = .ok fingerprint) :
    (∀ x fingerprint, current.find? x = some fingerprint ↔
        x ∈ s.sourceNames ∧ es.Resolves x fingerprint) ↔
      ∀ x ∈ s.sourceNames, es.saysOf? x ≠ some .null ∧ es.saysOf? x ≠ some (.text "") := by
  constructor
  · intro hresolves x hx
    constructor
    · intro hnull
      have hfound := (hcurrent x "None").mpr ⟨hx, .null, hnull, by decide⟩
      obtain ⟨-, v, hv, hsome, -⟩ := (hresolves x "None").mp hfound
      rw [hnull] at hv
      exact hsome (Option.some.inj hv).symm
    · intro hempty
      have hfound := (hcurrent x "").mpr ⟨hx, .text "", hempty, by decide⟩
      obtain ⟨-, v, hv, -, hsome, -⟩ := (hresolves x "").mp hfound
      rw [hempty] at hv
      exact hsome (Option.some.inj hv).symm
  · intro hclean x fingerprint
    rw [hcurrent]
    apply and_congr_right
    intro hx
    constructor
    · rintro ⟨v, hv, htext⟩
      refine ⟨v, hv, ?_, ?_, htext⟩
      · rintro rfl
        exact (hclean x hx).1 hv
      · rintro rfl
        exact (hclean x hx).2 hv
    · rintro ⟨v, hv, -, -, htext⟩
      exact ⟨v, hv, htext⟩

/-! ## Fingerprints from git -/

/-- No source has an empty fingerprint. -/
def Filled (current : Ledger String) : Prop := ∀ e ∈ current, e.2 ≠ ""

/-- One more source that is resolved leaves no fingerprint empty. -/
theorem filled_of_resolveFrom {failFast : Bool} {sources : List Source} {r r' : Resolution}
    (hfilled : Filled r.fingerprints) (hrun : Gives (resolveFrom failFast r sources) h r' h') :
    Filled r'.fingerprints := by
  induction sources generalizing r h with
  | nil =>
    obtain ⟨rfl, -⟩ := gives_pure.mp hrun
    exact hfilled
  | cons source rest ih =>
    cases hcomes : source.comesTo h.disk h.answer with
    | ok commit =>
      rw [Gives, run_resolved hcomes] at hrun
      apply ih ?_ hrun
      intro e he
      rcases Ledger.mem_of_mem_insert he with rfl | he
      · exact ne_empty_of_comesTo hcomes
      · exact hfilled e he
    | error f =>
      -- A failure is noted and adds no fingerprint, or it ends the run.
      rcases failsOnly_comesTo f hcomes with ⟨cause, rfl⟩ | hbreaks
      · cases failFast with
        | false =>
          rw [Gives, run_noted hcomes] at hrun
          refine ih ?_ hrun
          exact hfilled
        | true => cases (Prod.mk.inj (hrun.symm.trans (stops_named hcomes))).1
      · cases (Prod.mk.inj (hrun.symm.trans (stops_broken hbreaks))).1

theorem filled_of_found (hrun : Gives (foundFingerprints s) h current h') : Filled current := by
  obtain ⟨outcome, h₁, hresolved, hrun⟩ := gives_bind.mp hrun
  split at hrun
  · obtain ⟨_, _, _, hrun⟩ := gives_bind.mp hrun
    obtain ⟨rfl, -⟩ := gives_pure.mp hrun
    exact filled_of_resolveFrom (fun _ he => absurd he List.not_mem_nil) (gives_attempt.mp hresolved)
  · exact absurd hrun not_gives_sayAndExit
  · cases (Prod.mk.inj hrun).1

/-! ## Resolved and unresolved sources -/

/-- **Current fingerprints part the sources** into resolved and unresolved ones, and an unresolved
    one is never taken for unchanged. -/
structure Parts (s : Settings) (current : Ledger String) : Prop where
  partition : (current.names ++ unresolvedSources s current).Perm s.sourceNames
  /-- Status shows the changed sources of this plan. -/
  changed : ∀ x ∈ unresolvedSources s current, ∀ stored, x ∈ (pendingPlan stored s current).changed
  planned : ∀ x ∈ unresolvedSources s current, ∀ stored force w,
    workOf s stored current force = .ok w → x ∈ w.plan.changed ∧ x ∈ w.ordered
  kept : ∀ x ∈ unresolvedSources s current, ∀ stored scanned totalMillis now tool,
    (updatedLockfile s stored current scanned totalMillis now tool).sources.find? x =
      stored.sources.find? x

theorem changed_of_unresolved (hx : x ∈ unresolvedSources s current) (stored : Lockfile) :
    x ∈ (pendingPlan stored s current).changed := by
  show x ∈ Text.sortedDistinct _
  rw [Text.mem_sortedDistinct]
  exact List.mem_append_right _ hx

theorem parts_of_current (hnames : s.sourceNames.Nodup) (hcurrent : Current s current) :
    Parts s current where
  partition := by
    -- The resolved names are the configured ones that have a fingerprint.
    have hresolved : current.names.Perm (s.sourceNames.filter current.has) := by
      apply (List.perm_ext_iff_of_nodup hcurrent.distinct (hnames.filter _)).mpr
      intro x
      rw [List.mem_filter, Ledger.has, Ledger.find?_isSome_iff]
      exact ⟨fun hx => ⟨hcurrent.configured x hx, hx⟩, fun hx => hx.2⟩
    exact (hresolved.append (perm_unresolvedSources s current)).trans
      (List.filter_append_perm current.has s.sourceNames)
  changed x hx stored := changed_of_unresolved hx stored
  planned x hx stored force w hw := by
    obtain ⟨hplan, -, -⟩ := workOf_eq_ok hw
    obtain ⟨hconfigured, hnone⟩ := mem_unresolvedSources.mp hx
    constructor
    · rw [hplan]
      exact changed_of_unresolved hx stored
    · exact (workOf_ok hnames hcurrent hw).1 x hconfigured (.inl ⟨hconfigured, .inl hnone⟩)
  kept x hx stored scanned totalMillis now tool :=
    find?_updatedSources_of_unresolved hnames hx

/-- **What counts as resolved**, with git and with a file.  Both part the configured sources into
    resolved and unresolved ones, and a source without a fingerprint counts as changed and keeps
    its record.  Git's fingerprints are never empty.  Those of a file are the texts of what it
    says of the sources, null and the empty text among them; they are what the file resolves
    exactly if it says neither of any configured source. -/
theorem fingerprints_part_sources (hnames : s.sourceNames.Nodup) :
    (∀ h current h', Gives (foundFingerprints s) h current h' →
      Parts s current ∧ Filled current) ∧
    ∀ h p v (es : Entries) label current h', Yaml.load h.disk p = .ok v →
      Value.orElse (some v) (.map [] none) = .map es label →
      Gives (listedFingerprints s p) h current h' →
      Parts s current ∧
        (∀ x fingerprint, current.find? x = some fingerprint ↔
          x ∈ s.sourceNames ∧ ∃ v, es.saysOf? x = some v ∧ v.toText = .ok fingerprint) ∧
        ((Filled current ∧ ∀ x fingerprint, current.find? x = some fingerprint ↔
            x ∈ s.sourceNames ∧ es.Resolves x fingerprint) ↔
          ∀ x ∈ s.sourceNames, es.saysOf? x ≠ some .null ∧ es.saysOf? x ≠ some (.text "")) := by
  constructor
  · intro h current h' hrun
    exact ⟨parts_of_current hnames (current_of_found hrun), filled_of_found hrun⟩
  · intro h p v es label current h' hload hmapping hrun
    have hcurrent := current_of_listed hrun
    have hsays : ∀ x fingerprint, current.find? x = some fingerprint ↔
        x ∈ s.sourceNames ∧ ∃ v, es.saysOf? x = some v ∧ v.toText = .ok fingerprint :=
      fun x fingerprint => find?_of_listed hnames hload hmapping hrun fingerprint
    refine ⟨parts_of_current hnames hcurrent, hsays, ?_⟩
    constructor
    · intro hresolves
      exact (resolves_iff hsays).mp hresolves.2
    · intro hclean
      have hresolves := (resolves_iff hsays).mpr hclean
      refine ⟨?_, hresolves⟩
      rintro ⟨x, fingerprint⟩ he
      have hfound := (Ledger.find?_eq_some_iff hcurrent.distinct).mpr he
      obtain ⟨-, v, -, -, hv, htext⟩ := (hresolves x fingerprint).mp hfound
      exact Value.toText_ne_empty htext hv

/-- Git's fingerprints are found once all sources were tried, if the warnings can be printed. -/
theorem gives_foundFingerprints {h₁ : Host} {r : Resolution}
    (hresolved : Gives (resolveAll s.sources s.failFast) h r h₁) (hshown : r.WarningsShown) :
    ∃ h', Gives (foundFingerprints s) h r.fingerprints h' := by
  obtain ⟨h', hprinted, -⟩ := (printsIf_warnings r).gives hshown h₁
  exact ⟨h', (gives_attempt.mpr hresolved).run_bind.trans hprinted.run_bind⟩

/-! ### Two sources -/

/-- Two sources that do not depend on each other. -/
def apartSettings : Settings :=
  { Settings.default with
    sources := [sourceAt "api" "https://a.b/c" "main", sourceAt "app" "https://a.b/d" "main"] }

/-- A host without git and with a file that lists fingerprints. -/
def listHost (text : String) : Host :=
  answeringHost [(listPath.parts, .file text.toUTF8.toList 0)] []

/-- A source that is configured apart is one of two. -/
theorem eq_of_mem_apart (hx : x ∈ apartSettings.sourceNames) : x = "api" ∨ x = "app" := by
  simpa [Settings.sourceNames, apartSettings, sourceAt] using hx

/-- Does a file list the fingerprint of one source, and nothing else? -/
def isOneListed (v : Value) : Bool := v matches .map [(.text "app", .text "x")] _

/-- Does a file name two sources, the first without a value and the second with an empty text? -/
def areTwoNamed (v : Value) : Bool :=
  v matches .map [(.text "api", .null), (.text "app", .text "")] _

/-- There is no git to find a fingerprint. -/
theorem found_nothing :
    ∃ h', Gives (foundFingerprints apartSettings) (listHost "app: x") [] h' := by
  obtain ⟨⟨fingerprints, failures⟩, hresolved, hfacts⟩ := exists_ok_of_any
    (x := ((resolveAll apartSettings.sources apartSettings.failFast).run.run
      (listHost "app: x")).1)
    (p := fun r => r.fingerprints == [] && r.failures == [("api", .noGit), ("app", .noGit)])
    (by decide)
  simp only [Bool.and_eq_true, beq_iff_eq] at hfacts
  obtain ⟨rfl, rfl⟩ := hfacts
  have hbare : Markup.Bare FingerprintFault.noGit.message := by decide
  refine gives_foundFingerprints (gives_of_fst hresolved) (List.forall_mem_map.mpr ?_)
  simp only [List.forall_mem_cons]
  exact ⟨shown_unresolved (by decide) hbare, shown_unresolved (by decide) hbare,
    fun _ hnone => absurd hnone List.not_mem_nil⟩

/-- How the listed fingerprints are read. -/
theorem listings :
    ((Yaml.load (listHost "app: x").disk listPath).toOption.any isOneListed ∧
      ((listedFingerprints apartSettings listPath).run.run (listHost "app: x")).1.toOption.any
        (· == [("app", "x")])) ∧
    (Yaml.load (listHost "api:\napp: ''\n").disk listPath).toOption.any areTwoNamed ∧
      ((currentFingerprints apartSettings (some listPath)).run.run
        (listHost "api:\napp: ''\n")).1.toOption.any (· == [("api", "None"), ("app", "")]) := by
  constructor
  · decide +kernel
  · decide +kernel

/-- One source is listed, and git finds none. -/
theorem fingerprints_part_sources_of_two :
    ∃ es h₁ h₂, apartSettings.sourceNames.Nodup ∧
      Gives (listedFingerprints apartSettings listPath) (listHost "app: x") [("app", "x")] h₁ ∧
      Parts apartSettings [("app", "x")] ∧ Entries.Resolves es "app" "x" ∧
      Gives (foundFingerprints apartSettings) (listHost "app: x") [] h₂ ∧
      Parts apartSettings [] := by
  have hnames : apartSettings.sourceNames.Nodup := by decide
  obtain ⟨⟨hloaded, hread⟩, -⟩ := listings
  obtain ⟨v, hload, hv⟩ := exists_ok_of_any hloaded
  obtain ⟨current, hlisted, hcurrent⟩ := exists_ok_of_any hread
  obtain ⟨h₂, hfound⟩ := found_nothing
  obtain rfl := eq_of_beq hcurrent
  obtain ⟨hgit, hfile⟩ := fingerprints_part_sources hnames
  unfold isOneListed at hv
  split at hv
  · obtain ⟨hparts, -, hclean⟩ := hfile _ _ _ _ _ _ _ hload rfl (gives_of_fst hlisted)
    have hresolves := hclean.mpr fun x hx => by
      rcases eq_of_mem_apart hx with rfl | rfl
      · constructor <;> intro hsays <;> cases hsays
      · constructor
        · intro hsays
          cases hsays
        · intro hsays
          exact absurd (Value.text.inj (Option.some.inj hsays)) (by decide)
    exact ⟨_, _, h₂, hnames, gives_of_fst hlisted, hparts, ((hresolves.2 "app" "x").mp rfl).2,
      hfound, (hgit _ _ _ hfound).1⟩
  · cases hv

/-- **A file that says nothing of its sources resolves them all the same**: beside one name stands
    nothing, and beside the other an empty text. -/
theorem listed_without_fingerprint :
    ∃ es label h',
      Yaml.load (listHost "api:\napp: ''\n").disk listPath = .ok (.map es label) ∧
      Gives (currentFingerprints apartSettings (some listPath)) (listHost "api:\napp: ''\n")
        [("api", "None"), ("app", "")] h' ∧
      unresolvedSources apartSettings [("api", "None"), ("app", "")] = [] ∧
      ¬Filled [("api", "None"), ("app", "")] ∧
      ∀ x ∈ apartSettings.sourceNames, ∀ fingerprint, ¬Entries.Resolves es x fingerprint := by
  obtain ⟨-, hloaded, hread⟩ := listings
  obtain ⟨v, hload, hv⟩ := exists_ok_of_any hloaded
  obtain ⟨current, hlisted, hcurrent⟩ := exists_ok_of_any hread
  obtain rfl := eq_of_beq hcurrent
  unfold areTwoNamed at hv
  split at hv
  · refine ⟨_, _, _, hload, gives_of_fst hlisted, by decide, ?_, ?_⟩
    · intro hfilled
      exact hfilled ("app", "") (by decide) rfl
    · rintro x hx fingerprint ⟨v, hsays, hnull, hempty, -⟩
      rcases eq_of_mem_apart hx with rfl | rfl
      · exact hnull (Option.some.inj hsays).symm
      · exact hempty (Option.some.inj hsays).symm
  · cases hv

end Command

end Regen
