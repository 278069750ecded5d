import Regen.Command.Lock
import Regen.Proofs.Command.Work
import Regen.Proofs.Lockfile.Load
import Regen.Proofs.Source.Owner

/-! # The lockfile after an update

    An update records every resolved source as it is now and keeps what was recorded of the
    unresolved ones.  That is said here of the lockfile that is read afterwards, in terms of the
    settings, the lockfile that was there, the current fingerprints and the scanned files; `V` says
    how the notes in records may differ when YAML gives them back. -/

namespace Regen.Command

open Number Time

/-- Two times are the same instant. -/
def SameInstant (t u : Moment) : Prop := t.equals u = true

/-- **What an update records.** -/
structure Updated (V : Value → Value → Prop) (s : Settings) (stored : Lockfile)
    (current : Ledger String) (scanned : Ledger FileRecord) (m : Lockfile) : Prop where
  /-- The recorded sources are the resolved ones, and the unresolved ones with a record. -/
  sources : m.sources.names.Nodup ∧ ∀ name, name ∈ m.sources.names ↔
    name ∈ current.names ∨ name ∈ unresolvedSources s current ∧ name ∈ stored.sources.names
  resolved : ∀ x ∈ s.sources, ∀ fingerprint, current.find? x.name = some fingerprint →
    ∃ r, m.sources.find? x.name = some r ∧ r.fingerprint = fingerprint ∧ r.ref = x.git.ref ∧
      r.filters = x.scope
  kept : ∀ name ∈ unresolvedSources s current, Option.Rel (SourceRecord.Rel SameInstant V)
    (stored.sources.find? name) (m.sources.find? name)
  /-- The recorded files are the scanned ones, and where none was scanned those of unresolved
      sources. -/
  files : m.files.names.Nodup ∧ ∀ path, Option.Rel (FileRecord.Rel SameInstant V)
    ((scanned.find? path).or ((stored.files.find? path).filter fun r =>
      (unresolvedSources s current).contains r.owner))
    (m.files.find? path)
  dependencies : m.dependencies.names.Nodup ∧ ∀ name wanted,
    m.dependencies.find? name = some wanted ↔
      wanted ≠ [] ∧ ∃ x ∈ s.sources, x.name = name ∧ x.dependsOn = wanted
  revision : m.revision = stored.revision + 1
  sourcesCounted : m.statistics.sourcesProcessed + m.statistics.warnings = s.sources.length
  filesCounted : m.statistics.filesGenerated = m.files.length
  cacheHitRate : m.statistics.cacheHitRate =
    if (updatePlan s stored current).requiresFull then .zero
    else .ofRatio false (s.sources.length - (updatePlan s stored current).totalSources)
      s.sources.length

section parts
variable {s : Settings} {stored : Lockfile} {current : Ledger String}
  {scanned : Ledger FileRecord} {totalMillis : Int} {now : Moment} {tool : String}

/-! ## Sources -/

theorem perm_unresolvedSources (s : Settings) (current : Ledger String) :
    (unresolvedSources s current).Perm (s.sourceNames.filter fun name => !current.has name) :=
  perm_sortBy

/-- Every configured source is resolved or not. -/
theorem length_resolved_add_unresolved (s : Settings) (current : Ledger String) :
    (resolvedSources s current).length + (unresolvedSources s current).length =
      s.sources.length := by
  rw [(perm_unresolvedSources s current).length_eq, Settings.sourceNames, List.filter_map,
    List.length_map, resolvedSources]
  exact (List.length_eq_length_filter_add _).symm

theorem mem_resolvedSources {x : Source} :
    x ∈ resolvedSources s current ↔ x ∈ s.sources ∧ current.has x.name :=
  List.mem_filter

theorem mem_keptSources {name : String} :
    name ∈ keptSources stored (unresolvedSources s current) ↔
      name ∈ unresolvedSources s current ∧ stored.sources.has name :=
  List.mem_filter

/-- The records after an update before they are collected. -/
def updatedEntries (s : Settings) (stored : Lockfile) (current : Ledger String) (now : Moment) :
    List (String × SourceRecord) :=
  ((resolvedSources s current).map fun x =>
      (x.name, x.record ((current.find? x.name).getD "") [] now)) ++
    (keptSources stored (unresolvedSources s current)).filterMap fun name =>
      (stored.sources.find? name).map fun r => (name, r)

/-- No source is recorded twice: it is resolved or not. -/
theorem nodup_updatedEntries (hnames : s.sourceNames.Nodup) :
    ((updatedEntries s stored current now).map (·.1)).Nodup := by
  rw [updatedEntries, List.map_append, List.nodup_append, List.map_map, List.map_filterMap]
  refine ⟨hnames.sublist (List.filter_sublist.map _), ?_, ?_⟩
  · have hunresolved := (perm_unresolvedSources s current).nodup_iff.mpr (hnames.filter _)
    refine (hunresolved.filter _).filterMap fun a b c ha hb => ?_
    simp only [Option.mem_def, Option.map_eq_some_iff] at ha hb
    obtain ⟨_, ⟨_, _, rfl⟩, rfl⟩ := ha
    obtain ⟨_, ⟨_, _, rfl⟩, hb⟩ := hb
    exact hb.symm
  · -- A name on both sides would be of a source that has a fingerprint and has none.
    intro a ha b hb hab
    subst hab
    obtain ⟨x, hx, rfl⟩ := List.mem_map.mp ha
    obtain ⟨name, hname, hb⟩ := List.mem_filterMap.mp hb
    simp only [Option.map_eq_some_iff] at hb
    obtain ⟨_, ⟨_, _, rfl⟩, rfl⟩ := hb
    have hnone := (mem_unresolvedSources.mp (mem_keptSources.mp hname).1).2
    have hsome := (mem_resolvedSources.mp hx).2
    rw [Ledger.has, Function.comp_apply] at *
    simp [hnone] at hsome

/-- The records after an update. -/
abbrev updatedRecords (s : Settings) (stored : Lockfile) (current : Ledger String) (now : Moment) :
    Ledger SourceRecord :=
  updatedSources stored (resolvedSources s current) current
    (keptSources stored (unresolvedSources s current)) now

/-- **The records after an update**: of a resolved source as it is now, and of an unresolved one
    as it was. -/
theorem find?_updatedSources (hnames : s.sourceNames.Nodup) {name : String} {r : SourceRecord} :
    (updatedRecords s stored current now).find? name = some r ↔
      (∃ x ∈ s.sources, x.name = name ∧ ∃ fingerprint, current.find? name = some fingerprint ∧
        r = x.record fingerprint [] now) ∨
      name ∈ unresolvedSources s current ∧ stored.sources.find? name = some r := by
  have hdistinct : ((updatedEntries s stored current now).map (·.1)).Nodup :=
    nodup_updatedEntries hnames
  show (Ledger.ofEntries (updatedEntries s stored current now)).find? name = some r ↔ _
  rw [Ledger.ofEntries_of_nodup hdistinct, Ledger.find?_eq_some_iff hdistinct, updatedEntries,
    List.mem_append, List.mem_map, List.mem_filterMap]
  -- As no name comes twice, the two lists of entries are looked through one by one.
  refine or_congr ?_ ?_
  · constructor
    · rintro ⟨x, hx, heq⟩
      obtain ⟨rfl, rfl⟩ := Prod.mk.inj heq
      obtain ⟨hmem, hhas⟩ := mem_resolvedSources.mp hx
      obtain ⟨fingerprint, hfind⟩ := Option.isSome_iff_exists.mp hhas
      exact ⟨x, hmem, rfl, fingerprint, hfind, by rw [hfind, Option.getD_some]⟩
    · rintro ⟨x, hx, rfl, fingerprint, hfind, rfl⟩
      refine ⟨x, mem_resolvedSources.mpr ⟨hx, by rw [Ledger.has, hfind]; rfl⟩, ?_⟩
      rw [hfind, Option.getD_some]
  · constructor
    · rintro ⟨other, hother, heq⟩
      obtain ⟨_, hfind, heq⟩ := Option.map_eq_some_iff.mp heq
      obtain ⟨rfl, rfl⟩ := Prod.mk.inj heq
      exact ⟨(mem_keptSources.mp hother).1, hfind⟩
    · rintro ⟨hname, hfind⟩
      refine ⟨name, mem_keptSources.mpr ⟨hname, by rw [Ledger.has, hfind]; rfl⟩, ?_⟩
      rw [hfind, Option.map_some]

/-- What was recorded of an unresolved source is kept. -/
theorem find?_updatedSources_of_unresolved (hnames : s.sourceNames.Nodup) {name : String}
    (hname : name ∈ unresolvedSources s current) :
    (updatedRecords s stored current now).find? name =
      stored.sources.find? name := by
  have hnone := (mem_unresolvedSources.mp hname).2
  apply Option.ext
  intro r
  rw [find?_updatedSources hnames]
  constructor
  · rintro (⟨_, _, _, _, hfind, _⟩ | ⟨_, hr⟩)
    · rw [hnone] at hfind
      cases hfind
    · exact hr
  · exact fun hr => .inr ⟨hname, hr⟩

/-- The recorded sources are the resolved ones and the kept ones. -/
theorem mem_names_updatedSources (hnames : s.sourceNames.Nodup) (hcurrent : Current s current)
    {name : String} :
    name ∈ (updatedRecords s stored current now).names ↔
      name ∈ current.names ∨ name ∈ unresolvedSources s current ∧ name ∈ stored.sources.names := by
  simp only [← Ledger.find?_isSome_iff, Option.isSome_iff_exists, find?_updatedSources hnames]
  constructor
  · rintro ⟨r, ⟨_, _, _, fingerprint, hfind, _⟩ | ⟨hname, hr⟩⟩
    · exact .inl ⟨fingerprint, hfind⟩
    · exact .inr ⟨hname, r, hr⟩
  · rintro (⟨fingerprint, hfind⟩ | ⟨hname, r, hr⟩)
    · have hname := hcurrent.configured name
        (Ledger.mem_names.mpr ⟨fingerprint, Ledger.mem_of_find? hfind⟩)
      obtain ⟨x, hx, rfl⟩ := List.mem_map.mp hname
      exact ⟨_, .inl ⟨x, hx, rfl, fingerprint, hfind, rfl⟩⟩
    · exact ⟨r, .inr ⟨hname, hr⟩⟩

/-! ## Files -/

/-- **The file records after an update.** -/
theorem find?_updatedFiles (hfiles : stored.files.names.Nodup) (unresolved : List String)
    (path : String) :
    (updatedFiles stored scanned unresolved).find? path =
      (scanned.find? path).or ((stored.files.find? path).filter fun r =>
        unresolved.contains r.owner) := by
  rw [updatedFiles, Ledger.find?_foldl_insertNew,
    Ledger.find?_filter hfiles fun r => unresolved.contains r.owner]

/-! ## Dependencies -/

theorem nodup_names_dependencies (s : Settings) : s.dependencies.names.Nodup :=
  Ledger.nodup_names_ofEntries _

theorem find?_dependencies (hnames : s.sourceNames.Nodup) {name : String} {wanted : List String} :
    s.dependencies.find? name = some wanted ↔
      wanted ≠ [] ∧ ∃ x ∈ s.sources, x.name = name ∧ x.dependsOn = wanted := by
  rw [Ledger.find?_eq_some_iff (nodup_names_dependencies s), mem_dependencies hnames]
  constructor
  · rintro ⟨x, hx, hsome, heq⟩
    obtain ⟨rfl, rfl⟩ := Prod.mk.inj heq
    exact ⟨hsome, x, hx, rfl, rfl⟩
  · rintro ⟨hsome, x, hx, rfl, rfl⟩
    exact ⟨x, hx, hsome, rfl⟩

theorem needs_dependencies_iff (hnames : s.sourceNames.Nodup) {x y : String} :
    Needs s.dependencies x y ↔ ∃ source ∈ s.sources, source.name = x ∧ y ∈ source.dependsOn := by
  simp only [Needs, find?_dependencies hnames]
  constructor
  · rintro ⟨_, ⟨-, source, hsource, hname, rfl⟩, hy⟩
    exact ⟨source, hsource, hname, hy⟩
  · rintro ⟨source, hsource, hname, hy⟩
    exact ⟨_, ⟨List.ne_nil_of_mem hy, source, hsource, hname, rfl⟩, hy⟩

/-! ## Statistics -/

/-- The share of the configured sources that a plan spares. -/
theorem cacheHitRate_eq (p : Plan) (configured : Nat) :
    p.cacheHitRate configured =
      if p.requiresFull then .zero
      else .ofRatio false (configured - p.totalSources) configured := by
  unfold Plan.cacheHitRate
  by_cases hfull : p.requiresFull
  · simp [hfull]
  · by_cases hnone : configured = 0
    · subst hnone
      simp [hfull, Binary64.ofRatio, Binary64.zero]
    · have hpositive : ¬(configured : Int) ≤ 0 := by omega
      simp [hfull, hnone]

/-! ## The whole lockfile -/

theorem wellFormed_updatedLockfile (hstored : stored.WellFormed) (hscanned : Scanned scanned) :
    (updatedLockfile s stored current scanned totalMillis now tool).next.WellFormed where
  schemaVersion := hstored.schemaVersion
  sources := Ledger.nodup_names_ofEntries _
  files := Ledger.nodup_names_foldl_insertNew hscanned.distinct
  dependencies := nodup_names_dependencies s

section reading
variable {V : Value → Value → Prop} {m : Lockfile}

/-- A record that is read again has its time as the same instant. -/
theorem sameInstant_source {x : Option SourceRecord} {y : Option SourceRecord}
    (hoffset : ∀ r, x = some r → r.fetchedAt.offset.isSome)
    (h : Option.Rel (SourceRecord.Rel (fun t u => t.toUtc = .ok u) V) x y) :
    Option.Rel (SourceRecord.Rel SameInstant V) x y := by
  cases h with
  | none => exact .none
  | @some r r' hr =>
    exact .some { hr with fetchedAt := Lockfile.equals_of_toUtc (hoffset r rfl) hr.fetchedAt }

theorem sameInstant_file {x : Option FileRecord} {y : Option FileRecord}
    (hoffset : ∀ r, x = some r → r.modifiedAt.offset.isSome)
    (h : Option.Rel (FileRecord.Rel (fun t u => t.toUtc = .ok u) V) x y) :
    Option.Rel (FileRecord.Rel SameInstant V) x y := by
  cases h with
  | none => exact .none
  | @some r r' hr =>
    exact .some { hr with modifiedAt := Lockfile.equals_of_toUtc (hoffset r rfl) hr.modifiedAt }

/-- **What is read after an update is what it was to record.** -/
theorem updated_of_rel (hV : ReadsBack V) (hnames : s.sourceNames.Nodup)
    (hcurrent : Current s current) (hstored : stored.WellFormed) (hoffsets : stored.HasOffsets)
    (hscanned : Scanned scanned)
    (hrel : Lockfile.Rel (fun t u => t.toUtc = .ok u) V
      (updatedLockfile s stored current scanned totalMillis now tool).next m) :
    Updated V s stored current scanned m where
  sources := by
    refine ⟨hrel.sources.names.nodup_iff.mpr (Ledger.nodup_names_ofEntries _), fun name => ?_⟩
    rw [hrel.sources.names.mem_iff]
    exact mem_names_updatedSources hnames hcurrent
  resolved := by
    intro x hx fingerprint hfind
    have hrecord : (updatedRecords s stored current now).find? x.name =
        some (x.record fingerprint [] now) :=
      (find?_updatedSources hnames).mpr (.inl ⟨x, hx, rfl, fingerprint, hfind, rfl⟩)
    obtain ⟨r, hr, hrecorded⟩ := hrel.sources.exists_entry hrecord
    exact ⟨r, hr, hrecorded.fingerprint, hrecorded.ref, hrecorded.filters⟩
  kept := by
    -- A kept record's time has an offset, so that what is read is the same instant.
    intro name hname
    have hkept : (updatedRecords s stored current now).find? name = stored.sources.find? name :=
      find?_updatedSources_of_unresolved hnames hname
    rw [← hkept]
    refine sameInstant_source (fun r hr => ?_) (hrel.sources.entries name)
    rw [hkept] at hr
    exact hoffsets.fetchedAt _ (Ledger.mem_of_find? hr)
  files := by
    refine ⟨hrel.files.names.nodup_iff.mpr
      (Ledger.nodup_names_foldl_insertNew hscanned.distinct), fun path => ?_⟩
    rw [← find?_updatedFiles hstored.files]
    refine sameInstant_file (fun r hr => ?_) (hrel.files.entries path)
    rw [find?_updatedFiles hstored.files, Option.or_eq_some_iff] at hr
    rcases hr with hr | ⟨_, hr⟩
    · exact hscanned.modifiedAt _ (Ledger.mem_of_find? hr)
    · exact hoffsets.modifiedAt _ (Ledger.mem_of_find? (Option.filter_eq_some_iff.mp hr).1)
  dependencies := by
    refine ⟨hrel.dependencies.names.nodup_iff.mpr (nodup_names_dependencies s), ?_⟩
    intro name wanted
    rw [← find?_dependencies hnames, hrel.dependencies.find?_eq]
    rfl
  revision := hrel.revision
  sourcesCounted := by
    rw [hrel.statistics.sourcesProcessed, hrel.statistics.warnings]
    exact congrArg Nat.cast (length_resolved_add_unresolved s current)
  filesCounted := by
    have hlength := hrel.files.names.length_eq
    rw [Ledger.names, Ledger.names, List.length_map, List.length_map] at hlength
    rw [hrel.statistics.filesGenerated, hlength]
    rfl
  cacheHitRate := by
    have hrate := hV.real hrel.statistics.cacheHitRate
    rw [← cacheHitRate_eq]
    exact Value.real.inj hrate

end reading

end parts

end Regen.Command
