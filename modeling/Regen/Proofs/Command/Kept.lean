import Regen.Proofs.Command.Update

/-! # Files of unresolved sources

    A plan takes a file for one of a source if the record of the file names the source as its
    owner, or names none.  An update keeps the records that name an unresolved source, unless it
    scanned the file for a resolved one. -/

namespace Regen

theorem FileRecord.Rel.refl (r : FileRecord) : r.Rel Eq Eq r := ⟨rfl, rfl, rfl, rfl, rfl, rfl⟩

theorem FileRecord.Rel.eq {r r' : FileRecord} (h : r.Rel Eq Eq r') : r' = r := by
  obtain ⟨hsha256, hsize, hmodified, howner, htype, hlines⟩ := h
  cases r
  cases r'
  simp_all

namespace Command

open Time

/-- **What an update keeps of files**: the record of a file that belongs to unresolved sources by
    its owner, unless the file was scanned.  A file that was scanned has the record of the scan. -/
structure KeepsFiles (T : Moment → Moment → Prop) (V : Value → Value → Prop) (s : Settings)
    (stored : Lockfile) (current : Ledger String) (scanned : Ledger FileRecord) (m : Lockfile) :
    Prop where
  kept : ∀ sources, (∀ x ∈ sources, x ∈ unresolvedSources s current) →
    ∀ path ∈ stored.filesOf sources, ∀ r, stored.files.find? path = some r → r.owner ≠ "" →
      scanned.find? path = none →
      (∃ r', m.files.find? path = some r' ∧ r.Rel T V r') ∧ path ∈ m.filesOf sources
  scanned : ∀ path r, scanned.find? path = some r →
    ∃ r', m.files.find? path = some r' ∧ r.Rel T V r'

section keeping
variable {T : Moment → Moment → Prop} {V : Value → Value → Prop} {s : Settings}
  {stored l m : Lockfile} {current : Ledger String} {scanned : Ledger FileRecord}

/-- Two records or none: what the first has, the second has too. -/
theorem exists_of_rel {x y : Option FileRecord} (h : Option.Rel (FileRecord.Rel T V) x y)
    {r : FileRecord} (hr : x = some r) : ∃ r', y = some r' ∧ r.Rel T V r' := by
  subst hr
  cases h with
  | some hrel => exact ⟨_, rfl, hrel⟩

/-- The scanned files and those of unresolved owners are what an update keeps. -/
theorem keepsFiles_of_rel (hstored : stored.files.names.Nodup) (hm : m.files.names.Nodup)
    (hfiles : ∀ path, Option.Rel (FileRecord.Rel T V)
      ((scanned.find? path).or ((stored.files.find? path).filter fun r =>
        (unresolvedSources s current).contains r.owner)) (m.files.find? path)) :
    KeepsFiles T V s stored current scanned m where
  kept := by
    intro sources hsources path hpath r hr howner hunscanned
    obtain ⟨hsome, r₀, hr₀, hof⟩ := (Lockfile.mem_filesOf hstored).mp hpath
    obtain rfl : r₀ = r := Option.some.inj (hr₀.symm.trans hr)
    -- The owner is one of the sources, hence unresolved.
    have hmem : r₀.owner ∈ sources := hof.resolve_left howner
    have hbefore : (scanned.find? path).or ((stored.files.find? path).filter fun r =>
        (unresolvedSources s current).contains r.owner) = some r₀ := by
      rw [hunscanned, Option.none_or, hr, Option.filter_some, if_pos]
      exact List.contains_iff_mem.mpr (hsources _ hmem)
    obtain ⟨r', hr', hrel⟩ := exists_of_rel (hfiles path) hbefore
    refine ⟨⟨r', hr', hrel⟩, (Lockfile.mem_filesOf hm).mpr ⟨hsome, r', hr', .inr ?_⟩⟩
    rw [hrel.owner]
    exact hmem
  scanned := by
    intro path r hr
    refine exists_of_rel (hfiles path) ?_
    rw [hr, Option.some_or]

theorem Updated.keepsFiles (hm : Updated V s stored current scanned m)
    (hstored : stored.files.names.Nodup) : KeepsFiles SameInstant V s stored current scanned m :=
  keepsFiles_of_rel hstored hm.files.1 hm.files.2

variable {h h₁ h₂ : Host} {config p : Path} {lockfile fingerprints : Option Path}
  {started : Value} {d : Disk}

/-- The lockfile that an update saves has these records themselves. -/
theorem UpdateRun.keepsFiles (hrun : UpdateRun s started config p fingerprints h stored current h₂
    scanned l d) : KeepsFiles Eq Eq s stored current scanned l := by
  obtain ⟨hstored, -⟩ := Lockfile.of_loadOrCreate hrun.opens
  have hscanned := scanned_of_scanResolved hrun.scans
  obtain ⟨⟨totalMillis, -, rfl⟩, -⟩ := hrun.written
  refine keepsFiles_of_rel hstored.files (wellFormed_updatedLockfile hstored hscanned).files ?_
  intro path
  rw [← find?_updatedFiles hstored.files]
  show Option.Rel _ _ ((updatedFiles stored scanned (unresolvedSources s current)).find? path)
  match (updatedFiles stored scanned (unresolvedSources s current)).find? path with
  | none => exact .none
  | some r => exact .some (FileRecord.Rel.refl r)

/-- What an update that ends with success did on its way. -/
theorem exists_updateRun (hopen : Gives (openSettings config) h s h₁) (hsources : s.sources ≠ [])
    (hexit : (ending ((lockUpdate config lockfile fingerprints).run.run h).1).exitCode = 0) :
    ∃ stored current h₂ scanned l,
      UpdateRun s (reading h) config (lockfilePath s lockfile) fingerprints (afterReading h) stored
        current h₂ scanned l ((lockUpdate config lockfile fingerprints).run.run h).2.disk := by
  rw [run_lockUpdate hopen hsources] at hexit ⊢
  obtain ⟨h', hrun⟩ := gives_of_exitCode (fails_updateWith s _ config lockfile fingerprints) hexit
  rw [hrun]
  exact gives_updateWith hrun

/-- **An update keeps the files of unresolved sources.**  The lockfile that it saves has the record
    of every file that belongs to some of them by its owner and was not scanned for a resolved
    source, so a plan for these sources still has the file.  The same is read at the path
    afterwards, if the path does not run through a link that stands at its own end and YAML gives
    back the document. -/
theorem lockUpdate_keeps (hopen : Gives (openSettings config) h s h₁) (hsources : s.sources ≠ [])
    (hexit : (ending ((lockUpdate config lockfile fingerprints).run.run h).1).exitCode = 0) :
    ∃ stored current h₂ scanned l d₁,
      UpdateRun s (reading h) config (lockfilePath s lockfile) fingerprints (afterReading h) stored
        current h₂ scanned l ((lockUpdate config lockfile fingerprints).run.run h).2.disk ∧
      KeepsFiles Eq Eq s stored current scanned l ∧
      h₂.disk.makeFolders (lockfilePath s lockfile).parent = (d₁, .ok ()) ∧
      (d₁.HasFreeEnd (lockfilePath s lockfile) → l.GivenBack Value.Alike →
        ∃ m, Lockfile.load ((lockUpdate config lockfile fingerprints).run.run h).2.disk
            (lockfilePath s lockfile) = .ok m ∧
          KeepsFiles SameInstant Value.Alike s stored current scanned m) := by
  obtain ⟨stored, current, h₂, scanned, l, hrun⟩ := exists_updateRun hopen hsources hexit
  obtain ⟨-, d₁, content, hmade, hencode, hcontent⟩ := hrun.written
  refine ⟨stored, current, h₂, scanned, l, d₁, hrun, hrun.keepsFiles, hmade, ?_⟩
  intro hfree hback
  obtain ⟨m, hm, hload⟩ := hrun.exists_updated Value.readsBack_alike
    (nodup_sourceNames_of_open hopen) hback hencode
  exact ⟨m, hload (hcontent hfree), hm.keepsFiles (Lockfile.of_loadOrCreate hrun.opens).1.files⟩

end keeping

/-! ### Recorded files -/

section recorded

/-- Does what an update of this machine goes by pass a check? -/
def goesBy (s : Settings) (h : Host)
    (check : Lockfile → Ledger String → Host → Ledger FileRecord → Bool) : Bool :=
  let h₁ := afterReading h
  match Lockfile.loadOrCreate h₁.disk (lockfilePath s none) h₁.now h₁.toolVersion,
    (currentFingerprints s (some listPath)).run.run h₁ with
  | .ok stored, (.ok current, h₂) =>
    (scanResolved h₂ configPath s current).toOption.any (check stored current h₂)
  | _, _ => false

theorem of_goesBy {s : Settings} {h h₂ : Host} {stored l : Lockfile} {current : Ledger String}
    {scanned : Ledger FileRecord} {d : Disk}
    {check : Lockfile → Ledger String → Host → Ledger FileRecord → Bool} (hcheck : goesBy s h check)
    (hrun : UpdateRun s (reading h) configPath (lockfilePath s none) (some listPath)
      (afterReading h) stored current h₂ scanned l d) : check stored current h₂ scanned := by
  have hcurrent : (currentFingerprints s (some listPath)).run.run (afterReading h) =
    (.ok current, h₂) := hrun.resolves
  simpa [goesBy, hrun.opens, hcurrent, hrun.scans, Except.toOption] using hcheck

/-- An interface without a current fingerprint, and an application. -/
def apart : String := "sources:
- type: crd
  name: api
  git: &g
    url: https://a.b/c
- type: crd
  name: app
  git: *g
  output_path: out
"

/-- Two files of the interface and one without an owner. -/
def recordedFiles : String := "schema_version: '1.0'
generated_at: '2024-06-01'
files:
  f: &r
    sha256: a
    size: 1
    modified_at: '2024-06-01'
  g: &s
    <<: *r
    source_id: api
  out/x: *s
"

/-- A machine where these are recorded, and one of the files is among the application's now. -/
def recordedHost : Host :=
  { twoSourcesHost with
    disk := ⟨[(configPath.parts, .file apart.toUTF8.toList 0),
      (listPath.parts, .file "app: x".toUTF8.toList 0),
      (["gensonnet.lock"], .file recordedFiles.toUTF8.toList 0),
      (["out"], .folder), (["out", "x"], .file [] 0)], []⟩ }

/-- The owner in the record of a file. -/
def ownerOf (files : Ledger FileRecord) (path : String) : Option String :=
  (files.find? path).map (·.owner)

/-- What the settings say, with the output folder that is proposed for the interface. -/
def recordedSettings : Settings :=
  { Settings.default with
    sources := [
      ⟨"crd", "api", ⟨"https://a.b/c", "main"⟩, [], [], [], "generated/api", []⟩,
      ⟨"crd", "app", ⟨"https://a.b/c", "main"⟩, [], [], [], "out", []⟩] }

set_option maxRecDepth 3000 in
theorem recordedHost_run :
    Gives (openSettings configPath) recordedHost recordedSettings recordedHost ∧
      (ending ((lockUpdate configPath none (some listPath)).run.run recordedHost).1).exitCode = 0 ∧
      goesBy recordedSettings recordedHost fun stored current _ scanned =>
        unresolvedSources recordedSettings current == ["api"] && ownerOf stored.files "f" == some "" &&
        ownerOf stored.files "g" == some "api" && ownerOf stored.files "out/x" == some "api" &&
        ownerOf scanned "f" == none && ownerOf scanned "g" == none &&
        ownerOf scanned "out/x" == some "app" := by
  have hsettings : apart.toUTF8.toList = _ := Text.toUTF8_toList rfl
  have hfiles : recordedFiles.toUTF8.toList = _ := Text.toUTF8_toList rfl
  have hopen : Gives (openSettings configPath) recordedHost recordedSettings recordedHost := by
    apply gives_of_opened
    rw [recordedHost, hsettings, hfiles]
    decide +kernel
  refine ⟨hopen, ?_, ?_⟩
  · rw [run_lockUpdate hopen (List.cons_ne_nil _ _), recordedHost, hsettings, hfiles]
    decide +kernel
  · rw [recordedHost, hsettings, hfiles]
    decide +kernel

theorem exists_of_ownerOf {files : Ledger FileRecord} {path owner : String}
    (h : ownerOf files path = some owner) :
    ∃ r, files.find? path = some r ∧ r.owner = owner := Option.map_eq_some_iff.mp h

theorem find?_of_ownerOf_none {files : Ledger FileRecord} {path : String}
    (h : ownerOf files path = none) : files.find? path = none := Option.map_eq_none_iff.mp h

/-- The file of the interface that was not scanned is kept. -/
theorem lockUpdate_keeps_of_one :
    ∃ (s : Settings) (stored l : Lockfile) (r : FileRecord),
      Gives (openSettings configPath) recordedHost s recordedHost ∧
      (ending ((lockUpdate configPath none (some listPath)).run.run recordedHost).1).exitCode = 0 ∧
      stored.files.find? "g" = some r ∧ r.owner = "api" ∧ l.files.find? "g" = some r ∧
      "g" ∈ l.filesOf ["api"] := by
  obtain ⟨hopen, hexit, hcheck⟩ := recordedHost_run
  obtain ⟨stored, current, h₂, scanned, l, d₁, hrun, hkeeps, -⟩ :=
    lockUpdate_keeps hopen (List.cons_ne_nil _ _) hexit
  have hfacts := of_goesBy hcheck hrun
  simp only [Bool.and_eq_true, beq_iff_eq] at hfacts
  obtain ⟨⟨⟨⟨⟨⟨hunresolved, -⟩, hg⟩, -⟩, -⟩, hunscanned⟩, -⟩ := hfacts
  obtain ⟨r, hr, howner⟩ := exists_of_ownerOf hg
  have hstored := (Lockfile.of_loadOrCreate hrun.opens).1.files
  have hof : "g" ∈ stored.filesOf ["api"] :=
    (Lockfile.mem_filesOf hstored).mpr ⟨nofun, r, hr, .inr (by simp [howner])⟩
  obtain ⟨⟨r', hr', hrel⟩, hof'⟩ := hkeeps.kept ["api"] (by simp [hunresolved]) "g" hof r hr
    (by simp [howner]) (find?_of_ownerOf_none hunscanned)
  exact ⟨_, stored, l, r, hopen, hexit, hr, howner, hrel.eq ▸ hr', hof'⟩

/-- **An update may drop or replace what a plan takes for files of unresolved sources**: the
    record of a file without an owner, and that of a file that lies in the output folder of a
    resolved source now. -/
theorem lockUpdate_drops_files :
    ∃ s stored current h₂ scanned l d r,
      Gives (openSettings configPath) recordedHost s recordedHost ∧
      UpdateRun s (reading recordedHost) configPath (lockfilePath s none) (some listPath)
        (afterReading recordedHost) stored current h₂ scanned l d ∧
      (ending ((lockUpdate configPath none (some listPath)).run.run recordedHost).1).exitCode = 0 ∧
      (∀ x ∈ ["api"], x ∈ unresolvedSources s current) ∧
      ("f" ∈ stored.filesOf ["api"] ∧ l.files.find? "f" = none) ∧
      "out/x" ∈ stored.filesOf ["api"] ∧ stored.files.find? "out/x" = some r ∧
      r.owner = "api" ∧ l.files.find? "out/x" ≠ some r := by
  obtain ⟨hopen, hexit, hcheck⟩ := recordedHost_run
  obtain ⟨stored, current, h₂, scanned, l, hrun⟩ :=
    exists_updateRun hopen (List.cons_ne_nil _ _) hexit
  have hfacts := of_goesBy hcheck hrun
  simp only [Bool.and_eq_true, beq_iff_eq] at hfacts
  obtain ⟨⟨⟨⟨⟨⟨hunresolved, hf⟩, -⟩, hx⟩, hunscanned⟩, -⟩, hscanned⟩ := hfacts
  have hstored := (Lockfile.of_loadOrCreate hrun.opens).1.files
  obtain ⟨ownerless, hownerless, hnobody⟩ := exists_of_ownerOf hf
  obtain ⟨r, hr, howner⟩ := exists_of_ownerOf hx
  obtain ⟨r', hr', howner'⟩ := exists_of_ownerOf hscanned
  have hl : ∀ path, l.files.find? path = (scanned.find? path).or
      ((stored.files.find? path).filter fun r =>
        (unresolvedSources recordedSettings current).contains r.owner) := by
    obtain ⟨⟨totalMillis, -, rfl⟩, -⟩ := hrun.written
    exact find?_updatedFiles hstored _
  refine ⟨_, stored, current, h₂, scanned, l, _, r, hopen, hrun, hexit, by simp [hunresolved],
    ⟨?_, ?_⟩, ?_, hr, howner, ?_⟩
  · exact (Lockfile.mem_filesOf hstored).mpr ⟨nofun, ownerless, hownerless, .inl hnobody⟩
  · rw [hl, find?_of_ownerOf_none hunscanned, hownerless, hunresolved]
    simp [hnobody]
  · exact (Lockfile.mem_filesOf hstored).mpr ⟨nofun, r, hr, .inr (by simp [howner])⟩
  · rw [hl, hr']
    rintro ⟨⟩
    rw [howner] at howner'
    exact absurd howner' (by decide)

end recorded

end Command

end Regen
