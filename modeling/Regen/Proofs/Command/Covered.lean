import Regen.Proofs.Command.Kept
import Regen.Proofs.Source.Owner

/-! # Files that a plan covers

    A plan after an update lists the files of the changed sources, and a file has one owner: the
    last source in whose output folder the update found it.  So a change of a source brings its
    files up to date, except those that a source behind it has too. -/

namespace Regen

namespace Lockfile

/-- A plan lists a file with an owner as soon as the owner is changed. -/
theorem mem_files_planWith {m : Lockfile} (hm : m.files.names.Nodup) {path : String}
    {r : FileRecord} (hr : m.files.find? path = some r) (howner : r.owner ≠ "") (g : Graph)
    (changed : List String) : path ∈ (m.planWith g changed).files ↔ r.owner ∈ changed := by
  rw [planWith]
  dsimp only
  rw [mem_filesOf hm]
  constructor
  · rintro ⟨-, r', hr', hof⟩
    obtain rfl := Option.some.inj (hr.symm.trans hr')
    exact Text.mem_sortedDistinct.mp (hof.resolve_left howner)
  · intro hchanged
    have hmem := Text.mem_sortedDistinct.mpr hchanged
    exact ⟨List.ne_nil_of_mem hmem, r, hr, .inr hmem⟩

end Lockfile

namespace Command

section work
variable {s : Settings} {m : Lockfile} {current : Ledger String} {force : Bool} {w : Work}

/-- The work lists a file with an owner as soon as the owner is dirty. -/
theorem mem_files_workOf (hm : m.files.names.Nodup) (hcurrent : Current s current)
    (hw : workOf s m current force = .ok w) {path : String} {r : FileRecord}
    (hr : m.files.find? path = some r) (howner : r.owner ≠ "") :
    path ∈ w.plan.files ↔ Dirty m s current r.owner := by
  obtain ⟨ordered, -, hw⟩ := bind_eq_ok.mp hw
  obtain rfl := Except.ok.inj hw
  have hfiles := files_withDependencies m s
  rw [← mem_changed_iff_dirty hcurrent (sources_withDependencies m s)]
  exact Lockfile.mem_files_planWith (by rw [hfiles]; exact hm) (by rw [hfiles]; exact hr) howner _ _

end work

/-! ## Owners in the lockfile -/

/-- The folder that scanned files are named from. -/
def scanBase (h : Host) (config : Path) : Except Failure Path := do
  resolvePath h.disk (← resolvePath h.disk config).parent

/-- **What plans cover by a lockfile**, for the files that sources had on a host: a file belongs to
    the last source that had it, and it is listed if and only if that source is changed. -/
structure Covers (h : Host) (base : Path) (s : Settings) (m : Lockfile) : Prop where
  owned : ∀ x ∈ s.sources, ∀ key, HasFile h base x key → ∃ y, LastWith h base s.sources y key
  planned : ∀ y key, LastWith h base s.sources y key → ∀ g changed,
    key ∈ (m.planWith g changed).files ↔ y.name ∈ changed
  worked : ∀ y key, LastWith h base s.sources y key → ∀ current force w, Current s current →
    workOf s m current force = .ok w → (key ∈ w.plan.files ↔ Dirty m s current y.name)

section owners
variable {h h₁ h₂ : Host} {s : Settings} {config p base : Path}
  {lockfile fingerprints : Option Path} {started : Value} {stored l m : Lockfile}
  {current : Ledger String} {scanned : Ledger FileRecord} {d : Disk}

theorem exists_scanBase (hscan : scanResolved h config s current = .ok scanned) :
    ∃ base, scanBase h config = .ok base ∧
      scanFrom h base [] (resolvedSources s current) = .ok scanned := by
  obtain ⟨file, hfile, hscan⟩ := bind_eq_ok.mp hscan
  obtain ⟨base, hbase, hscan⟩ := bind_eq_ok.mp hscan
  exact ⟨base, bind_eq_ok.mpr ⟨file, hfile, hbase⟩, hscan⟩

theorem resolvedSources_of_all (hall : unresolvedSources s current = []) :
    resolvedSources s current = s.sources := by
  refine List.filter_eq_self.mpr fun x hx => ?_
  by_contra hnone
  have hmem : x.name ∈ unresolvedSources s current := by
    refine mem_unresolvedSources.mpr ⟨List.mem_map_of_mem hx, ?_⟩
    simpa [Ledger.has] using hnone
  rw [hall] at hmem
  cases hmem

/-- What was scanned of all sources says who has which file last. -/
theorem owner_of_scanned (hscan : scanFrom h base [] s.sources = .ok scanned) {y : Source}
    {key : String} (hlast : LastWith h base s.sources y key) :
    ∃ r, scanned.find? key = some r ∧ r.owner = y.name := by
  rcases find?_scanFrom hscan key with ⟨z, p, hz, -, -, r, hr, hfound⟩ | ⟨hnone, -⟩
  · rw [hlast.unique hz]
    exact ⟨r, hfound, owner_of_checksum hr⟩
  · exact absurd hlast.hasFile (hnone y hlast.mem)

/-- A lockfile with the records of a scan lets plans cover what was scanned. -/
theorem covers_of_scan (hs : s.Accepted) (hscan : scanFrom h base [] s.sources = .ok scanned)
    (hm : m.files.names.Nodup)
    (hfiles : ∀ key r, scanned.find? key = some r →
      ∃ r', m.files.find? key = some r' ∧ r'.owner = r.owner) : Covers h base s m := by
  have howner : ∀ {y : Source} {key : String}, LastWith h base s.sources y key →
      ∃ r, m.files.find? key = some r ∧ r.owner = y.name ∧ r.owner ≠ "" := by
    intro y key hlast
    obtain ⟨r, hr, hy⟩ := owner_of_scanned hscan hlast
    obtain ⟨r', hr', hsame⟩ := hfiles key r hr
    refine ⟨r', hr', hsame.trans hy, ?_⟩
    rw [hsame, hy]
    exact ne_empty_of_isPlainName (hs.plain y hlast.mem)
  refine ⟨fun x hx key hfile => exists_lastWith ⟨x, hx, hfile⟩, ?_, ?_⟩
  · intro y key hlast g changed
    obtain ⟨r, hr, hy, hsome⟩ := howner hlast
    rw [← hy]
    exact Lockfile.mem_files_planWith hm hr hsome g changed
  · intro y key hlast current force w hcurrent hw
    obtain ⟨r, hr, hy, hsome⟩ := howner hlast
    rw [← hy]
    exact mem_files_workOf hm hcurrent hw hr hsome

/-- **A file is covered by the changes of its last source.**  After an update that resolved every
    source, each file that could be read below a source's output folder belongs to the last source
    that had it, and a plan lists the file if and only if that source is changed.  So a change of
    a source covers all files that no source behind it has too, by the lockfile that was saved and
    by the one that is read wherever a path holds what was saved, if YAML gives it back. -/
theorem lockUpdate_covers (hopen : Gives (openSettings config) h s h₁) (hsources : s.sources ≠ [])
    (hexit : (ending ((lockUpdate config lockfile fingerprints).run.run h).1).exitCode = 0) :
    ∃ stored current h₂ scanned l base,
      UpdateRun s (reading h) config (lockfilePath s lockfile) fingerprints (afterReading h) stored
        current h₂ scanned l ((lockUpdate config lockfile fingerprints).run.run h).2.disk ∧
      scanBase h₂ config = .ok base ∧
      (unresolvedSources s current = [] → Covers h₂ base s l ∧
        (l.GivenBack Value.Alike → ∃ m, Covers h₂ base s m ∧
          ∀ d p, Lockfile.contentAt d p = l.encode.toOption → Lockfile.load d p = .ok m)) := by
  have hs := accepted_of_open hopen
  obtain ⟨stored, current, h₂, scanned, l, hrun⟩ := exists_updateRun hopen hsources hexit
  obtain ⟨base, hbase, hscan⟩ := exists_scanBase hrun.scans
  refine ⟨stored, current, h₂, scanned, l, base, hrun, hbase, fun hall => ?_⟩
  rw [resolvedSources_of_all hall] at hscan
  obtain ⟨⟨totalMillis, -, hl⟩, -, content, -, hencode, -⟩ := hrun.written
  have hstored := (Lockfile.of_loadOrCreate hrun.opens).1
  constructor
  · have hwell : l.WellFormed :=
      hl ▸ wellFormed_updatedLockfile hstored (scanned_of_scanResolved hrun.scans)
    refine covers_of_scan hs hscan hwell.files fun key r hr => ?_
    obtain ⟨r', hr', hrel⟩ := hrun.keepsFiles.scanned key r hr
    exact ⟨r', hr', hrel.owner⟩
  · intro hback
    obtain ⟨m, hm, hload⟩ := hrun.exists_updated Value.readsBack_alike
      (nodup_sourceNames_of_open hopen) hback hencode
    refine ⟨m, covers_of_scan hs hscan hm.files.1 fun key r hr => ?_, fun d p hcontent => ?_⟩
    · obtain ⟨r', hr', hrel⟩ := (hm.keepsFiles hstored.files).scanned key r hr
      exact ⟨r', hr', hrel.owner⟩
    · rw [hencode] at hcontent
      exact hload hcontent

end owners

/-! ### Two sources with one folder -/

section together

/-- An interface and an application that are generated into the same folder. -/
def together : String := "sources:
- &x
  type: crd
  name: api
  git:
    url: https://a.b/c
  output_path: out
- <<: *x
  name: app
"

/-- A machine with these settings and a file in the folder. -/
def togetherHost : Host :=
  { twoSourcesHost with
    disk := ⟨[(configPath.parts, .file together.toUTF8.toList 0),
      (listPath.parts, .file "api: x\napp: x".toUTF8.toList 0),
      (["out"], .folder), (["out", "f"], .file [] 0)], []⟩ }

/-- Has a source this file? -/
def findsFile (h : Host) (x : Source) : Bool :=
  (scanBase h configPath).toOption.any fun base =>
    (scanFrom h base [] [x]).toOption.any (·.has "out/f")

/-- Are there two sources that both have the file, and are they resolved? -/
def goTogether (s : Settings) : Bool :=
  match s.sources with
  | [x, y] => x.name == "api" && y.name == "app" && goesBy s togetherHost fun _ current h _ =>
      unresolvedSources s current == [] && findsFile h x && findsFile h y
  | _ => false

theorem togetherHost_run :
    ∃ s x y, Gives (openSettings configPath) togetherHost s togetherHost ∧ s.sources = [x, y] ∧
      x.name = "api" ∧ y.name = "app" ∧
      (ending ((lockUpdate configPath none (some listPath)).run.run togetherHost).1).exitCode = 0 ∧
      goesBy s togetherHost fun _ current h _ =>
        unresolvedSources s current == [] && findsFile h x && findsFile h y := by
  obtain ⟨hopened, hends⟩ :
      ((openSettings configPath).run.run togetherHost).1.toOption.any goTogether ∧
      endsWell ((lockUpdate configPath none (some listPath)).run.run togetherHost)
        (fun _ => true) := by decide +kernel
  obtain ⟨s, hgives, hcheck⟩ := exists_opened hopened
  unfold goTogether at hcheck
  split at hcheck
  · next x y hsources =>
    simp only [Bool.and_eq_true, beq_iff_eq] at hcheck
    obtain ⟨⟨hx, hy⟩, hcheck⟩ := hcheck
    exact ⟨s, x, y, hgives, hsources, hx, hy, (of_endsWell hends).1, hcheck⟩
  · cases hcheck

theorem hasFile_of_findsFile {h : Host} {x : Source} {base : Path} (hfinds : findsFile h x)
    (hbase : scanBase h configPath = .ok base) : HasFile h base x "out/f" := by
  obtain ⟨base', hbase', hfinds⟩ := exists_ok_of_any hfinds
  obtain rfl := Except.ok.inj (hbase.symm.trans hbase')
  obtain ⟨files, hscan, hkey⟩ := exists_ok_of_any hfinds
  exact hasFile_of_scanFrom hscan hkey

/-- A change of the last source covers the file. -/
theorem lockUpdate_covers_of_two :
    ∃ (s : Settings) (l : Lockfile), Gives (openSettings configPath) togetherHost s togetherHost ∧
      (ending ((lockUpdate configPath none (some listPath)).run.run togetherHost).1).exitCode = 0 ∧
      ∀ g, "out/f" ∈ (l.planWith g ["app"]).files := by
  obtain ⟨s, x, y, hopen, hsources, -, hy, hexit, hcheck⟩ := togetherHost_run
  obtain ⟨stored, current, h₂, scanned, l, base, hrun, hbase, hcovers⟩ :=
    lockUpdate_covers hopen (by rw [hsources]; exact List.cons_ne_nil _ _) hexit
  have hfacts := of_goesBy hcheck hrun
  simp only [Bool.and_eq_true, beq_iff_eq] at hfacts
  obtain ⟨⟨hall, -⟩, hfinds⟩ := hfacts
  have hlast : LastWith h₂ base s.sources y "out/f" := by
    rw [hsources]
    exact .cons (.head (hasFile_of_findsFile hfinds hbase) fun _ hz => absurd hz List.not_mem_nil) x
  refine ⟨s, l, hopen, hexit, fun g => ?_⟩
  exact ((hcovers hall).1.planned y _ hlast g ["app"]).mpr (by simp [hy])

/-- **A change of a source may not cover a file below its output folder**: one that a source behind
    it has too. -/
theorem lockUpdate_misses_file :
    ∃ s x stored current h₂ scanned l base d,
      Gives (openSettings configPath) togetherHost s togetherHost ∧
      (ending ((lockUpdate configPath none (some listPath)).run.run togetherHost).1).exitCode = 0 ∧
      UpdateRun s (reading togetherHost) configPath (lockfilePath s none) (some listPath)
        (afterReading togetherHost) stored current h₂ scanned l d ∧
      scanBase h₂ configPath = .ok base ∧ unresolvedSources s current = [] ∧
      x ∈ s.sources ∧ HasFile h₂ base x "out/f" ∧
      ∀ g, "out/f" ∉ (l.planWith g [x.name]).files := by
  obtain ⟨s, x, y, hopen, hsources, hx, hy, hexit, hcheck⟩ := togetherHost_run
  obtain ⟨stored, current, h₂, scanned, l, hrun⟩ :=
    exists_updateRun hopen (by rw [hsources]; exact List.cons_ne_nil _ _) hexit
  obtain ⟨base, hbase, hscan⟩ := exists_scanBase hrun.scans
  have hfacts := of_goesBy hcheck hrun
  simp only [Bool.and_eq_true, beq_iff_eq] at hfacts
  obtain ⟨⟨hall, hxfinds⟩, hyfinds⟩ := hfacts
  have hlast : LastWith h₂ base s.sources y "out/f" := by
    rw [hsources]
    have hhere := hasFile_of_findsFile hyfinds hbase
    exact .cons (.head hhere fun _ hz => absurd hz List.not_mem_nil) x
  rw [resolvedSources_of_all hall] at hscan
  obtain ⟨r, hr, howner⟩ := owner_of_scanned hscan hlast
  obtain ⟨r', hr', hrel⟩ := hrun.keepsFiles.scanned _ r hr
  have hwell : l.files.names.Nodup := by
    obtain ⟨⟨totalMillis, -, rfl⟩, -⟩ := hrun.written
    exact (wellFormed_updatedLockfile (Lockfile.of_loadOrCreate hrun.opens).1
      (scanned_of_scanResolved hrun.scans)).files
  have happ : r'.owner = "app" := hrel.owner.trans (howner.trans hy)
  refine ⟨s, x, stored, current, h₂, scanned, l, base, _, hopen, hexit, hrun, hbase, hall,
    by rw [hsources]; exact List.mem_cons_self, hasFile_of_findsFile hxfinds hbase, fun g => ?_⟩
  rw [Lockfile.mem_files_planWith hwell hr' (by rw [happ]; decide), happ, hx]
  decide

end together

end Command

end Regen
