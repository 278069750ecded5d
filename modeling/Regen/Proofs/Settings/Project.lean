import Regen.Proofs.Lockfile.Load
import Regen.Proofs.Settings.Layers

/-! # What only a project sets

    The version, the folder of the output and the sources are the project's own.  The file for all
    projects may not set the sections that decide them, a merge carries every other section past
    them, and the folders of the sources follow from nothing else.  So two loads that differ in the
    file for all projects alone agree on all three. -/

namespace Regen

open Lockfile

/-- The part of the settings that only a project sets. -/
def Settings.projectPart (s : Settings) : String × String × List Source :=
  (s.version, s.basePath, s.sources)

/-- The file that a project's settings are in: the one that was asked for by name, or the one in the
    project's folder. -/
abbrev projectFile (folder : Path) (named : Option Path) : Path :=
  named.getD (folder / Path.ofText settingsName)

/-- The sections that only a project may set. -/
def projectSections : List String := ["version", "output", "sources"]

/-! ## Sections -/

/-- A file without sections of projects has none of them. -/
theorem get?_of_projectSection? {es : Entries} (h : projectSection? es = none) {name : String}
    (hname : name ∈ projectSections) : es.get? name = none := by
  have hrefused : ∀ name ∈ projectSections,
      isOneOf (.text name) knownSections && !isOneOf (.text name) sharedSections := by decide
  apply Entries.get?_eq_none_of_forall
  rintro e he hkey
  have hnone := List.find?_eq_none.mp h e.1 (List.mem_map_of_mem he)
  rw [hkey] at hnone
  exact hnone (hrefused name hname)

namespace Settings

/-- **What a merge has of the project's sections** is what the project's file has of them. -/
theorem get?_merged {global project : Entries} (hglobal : (Value.map global none).Tidy)
    (hproject : (Value.map project none).Tidy) (h : projectSection? global = none) {name : String}
    (hname : name ∈ projectSections) :
    (mergeEntries (mergeEntries [] global) project).get? name = project.get? name := by
  have hbase : (mergeEntries [] global).get? name = none := by
    rw [Entries.get?_mergeEntries hglobal.entries.1, get?_of_projectSection? h hname]
    rfl
  rw [Entries.get?_mergeEntries hproject.entries.1, hbase]
  cases project.get? name with
  | none => rfl
  | some v => exact congrArg some (mergeValue_none v)

/-- The settings as far as the project's sections decide them. -/
def readProject (es : Entries) : Except Failure Settings := do
  let s ← onSection es "version" readVersion default
  let s ← onSection es "output" readOutput s
  onSection es "sources" readSources s

section parts
variable {es es' : Entries} {s s' : Settings}

theorem readProject_congr (h : ∀ name ∈ projectSections, es.get? name = es'.get? name) :
    readProject es = readProject es' := by
  have hsection : ∀ name ∈ projectSections, ∀ read,
      onSection es name read = onSection es' name read := by
    intro name hname read
    funext s
    rw [onSection, onSection, h name hname]
  rw [readProject, readProject, hsection "version" (by decide), hsection "output" (by decide),
    hsection "sources" (by decide)]

theorem projectPart_generation {v : Value} (h : readGeneration v s = .ok s') :
    s'.projectPart = s.projectPart := by
  obtain ⟨failFast, -, h⟩ := bind_eq_ok.mp h
  obtain ⟨workers, -, h⟩ := bind_eq_ok.mp h
  obtain ⟨maxWorkers, -, h⟩ := bind_eq_ok.mp h
  exact Except.ok.inj h ▸ rfl

theorem projectPart_lockfile {v : Value} (h : readLockfile v s = .ok s') :
    s'.projectPart = s.projectPart := by
  obtain ⟨path, -, h⟩ := bind_eq_ok.mp h
  obtain ⟨age, -, h⟩ := bind_eq_ok.mp h
  obtain ⟨maxAgeHours, -, h⟩ := bind_eq_ok.mp h
  exact Except.ok.inj h ▸ rfl

/-- **The other sections leave the project's part** as it was read. -/
theorem projectPart_of_document (h : ofDocument es = .ok s) :
    (readProject es).map projectPart = .ok s.projectPart := by
  unfold ofDocument at h
  obtain ⟨s₁, hversion, h⟩ := bind_eq_ok.mp h
  obtain ⟨s₂, houtput, h⟩ := bind_eq_ok.mp h
  obtain ⟨s₃, hsources, h⟩ := bind_eq_ok.mp h
  obtain ⟨s₄, hgeneration, hlockfile⟩ := bind_eq_ok.mp h
  have hread : readProject es = .ok s₃ :=
    bind_eq_ok.mpr ⟨s₁, hversion, bind_eq_ok.mpr ⟨s₂, houtput, hsources⟩⟩
  have hkept : s.projectPart = s₃.projectPart :=
    (onSection_keeps projectPart (fun _ _ _ => projectPart_lockfile) hlockfile).trans
      (onSection_keeps projectPart (fun _ _ _ => projectPart_generation) hgeneration)
  rw [hread, hkept]
  rfl

theorem projectPart_override {vars : Variables} (h : s.override vars = .ok s') :
    s'.projectPart = s.projectPart :=
  override_keeps projectPart (fun _ _ => rfl) (fun _ _ => rfl) h

end parts

/-! ## Loading -/

section load
variable {d d' : Disk} {vars vars' : Variables} {folder file shared shared' : Path}
  {named : Option Path} {w w' x x' : List String} {s s' : Settings} {es es' : Entries}

theorem fileExists_of_contentAt {content : Bytes} (h : contentAt d file = some content) :
    fileExists d file = .ok true := by
  rw [fileExists, (exists_of_contentAt h).1]
  rfl

/-- What is read of a settings file is what YAML makes of its bytes. -/
theorem readSettingsFile_of_contentAt {content : Bytes} (h : contentAt d file = some content) :
    readSettingsFile d file = match Yaml.ofBytes content with
      | .error .malformed => .error (.settings (.notYaml file.text))
      | .error f => .error f.failure
      | .ok v =>
        match Value.orElse (some v) (.map [] none) with
        | .map es _ => .ok es
        | _ => .error (.settings (.notMapping file.text)) := by
  rewrite [readSettingsFile, (exists_of_contentAt h).2]
  rfl

/-- A file that is read has content. -/
theorem exists_contentAt_of_read (h : readSettingsFile d file = .ok es) :
    ∃ content, contentAt d file = some content := by
  unfold readSettingsFile at h
  split at h
  · cases h
  · cases h
  · next v hload =>
    unfold Yaml.load at hload
    split at hload
    · cases hload
    · next hnull =>
      split at hload
      · cases hload
      · next content changed hfile =>
        refine ⟨content, ?_⟩
        rw [contentAt, if_neg hnull, hfile]
        rfl

/-- **The content of a file decides what it holds.** -/
theorem FileHolds.eq_of_contentAt (hsame : contentAt d file = contentAt d' file)
    (h : FileHolds d file es) (h' : FileHolds d' file es') : es = es' := by
  -- Where one of the disks has the file, the other one has the same bytes to read.
  have hthere : ∀ {d d' : Disk} {es es' : Entries}, contentAt d file = contentAt d' file →
      readSettingsFile d file = .ok es → FileHolds d' file es' → es = es' := by
    intro d d' es es' hsame hread h'
    obtain ⟨content, hcontent⟩ := exists_contentAt_of_read hread
    have hcontent' := hsame.symm.trans hcontent
    rcases h' with ⟨-, hread'⟩ | ⟨habsent, -⟩
    · rw [readSettingsFile_of_contentAt hcontent] at hread
      rw [readSettingsFile_of_contentAt hcontent', hread] at hread'
      exact Except.ok.inj hread'
    · rw [fileExists_of_contentAt hcontent'] at habsent
      cases habsent
  rcases h with ⟨hexists, hread⟩ | ⟨hexists, rfl⟩
  · exact hthere hsame hread h'
  · rcases h' with ⟨hexists', hread'⟩ | ⟨-, rfl⟩
    · exact (hthere hsame.symm hread' (.inr ⟨hexists, rfl⟩)).symm
    · rfl

/-- **The project's part comes from the project's file** alone. -/
theorem projectPart_of_load (h : Gives (load d vars folder named shared) w s w') :
    ∃ project, FileHolds d (projectFile folder named) project ∧
      (readProject project).map projectPart = .ok s.projectPart := by
  unfold load at h
  obtain ⟨base, w₁, hshared, h⟩ := gives_bind.mp h
  obtain ⟨es, w₂, hproject, h⟩ := gives_bind.mp h
  obtain ⟨read, w₃, hread, h⟩ := gives_bind.mp h
  obtain ⟨_, w₄, -, hvars⟩ := gives_bind.mp h
  obtain ⟨global, hglobal, hnone, rfl⟩ := sharedEntries_gives hshared
  obtain ⟨project, hheld, rfl⟩ := projectEntries_gives hproject
  have hpart := projectPart_of_document (Reading.gives_ofExcept.mp hread).1
  rw [readProject_congr fun name hname =>
      get?_merged (tidy_of_fileHolds hglobal) (tidy_of_fileHolds hheld) hnone hname,
    ← projectPart_override (Reading.gives_ofExcept.mp hvars).1] at hpart
  exact ⟨project, hheld, hpart⟩

/-- **The file for all projects does not influence what only a project sets**: two loads of one
    project's file agree on the version, the output, the sources and what these depend on. -/
theorem load_ignores_shared
    (hsame : contentAt d (projectFile folder named) = contentAt d' (projectFile folder named))
    (h : Gives (load d vars folder named shared) w s x)
    (h' : Gives (load d' vars' folder named shared') w' s' x') :
    s.version = s'.version ∧ s.basePath = s'.basePath ∧ s.sources = s'.sources ∧
      s.dependencies = s'.dependencies := by
  obtain ⟨project, hheld, hpart⟩ := projectPart_of_load h
  obtain ⟨project', hheld', hpart'⟩ := projectPart_of_load h'
  obtain rfl := hheld.eq_of_contentAt hsame hheld'
  have hparts : s.projectPart = s'.projectPart := Except.ok.inj (hpart.symm.trans hpart')
  simp only [projectPart, Prod.mk.injEq] at hparts
  obtain ⟨hversion, hbase, hsources⟩ := hparts
  exact ⟨hversion, hbase, hsources, by rw [dependencies, dependencies, hsources]⟩

end load

/-- A project with a source that leaves its output folder open. -/
def openProject : String := "output: {base_path: out}\nsources: [{name: a, type: crd, git: {url: b}}]"

/-- A project's file alone, without a file for all projects. -/
def aloneDisk (content : Bytes) : Disk := ⟨[([settingsName], .file content 0)], []⟩

/-- The project beside a file for all projects that sets something, and something unknown. -/
def besideDisk : Disk :=
  layeredDisk "generation: {fail_fast: true}\nextra:" openProject

theorem load_ignores_shared_of_open :
    ∃ s s' x x', Gives (loadLayered (aloneDisk openProject.toUTF8.toList)) [] s x ∧ Gives (loadLayered besideDisk) [] s' x' ∧
      s.failFast ≠ s'.failFast ∧ s.sources.map (·.outputPath) = ["out/a"] ∧
      s.version = s'.version ∧ s.basePath = s'.basePath ∧ s.sources = s'.sources ∧
      s.dependencies = s'.dependencies := by
  obtain ⟨s, hrun, hcheck⟩ := exists_ok_of_any (show
    ((loadLayered (aloneDisk openProject.toUTF8.toList)).run.run []).1.toOption.any fun s =>
      s.failFast == false && s.sources.map (·.outputPath) == ["out/a"] by decide +kernel)
  obtain ⟨s', hrun', hcheck'⟩ := exists_ok_of_any (show
    ((loadLayered besideDisk).run.run []).1.toOption.any fun s => s.failFast == true by
      decide +kernel)
  simp only [Bool.and_eq_true, beq_iff_eq] at hcheck hcheck'
  have hgives := gives_of_fst hrun
  have hgives' := gives_of_fst hrun'
  have hsame : contentAt (aloneDisk openProject.toUTF8.toList) (projectFile ⟨0, []⟩ none) =
      contentAt besideDisk (projectFile ⟨0, []⟩ none) := by decide +kernel
  refine ⟨s, s', _, _, hgives, hgives', ?_, hcheck.2, load_ignores_shared hsame hgives hgives'⟩
  rw [hcheck.1, hcheck']
  exact Bool.false_ne_true

end Settings

end Regen
