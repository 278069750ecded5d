import Regen.Proofs.Command.Update
import Regen.Proofs.Settings.Explained
import Regen.Proofs.Source.Asked

/-! # Settings at a path that does not exist

    A command is told where the settings are.  Where nothing is at that path, it does not go on
    without a project's file: it takes the file with the usual name in the path's folder, and only
    if that one does not exist either do the file for all projects and the variables decide alone.
    So the settings depend on three things besides the variables: whether the path exists, what the
    file with the usual name holds, and what the file for all projects holds. -/

namespace Regen

/-- The settings file with the usual name, in the folder of a path. -/
def standardFile (p : Path) : Path := p.parent / Path.ofText settingsName

/-- **Settings without a project's file**: the file for all projects over the defaults, and the
    variables over both. -/
def Settings.withoutProject (d : Disk) (vars : Variables) (shared : Path) : Reading Settings := do
  let es ← sharedEntries d shared
  Reading.ofExcept (settle es vars)

/-- Two disks have the same at a path: the same content, or none for the same reason. -/
structure Disk.AgreesAt (d d' : Disk) (p : Path) : Prop where
  exists_eq : d.exists? p = d'.exists? p
  content_eq : (d.fileAt p).map (·.1) = (d'.fileAt p).map (·.1)

/-- Two machines have the same settings for a path that does not exist on either. -/
structure Host.AgreesBeside (h h' : Host) (p : Path) : Prop where
  environment : h.environment = h'.environment
  sharedSettings : h.sharedSettings = h'.sharedSettings
  shared : h.disk.AgreesAt h'.disk h.sharedSettings
  standard : h.disk.AgreesAt h'.disk (standardFile p)

/-! ## Files that agree -/

section agrees
variable {d d' : Disk} {file folder shared : Path} {vars : Variables}

theorem Disk.AgreesAt.fileExists_eq (h : d.AgreesAt d' file) :
    fileExists d file = fileExists d' file := by
  rw [fileExists, fileExists, h.exists_eq]

theorem Disk.AgreesAt.load_eq (h : d.AgreesAt d' file) : Yaml.load d file = Yaml.load d' file := by
  have hcontent := h.content_eq
  unfold Yaml.load
  by_cases hnull : Disk.holdsNull file = true
  · rw [if_pos hnull, if_pos hnull]
  · rw [if_neg hnull, if_neg hnull]
    -- Only the times of change may differ, and they are not looked at.
    cases hd : d.fileAt file with
    | error f =>
      cases hd' : d'.fileAt file with
      | error f' =>
        rw [hd, hd'] at hcontent
        rw [Except.error.inj hcontent]
      | ok r =>
        rw [hd, hd'] at hcontent
        cases hcontent
    | ok r =>
      cases hd' : d'.fileAt file with
      | error f' =>
        rw [hd, hd'] at hcontent
        cases hcontent
      | ok r' =>
        rw [hd, hd'] at hcontent
        exact congrArg Yaml.ofBytes (Except.ok.inj hcontent)

theorem Disk.AgreesAt.readSettingsFile_eq (h : d.AgreesAt d' file) :
    readSettingsFile d file = readSettingsFile d' file := by
  rw [readSettingsFile, readSettingsFile, h.load_eq]

/-- **Loading looks at two files only.** -/
theorem load_eq_of_agreesAt (hshared : d.AgreesAt d' shared)
    (hproject : d.AgreesAt d' (folder / Path.ofText settingsName)) :
    Settings.load d vars folder none shared = Settings.load d' vars folder none shared := by
  have hread : sharedEntries d shared = sharedEntries d' shared := by
    rw [sharedEntries, sharedEntries, hshared.fileExists_eq, hshared.readSettingsFile_eq]
  have hmerge : ∀ base, projectEntries d base folder none = projectEntries d' base folder none := by
    intro base
    simp only [projectEntries, Option.getD_none, hproject.fileExists_eq,
      hproject.readSettingsFile_eq]
  simp only [Settings.load, hread, hmerge]

end agrees

/-! ## Loading what was not asked for by name -/

section load
variable {d : Disk} {vars : Variables} {folder shared : Path}

theorem ofExcept_bind {α β : Type} (r : Except Failure α) (f : α → Except Failure β) :
    Reading.ofExcept (r >>= f) = Reading.ofExcept r >>= fun x => Reading.ofExcept (f x) := by
  cases r with
  | error e => rfl
  | ok x => exact (pure_bind x fun x => Reading.ofExcept (f x)).symm

/-- Without the usual file nothing is merged. -/
theorem load_of_missing (h : fileExists d (folder / Path.ofText settingsName) = .ok false) :
    Settings.load d vars folder none shared = Settings.withoutProject d vars shared := by
  have hmerge : ∀ base, projectEntries d base folder none = pure base := by
    intro base
    rw [projectEntries, Option.getD_none, h]
    rfl
  simp only [Settings.load, Settings.withoutProject, Settings.settle, hmerge, pure_bind,
    ofExcept_bind]

/-- The usual file is loaded as if it was asked for by name, if it exists. -/
theorem load_of_there (h : fileExists d (folder / Path.ofText settingsName) = .ok true) :
    Settings.load d vars folder none shared =
      Settings.load d vars folder (some (folder / Path.ofText settingsName)) shared := by
  have hmerge : ∀ base, projectEntries d base folder none =
      projectEntries d base folder (some (folder / Path.ofText settingsName)) := by
    intro base
    rw [projectEntries, projectEntries, Option.getD_none, Option.getD_some, h]
    rfl
  simp only [Settings.load, hmerge]

/-- There are no settings if it cannot be told whether the usual file exists. -/
theorem not_gives_load {f : Failure} (h : fileExists d (folder / Path.ofText settingsName) = .error f)
    {w w' : List String} {s : Settings} :
    ¬Gives (Settings.load d vars folder none shared) w s w' := by
  intro hload
  unfold Settings.load at hload
  obtain ⟨base, w₁, -, hload⟩ := gives_bind.mp hload
  obtain ⟨es, w₂, hproject, -⟩ := gives_bind.mp hload
  obtain ⟨project, hheld, -⟩ := Settings.projectEntries_gives hproject
  rcases hheld with ⟨hthere, -⟩ | ⟨habsent, -⟩
  · cases hthere.symm.trans h
  · cases habsent.symm.trans h

end load

namespace Command

variable {h : Host} {p : Path}

/-- What a command makes of settings that were loaded: it says what is wrong with them. -/
def explainSettings (r : Except Failure Settings) : Command Settings :=
  match r with
  | .ok s => pure s
  | .error (.settings cause) => sayAndExit (Message.settings cause.message) 1
  | .error f => throw (Stop.failure f)

/-- What a command opens. -/
theorem run_openSettings {found : Bool} (hfound : fileExists h.disk p = .ok found) :
    (openSettings p).run.run h =
      (explainSettings ((Settings.load h.disk h.environment p.parent
        (if found then some p else none) h.sharedSettings).run.run []).1).run.run h := by
  have hload : Gives (loadSettings p.parent (if found then some p else none)) h
      ((Settings.load h.disk h.environment p.parent (if found then some p else none)
        h.sharedSettings).run.run []).1 h :=
    gives_bind.mpr ⟨h, h, gives_get.mpr ⟨rfl, rfl⟩, gives_pure.mpr ⟨rfl, rfl⟩⟩
  unfold openSettings
  rw [(gives_pathExists.mpr ⟨hfound, rfl⟩).run_bind, hload.run_bind]
  generalize ((Settings.load h.disk h.environment p.parent (if found then some p else none)
    h.sharedSettings).run.run []).1 = r
  rfl

theorem parent_standardFile (p : Path) : (standardFile p).parent = p.parent := by
  have hparts : (standardFile p).parts = p.parent.parts ++ [settingsName] := rfl
  rw [Path.parent, hparts, List.dropLast_concat]
  rfl

/-- **Settings at a path that does not exist** are those of the usual file in its folder, if that
    exists; if not, they are the settings without a project's file; and if it cannot be told, there
    are none.  Nothing else in the folder matters: machines that agree on the usual file and on the
    file for all projects have the same settings, or the same failure. -/
theorem openSettings_of_missing (hmissing : fileExists h.disk p = .ok false) :
    (fileExists h.disk (standardFile p) = .ok true →
      (openSettings p).run.run h = (openSettings (standardFile p)).run.run h) ∧
    (fileExists h.disk (standardFile p) = .ok false →
      (openSettings p).run.run h = (explainSettings ((Settings.withoutProject h.disk h.environment
        h.sharedSettings).run.run []).1).run.run h) ∧
    (∀ f, fileExists h.disk (standardFile p) = .error f →
      ∀ s h₁, ¬Gives (openSettings p) h s h₁) ∧
    ∀ h' : Host, fileExists h'.disk p = .ok false → h.AgreesBeside h' p →
      ∃ r, (openSettings p).run.run h = (explainSettings r).run.run h ∧
        (openSettings p).run.run h' = (explainSettings r).run.run h' := by
  have hrun := run_openSettings hmissing
  rw [if_neg Bool.false_ne_true] at hrun
  constructor
  · intro hthere
    have hstandard := run_openSettings hthere
    rw [if_pos rfl, parent_standardFile] at hstandard
    rw [hrun, hstandard, load_of_there hthere]
    rfl
  constructor
  · intro habsent
    rw [hrun, load_of_missing habsent]
  constructor
  · intro f hfails s h₁ hgives
    obtain ⟨-, found, hfound, hload⟩ := gives_openSettings.mp hgives
    obtain rfl := Except.ok.inj (hfound.symm.trans hmissing)
    exact not_gives_load hfails (gives_of_fst hload)
  · intro h' hmissing' hagrees
    have hrun' := run_openSettings hmissing'
    rw [if_neg Bool.false_ne_true, ← hagrees.environment, ← hagrees.sharedSettings,
      ← load_eq_of_agreesAt hagrees.shared hagrees.standard] at hrun'
    exact ⟨_, hrun, hrun'⟩

/-! ### A path in a folder with settings -/

/-- A machine with settings under another name, where nobody looks for them. -/
def besideHost (entries : List (Place × Entry)) : Host :=
  answeringHost ((["other.yaml"], .file "lockfile: []".toUTF8.toList 0) :: entries) []

/-- The usual file, which keeps the lockfile at another path. -/
def movedLockfile : Place × Entry :=
  (configPath.parts, .file "lockfile: {path: other.lock}".toUTF8.toList 0)

/-- A path where nothing is. -/
def missingPath : Path := ⟨0, ["missing.yaml"]⟩

/-- The usual file is taken where it exists, and what else is in the folder never is. -/
theorem openSettings_of_missing_beside :
    fileExists (besideHost []).disk missingPath = .ok false ∧
    (openSettings missingPath).run.run (besideHost []) =
      (explainSettings ((Settings.withoutProject (besideHost []).disk ⟨none, none⟩
        ⟨1, ["shared"]⟩).run.run []).1).run.run (besideHost []) ∧
    (∃ r, (openSettings missingPath).run.run (besideHost []) =
        (explainSettings r).run.run (besideHost []) ∧
      (openSettings missingPath).run.run (answeringHost [] []) =
        (explainSettings r).run.run (answeringHost [] [])) ∧
    fileExists (besideHost [movedLockfile]).disk missingPath = .ok false ∧
    (openSettings missingPath).run.run (besideHost [movedLockfile]) =
      (openSettings configPath).run.run (besideHost [movedLockfile]) := by
  have hmissing : fileExists (besideHost []).disk missingPath = .ok false := by decide
  have hmissing' : fileExists (besideHost [movedLockfile]).disk missingPath = .ok false := by
    decide
  obtain ⟨-, habsent, -, htwo⟩ := openSettings_of_missing hmissing
  obtain ⟨hthere, -⟩ := openSettings_of_missing hmissing'
  refine ⟨hmissing, habsent (by decide), htwo _ (by decide) ?_, hmissing',
    hthere (by decide)⟩
  exact ⟨rfl, rfl, ⟨by decide, by decide⟩, ⟨by decide, by decide⟩⟩

/-- **A path that does not exist does not yield the defaults**: the usual file beside it says where
    the lockfile is. -/
theorem openSettings_takes_other_file :
    fileExists (besideHost [movedLockfile]).disk missingPath = .ok false ∧
    ∃ s t, Gives (openSettings missingPath) (besideHost [movedLockfile]) s
        (besideHost [movedLockfile]) ∧
      ((Settings.withoutProject (besideHost [movedLockfile]).disk ⟨none, none⟩
        ⟨1, ["shared"]⟩).run.run []).1 = .ok t ∧
      s.lockfilePath = "other.lock" ∧ t.lockfilePath = "gensonnet.lock" := by
  have hmissing : fileExists (besideHost [movedLockfile]).disk missingPath = .ok false := by
    decide
  have hopened : ((openSettings missingPath).run.run (besideHost [movedLockfile])).1.toOption.any
      fun s => s.lockfilePath == "other.lock" := by decide +kernel
  have hloaded : ((Settings.withoutProject (besideHost [movedLockfile]).disk ⟨none, none⟩
      ⟨1, ["shared"]⟩).run.run []).1.toOption.any
      fun t => t.lockfilePath == "gensonnet.lock" := by decide
  obtain ⟨s, hopen, hs⟩ := exists_opened hopened
  obtain ⟨t, hload, ht⟩ := exists_ok_of_any hloaded
  exact ⟨hmissing, s, t, hopen, hload, eq_of_beq hs, eq_of_beq ht⟩

end Command

end Regen
