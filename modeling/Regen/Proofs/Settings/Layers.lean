import Regen.Proofs.Settings.Accepted
import Regen.Proofs.Yaml.Built

/-! # Layers of settings

    How generation behaves and where the lockfile is follows from four layers: what holds where
    nothing is set, the file for all projects, the project's file, and the variables of the
    environment.  The two files are merged section by section, and a section that both have key by
    key.  So a key that only one of them gives keeps its value, and the project's value wins where
    both give it, with two exceptions: a project's section that is no mapping hides what the file
    for all projects sets, and mappings under one key are merged in turn. -/

namespace Regen

/-! ## What two files give for a field -/

/-- What a section gives for a key: it is a mapping that has the key. -/
def Value.field? (v : Option Value) (key : String) : Option Value :=
  match v with
  | some (.map fields _) => Entries.get? fields key
  | _ => none

theorem Value.field?_of_other {v : Value} (h : v.isMapping = false) (key : String) :
    field? (some v) key = none := by
  cases v with
  | map => cases h
  | _ => rfl

/-- **A key of merged sections**: the new section has its own value merged into the old one, or it
    leaves the old one. -/
theorem field?_mergeValue {v : Value} (hv : v.Tidy) (hmapping : v.isMapping) (old : Option Value)
    (key : String) :
    Value.field? (some (mergeValue old v)) key =
      ((Value.field? (some v) key).map (mergeValue (Value.field? old key))).or
        (Value.field? old key) := by
  cases v with
  | map fields label =>
    by_cases hold : ∀ w ∈ old, w.isMapping = false
    · -- An old section that is no mapping has no key.
      have hnone : Value.field? old key = none := by
        cases old with
        | none => rfl
        | some w => exact Value.field?_of_other (hold w rfl) key
      rw [mergeValue_of_old hold, hnone]
      cases Value.field? (some (.map fields label)) key with
      | none => rfl
      | some w => exact congrArg some (mergeValue_none w).symm
    · push Not at hold
      obtain ⟨w, rfl, hw⟩ := hold
      cases w with
      | map base label' => exact Entries.get?_mergeEntries hv.entries.1 key
      | _ => exact absurd rfl hw
  | _ => cases hmapping

namespace Entries

/-- What the entries of a file give for a field of a section. -/
def given (es : Entries) (name key : String) : Option Value := Value.field? (es.get? name) key

/-- Is there a section that is no mapping? -/
def hasOtherSection (es : Entries) (name : String) : Bool := (es.get? name).any fun v => !v.isMapping

/-- What the higher of two files gives for a field. -/
def highest (shared project : Entries) (name key : String) : Option Value :=
  (project.given name key).or (shared.given name key)

/-- **What two files give for a field together**: the project's value, merged into the other one
    where both are mappings, or else the other one.  A project's section that is no mapping leaves
    nothing of the other file's section. -/
def layered (shared project : Entries) (name key : String) : Option Value :=
  if project.hasOtherSection name then none
  else ((project.given name key).map (mergeValue (shared.given name key))).or
    (shared.given name key)

section layers
variable {shared project : Entries} {name key : String}

/-- Where nothing is hidden and nothing is merged within a field, the higher file decides. -/
theorem layered_eq_highest (hsection : project.hasOtherSection name = false)
    (hfield : ∀ v ∈ project.given name key, ∀ w ∈ shared.given name key,
      v.isMapping = false ∨ w.isMapping = false) :
    layered shared project name key = highest shared project name key := by
  rw [layered, hsection, if_neg Bool.false_ne_true, highest]
  cases hp : project.given name key with
  | none => rfl
  | some v =>
    rw [hp] at hfield
    have hmerged : mergeValue (shared.given name key) v = v := by
      cases hv : v.isMapping with
      | false => exact mergeValue_of_other hv _
      | true =>
        apply mergeValue_of_old
        intro w hw
        exact (hfield v rfl w hw).resolve_left (by rw [hv]; exact Bool.true_eq_false.mp)
    exact congrArg some hmerged

/-- **Merged files give the layered fields.** -/
theorem given_mergeEntries {label : Label} (hproject : (Value.map project label).Tidy) :
    (mergeEntries shared project).given name key = layered shared project name key := by
  obtain ⟨hdistinct, hvalues⟩ := hproject.entries
  have hmerged := @get?_mergeEntries shared project hdistinct name
  have hlayered : layered shared project name key =
      if (project.get? name).any fun v => !v.isMapping then none
      else ((Value.field? (project.get? name) key).map
        (mergeValue (Value.field? (shared.get? name) key))).or
          (Value.field? (shared.get? name) key) := rfl
  rw [given, hmerged, hlayered]
  cases hsection : project.get? name with
  | none => rfl
  | some v =>
    obtain ⟨e, hmem, he⟩ := exists_mem_of_get? hsection
    cases hv : v.isMapping with
    | true =>
      rw [Option.any_some, hv, Bool.not_true, if_neg Bool.false_ne_true]
      exact field?_mergeValue (he ▸ hvalues e hmem) hv _ key
    | false =>
      rw [Option.any_some, hv, Bool.not_false, if_pos rfl]
      exact (congrArg (fun w => Value.field? (some w) key) (mergeValue_of_other hv _)).trans
        (Value.field?_of_other hv key)

/-- A merge into nothing gives what was merged. -/
theorem given_mergeEntries_nil {label : Label} (hshared : (Value.map shared label).Tidy) :
    (mergeEntries [] shared).given name key = shared.given name key := by
  have hmerged := @get?_mergeEntries [] shared hshared.entries.1 name
  rw [given, hmerged, given]
  cases shared.get? name with
  | none => rfl
  | some v =>
    show Value.field? (some (mergeValue none v)) key = _
    rw [mergeValue_none]

end layers

end Entries

/-! ## Settings of the layers -/

namespace Settings

/-- A variable that is set to something. -/
def whenSet (v : Option String) : Option String := v.filter fun s => s != ""

theorem whenSet_eq (v : Option String) :
    whenSet v = if v.getD "" = "" then none else some (v.getD "") := by
  cases v with
  | none => rfl
  | some s => by_cases hs : s = "" <;> simp [whenSet, hs]

/-- **Settings of the layers**: a field is what a variable says, or else what is given for it,
    converted, or else the default. -/
structure FromLayers (field : String → String → Option Value) (vars : Variables) (s : Settings) :
    Prop where
  failFast :
    s.failFast = ((field "generation" "fail_fast").getD (.bool default.failFast)).isTruthy
  maxWorkers :
    ((field "generation" "max_workers").getD (.int default.maxWorkers)).toInt = .ok s.maxWorkers
  lockfilePath :
    (whenSet vars.lockfile).elim
      ((field "lockfile" "path").getD (.text default.lockfilePath)).toText .ok =
        .ok s.lockfilePath
  maxAgeHours :
    (whenSet vars.maxAgeHours).elim
      ((field "lockfile" "max_age_hours").getD (.int default.maxAgeHours)).toInt
      (Number.readInt 10) = .ok s.maxAgeHours

section document
variable {es : Entries} {v : Value} {s s' : Settings} {name key : String}
  {read : Value → Settings → Except Failure Settings}

theorem onSection_eq_ok : onSection es name read s = .ok s' ↔
    (∃ v, es.get? name = some v ∧ read v s = .ok s') ∨ es.get? name = none ∧ s = s' := by
  unfold onSection
  cases es.get? name with
  | some v => simp
  | none => simp

theorem valueFailure_eq_ok {α : Type} {r : Except Fault α} {x : α} :
    valueFailure r = .ok x ↔ r = .ok x := by
  cases r <;> simp [valueFailure, Except.mapError]

/-- **A member of a section** is what it gives for the key: a section that holds nothing gives
    nothing. -/
theorem member?_sectionOf {w x : Option Value} (h : (sectionOf w).member? key = .ok x) :
    Value.field? w key = x := by
  unfold sectionOf Value.orElse at h
  split at h
  · next v =>
    split at h
    · cases v with
      | map => exact Except.ok.inj h
      | _ => cases h
    · -- What holds nothing stands for an empty mapping, and it gives nothing itself.
      next hempty =>
      obtain rfl : none = x := Except.ok.inj h
      cases v with
      | map fields =>
        cases fields with
        | nil => rfl
        | cons => exact absurd rfl hempty
      | _ => rfl
  · exact Except.ok.inj h

/-- **The section of how generation behaves** decides its two fields and keeps the others. -/
theorem generation_of_onSection (h : onSection es "generation" readGeneration s = .ok s') :
    s'.failFast = ((es.given "generation" "fail_fast").getD (.bool s.failFast)).isTruthy ∧
      ((es.given "generation" "max_workers").getD (.int s.maxWorkers)).toInt =
        .ok s'.maxWorkers ∧
      s'.lockfilePath = s.lockfilePath ∧ s'.maxAgeHours = s.maxAgeHours := by
  rcases onSection_eq_ok.mp h with ⟨v, hv, h⟩ | ⟨hnone, rfl⟩
  · obtain ⟨failFast, hfailFast, h⟩ := bind_eq_ok.mp h
    obtain ⟨workers, hworkers, h⟩ := bind_eq_ok.mp h
    obtain ⟨maxWorkers, hmaxWorkers, h⟩ := bind_eq_ok.mp h
    obtain rfl := Except.ok.inj h
    rw [Entries.given, Entries.given, hv, member?_sectionOf (valueFailure_eq_ok.mp hfailFast),
      member?_sectionOf (valueFailure_eq_ok.mp hworkers)]
    exact ⟨rfl, valueFailure_eq_ok.mp hmaxWorkers, rfl, rfl⟩
  · rw [Entries.given, Entries.given, hnone]
    exact ⟨rfl, rfl, rfl, rfl⟩

/-- **The section of the lockfile** decides its two fields and keeps the others. -/
theorem lockfile_of_onSection (h : onSection es "lockfile" readLockfile s = .ok s') :
    ((es.given "lockfile" "path").getD (.text s.lockfilePath)).toText = .ok s'.lockfilePath ∧
      ((es.given "lockfile" "max_age_hours").getD (.int s.maxAgeHours)).toInt =
        .ok s'.maxAgeHours ∧
      s'.failFast = s.failFast ∧ s'.maxWorkers = s.maxWorkers := by
  rcases onSection_eq_ok.mp h with ⟨v, hv, h⟩ | ⟨hnone, rfl⟩
  · obtain ⟨path, hpath, h⟩ := bind_eq_ok.mp h
    obtain ⟨age, hage, h⟩ := bind_eq_ok.mp h
    obtain ⟨maxAgeHours, hmaxAgeHours, h⟩ := bind_eq_ok.mp h
    obtain rfl := Except.ok.inj h
    obtain ⟨text, htext, hpath⟩ := bind_eq_ok.mp (valueFailure_eq_ok.mp hpath)
    rw [Entries.given, Entries.given, hv, member?_sectionOf htext,
      member?_sectionOf (valueFailure_eq_ok.mp hage)]
    exact ⟨hpath, valueFailure_eq_ok.mp hmaxAgeHours, rfl, rfl⟩
  · rw [Entries.given, Entries.given, hnone]
    exact ⟨rfl, rfl, rfl, rfl⟩

/-- What a section does not change is as before. -/
theorem onSection_keeps {α : Type} (part : Settings → α)
    (hread : ∀ v s s', read v s = .ok s' → part s' = part s)
    (h : onSection es name read s = .ok s') : part s' = part s := by
  rcases onSection_eq_ok.mp h with ⟨v, -, h⟩ | ⟨-, rfl⟩
  · exact hread v s s' h
  · rfl

end document

/-- **The settings of a document** are what it gives for the fields. -/
theorem fromLayers_of_document {es : Entries} {s : Settings} (h : ofDocument es = .ok s) :
    s.FromLayers es.given ⟨none, none⟩ := by
  unfold ofDocument at h
  obtain ⟨s₁, hversion, h⟩ := bind_eq_ok.mp h
  obtain ⟨s₂, houtput, h⟩ := bind_eq_ok.mp h
  obtain ⟨s₃, hsources, h⟩ := bind_eq_ok.mp h
  obtain ⟨s₄, hgeneration, hlockfile⟩ := bind_eq_ok.mp h
  -- The first three sections change none of the fields.
  let fields := fun s : Settings => (s.failFast, s.maxWorkers, s.lockfilePath, s.maxAgeHours)
  have hdefault : fields s₃ = fields default := by
    rw [onSection_keeps fields ?_ hsources, onSection_keeps fields ?_ houtput,
      onSection_keeps fields ?_ hversion]
    all_goals
      intro v s s' h
      obtain ⟨x, -, h⟩ := bind_eq_ok.mp h
      exact Except.ok.inj h ▸ rfl
  simp only [fields, Prod.mk.injEq] at hdefault
  obtain ⟨hfailFast, hmaxWorkers, hpath, hage⟩ := generation_of_onSection hgeneration
  obtain ⟨hlockfilePath, hmaxAgeHours, hfast, hworkers⟩ := lockfile_of_onSection hlockfile
  rw [← hfast, hdefault.1] at hfailFast
  rw [← hworkers, hdefault.2.1] at hmaxWorkers
  rw [hpath, hdefault.2.2.1] at hlockfilePath
  rw [hage, hdefault.2.2.2] at hmaxAgeHours
  exact ⟨hfailFast, hmaxWorkers, hlockfilePath, hmaxAgeHours⟩

/-! ## Loading -/

/-- What a settings file holds; a file that does not exist holds nothing. -/
def FileHolds (d : Disk) (file : Path) (es : Entries) : Prop :=
  fileExists d file = .ok true ∧ readSettingsFile d file = .ok es ∨
    fileExists d file = .ok false ∧ es = []

section load
variable {d : Disk} {vars : Variables} {folder shared file : Path} {named : Option Path}
  {w w' : List String} {s : Settings} {es base : Entries}
  {field : String → String → Option Value}

/-- What a file holds is tidy. -/
theorem tidy_of_fileHolds (h : FileHolds d file es) : (Value.map es none).Tidy := by
  rcases h with ⟨-, h⟩ | ⟨-, rfl⟩
  · unfold readSettingsFile at h
    split at h
    · cases h
    · cases h
    · next v hload =>
      have htidy : (Value.orElse (some v) (.map [] none)).Tidy := by
        rw [Value.orElse]
        split
        · exact (Yaml.isRead_of_load hload).tidy
        · exact .map List.Pairwise.nil fun e he => absurd he List.not_mem_nil
      split at h
      · next label hmap =>
        obtain rfl := Except.ok.inj h
        rw [hmap] at htidy
        exact .map htidy.entries.1 htidy.entries.2
      · cases h
  · exact .map List.Pairwise.nil fun e he => absurd he List.not_mem_nil

theorem sharedEntries_gives (h : Gives (sharedEntries d shared) w base w') :
    ∃ es, FileHolds d shared es ∧ projectSection? es = none ∧ base = mergeEntries [] es := by
  obtain ⟨present, w₁, hpresent, h⟩ := gives_bind.mp h
  have hexists := (Reading.gives_ofExcept.mp hpresent).1
  cases present with
  | true =>
    obtain ⟨es, w₂, hread, h⟩ := gives_bind.mp h
    refine ⟨es, .inl ⟨hexists, (Reading.gives_ofExcept.mp hread).1⟩, ?_⟩
    cases hsection : projectSection? es with
    | none =>
      rw [hsection] at h
      obtain ⟨_, w₃, -, h⟩ := gives_bind.mp h
      exact ⟨rfl, (gives_pure.mp h).1.symm⟩
    | some key =>
      -- A section that only a project may set is refused, so nothing is given.
      rw [hsection] at h
      obtain ⟨_, w₃, hthrow, -⟩ := gives_bind.mp h
      exact absurd hthrow not_gives_throw
  | false => exact ⟨[], .inr ⟨hexists, rfl⟩, rfl, (gives_pure.mp h).1.symm⟩

theorem projectEntries_gives (h : Gives (projectEntries d base folder named) w es w') :
    ∃ project, FileHolds d (named.getD (folder / Path.ofText settingsName)) project ∧
      es = mergeEntries base project := by
  obtain ⟨present, w₁, hpresent, h⟩ := gives_bind.mp h
  have hexists := (Reading.gives_ofExcept.mp hpresent).1
  cases present with
  | true =>
    obtain ⟨project, w₂, hread, h⟩ := gives_bind.mp h
    obtain ⟨_, w₃, -, h⟩ := gives_bind.mp h
    exact ⟨project, .inl ⟨hexists, (Reading.gives_ofExcept.mp hread).1⟩,
      (gives_pure.mp h).1.symm⟩
  | false =>
    cases named with
    | none => exact ⟨[], .inr ⟨hexists, rfl⟩, (gives_pure.mp h).1.symm⟩
    | some p => exact absurd h not_gives_throw

/-- The variables are looked at one after the other. -/
theorem override_eq (s : Settings) (vars : Variables) :
    s.override vars = s.override ⟨vars.lockfile, none⟩ >>= fun s₁ =>
      s₁.override ⟨none, vars.maxAgeHours⟩ :=
  rfl

theorem fromLayers_of_path {path : Option String} {s' : Settings}
    (hs : s.FromLayers field ⟨none, none⟩) (h : s.override ⟨path, none⟩ = .ok s') :
    s'.FromLayers field ⟨path, none⟩ := by
  obtain ⟨hfailFast, hmaxWorkers, hlockfilePath, hmaxAgeHours⟩ := hs
  have hpath := whenSet_eq path
  obtain rfl := Except.ok.inj h
  split
  · next hunset =>
    rw [if_pos hunset] at hpath
    exact ⟨hfailFast, hmaxWorkers, by rw [hpath]; exact hlockfilePath, hmaxAgeHours⟩
  · next hset =>
    rw [if_neg hset] at hpath
    exact ⟨hfailFast, hmaxWorkers, by rw [hpath]; rfl, hmaxAgeHours⟩

theorem fromLayers_of_hours {path hours : Option String} {s' : Settings}
    (hs : s.FromLayers field ⟨path, none⟩) (h : s.override ⟨none, hours⟩ = .ok s') :
    s'.FromLayers field ⟨path, hours⟩ := by
  obtain ⟨hfailFast, hmaxWorkers, hlockfilePath, hmaxAgeHours⟩ := hs
  have hage := whenSet_eq hours
  unfold override at h
  dsimp only at h
  split at h
  · next hunset =>
    rw [if_pos hunset] at hage
    obtain rfl := Except.ok.inj h
    exact ⟨hfailFast, hmaxWorkers, hlockfilePath, by rw [hage]; exact hmaxAgeHours⟩
  · next hset =>
    rw [if_neg hset] at hage
    split at h
    · next n hread =>
      obtain rfl := Except.ok.inj h
      exact ⟨hfailFast, hmaxWorkers, hlockfilePath, by rw [hage]; exact hread⟩
    · cases h

/-- **Variables decide the lockfile's fields** where they are set. -/
theorem fromLayers_of_override {s' : Settings} (hs : s.FromLayers field ⟨none, none⟩)
    (h : s.override vars = .ok s') : s'.FromLayers field vars := by
  rw [override_eq] at h
  obtain ⟨s₁, hpath, hhours⟩ := bind_eq_ok.mp h
  exact fromLayers_of_hours (fromLayers_of_path hs hpath) hhours

/-- **Loaded settings are what their layers give**, and where nothing is hidden and nothing is
    merged within a field, the highest layer that gives it decides. -/
theorem load_layers (h : Gives (load d vars folder named shared) w s w') :
    ∃ global project, FileHolds d shared global ∧
      FileHolds d (named.getD (folder / Path.ofText settingsName)) project ∧
      s.FromLayers (Entries.layered global project) vars ∧
      ∀ name key, project.hasOtherSection name = false →
        (∀ v ∈ project.given name key, ∀ w ∈ global.given name key,
          v.isMapping = false ∨ w.isMapping = false) →
        Entries.layered global project name key = Entries.highest global project name key := by
  unfold load at h
  obtain ⟨base, w₁, hshared, h⟩ := gives_bind.mp h
  obtain ⟨es, w₂, hproject, h⟩ := gives_bind.mp h
  obtain ⟨read, w₃, hread, h⟩ := gives_bind.mp h
  obtain ⟨_, w₄, -, hvars⟩ := gives_bind.mp h
  obtain ⟨global, hglobal, -, rfl⟩ := sharedEntries_gives hshared
  obtain ⟨project, hheld, rfl⟩ := projectEntries_gives hproject
  have hfields := fromLayers_of_document (Reading.gives_ofExcept.mp hread).1
  have hgiven : (mergeEntries (mergeEntries [] global) project).given =
      Entries.layered global project := by
    -- Of the file for all projects a merge into nothing is made first, which changes no field.
    funext name key
    rw [Entries.given_mergeEntries (tidy_of_fileHolds hheld), Entries.layered, Entries.layered,
      Entries.given_mergeEntries_nil (tidy_of_fileHolds hglobal)]
  rw [hgiven] at hfields
  exact ⟨global, project, hglobal, hheld,
    fromLayers_of_override hfields (Reading.gives_ofExcept.mp hvars).1,
    fun name key => Entries.layered_eq_highest⟩

/-- A file that can be read holds something. -/
theorem exists_fileHolds {check : Entries → Bool}
    (hexists : (fileExists d file).toOption.any fun present => present)
    (hread : (readSettingsFile d file).toOption.any check) :
    ∃ es, FileHolds d file es ∧ check es := by
  obtain ⟨present, hpresent, rfl⟩ := exists_ok_of_any hexists
  obtain ⟨es, hes, hcheck⟩ := exists_ok_of_any hread
  exact ⟨es, .inl ⟨hpresent, hes⟩, hcheck⟩

end load

/-! ## Two files -/

def sharedFile : Path := ⟨0, ["shared.yaml"]⟩

/-- A disk with a file for all projects and with a project's file. -/
def layeredDisk (shared project : String) : Disk :=
  ⟨[(sharedFile.parts, .file shared.toUTF8.toList 0),
    ([settingsName], .file project.toUTF8.toList 0)], []⟩

/-- The settings that come from two files alone. -/
abbrev loadLayered (d : Disk) : Reading Settings := load d ⟨none, none⟩ ⟨0, []⟩ none sharedFile

/-- Both files have the section, and each of them gives one of its fields. -/
def sharingDisk : Disk := layeredDisk "lockfile: {max_age_hours: 5}" "lockfile: {path: kept}"

theorem load_layers_of_sharing :
    ∃ s w global project, Gives (loadLayered sharingDisk) [] s w ∧ s.maxAgeHours = 5 ∧
      s.lockfilePath = "kept" ∧ s.FromLayers (Entries.layered global project) ⟨none, none⟩ := by
  obtain ⟨s, hrun, hcheck⟩ := exists_ok_of_any (show
    ((loadLayered sharingDisk).run.run []).1.toOption.any fun s =>
      s.maxAgeHours == 5 && s.lockfilePath == "kept" by decide +kernel)
  simp only [Bool.and_eq_true, beq_iff_eq] at hcheck
  have hgives := gives_of_fst hrun
  obtain ⟨global, project, -, -, hlayers, -⟩ := load_layers hgives
  exact ⟨s, _, global, project, hgives, hcheck.1, hcheck.2, hlayers⟩

/-- The project's file has the section and leaves it empty. -/
def hidingDisk : Disk := layeredDisk "lockfile: {max_age_hours: 5}" "lockfile:"

/-- **A section that is left empty hides the other file's section**, so that a default counts
    although a file gives the field. -/
theorem load_misses_highest :
    ∃ s w global project, Gives (loadLayered hidingDisk) [] s w ∧
      FileHolds hidingDisk sharedFile global ∧
      FileHolds hidingDisk (⟨0, []⟩ / Path.ofText settingsName) project ∧
      ¬s.FromLayers (Entries.highest global project) ⟨none, none⟩ := by
  obtain ⟨hloaded, hshared, hgiven, hproject, hnone⟩ :
      ((loadLayered hidingDisk).run.run []).1.toOption.any (fun s =>
        s.maxAgeHours == default.maxAgeHours) ∧
      (fileExists hidingDisk sharedFile).toOption.any (fun present => present) ∧
      (readSettingsFile hidingDisk sharedFile).toOption.any (fun es =>
        (es.given "lockfile" "max_age_hours").any fun v => v.toInt.toOption == some 5) ∧
      (fileExists hidingDisk (⟨0, []⟩ / Path.ofText settingsName)).toOption.any
        (fun present => present) ∧
      (readSettingsFile hidingDisk (⟨0, []⟩ / Path.ofText settingsName)).toOption.any
        (fun es => (es.given "lockfile" "max_age_hours").isNone) := by decide +kernel
  obtain ⟨s, hrun, hdefault⟩ := exists_ok_of_any hloaded
  obtain ⟨global, hglobal, hage⟩ := exists_fileHolds hshared hgiven
  obtain ⟨project, hheld, hleft⟩ := exists_fileHolds hproject hnone
  refine ⟨s, _, global, project, gives_of_fst hrun, hglobal, hheld, fun hlayers => ?_⟩
  obtain ⟨v, hv, hfive⟩ := (Option.any_eq_true _ _).mp hage
  -- Only the file for all projects gives the field, so its value would be the highest.
  have hhigher : v.toInt = .ok s.maxAgeHours := by
    have hfield := hlayers.maxAgeHours
    rw [Entries.highest, Option.isNone_iff_eq_none.mp hleft, hv] at hfield
    exact hfield
  rw [hhigher, beq_iff_eq.mp hdefault] at hfive
  exact absurd hfive (by decide)

end Settings

end Regen
