import Regen.Lockfile.Store
import Regen.Proofs.Disk.Changes
import Regen.Proofs.Outcome

/-! # Saving a lockfile

    What reading and saving a lockfile do to the file at a path, whose content alone decides what
    is read.  A save goes through when the revision on the disk is the one that it expects and its
    document can be written; then the path holds that document.  Otherwise nothing that was on the
    disk is lost. -/

namespace Regen

/-- Is a failure one of the disk, or does it say that no disk can have the path? -/
def Failure.IsOfDisk : Failure → Prop
  | .disk _ | .value .nullInPath => True
  | _ => False

instance (f : Failure) : Decidable f.IsOfDisk := by
  unfold Failure.IsOfDisk
  split <;> infer_instance

instance {α : Type} (r : Except Failure α) : Decidable (∀ f, r = .error f → ¬f.IsOfDisk) :=
  match r with
  | .error f => decidable_of_iff (¬f.IsOfDisk)
    ⟨fun h _ hg => Except.error.inj hg ▸ h, fun h => h f rfl⟩
  | .ok _ => isTrue fun _ h => nomatch h

namespace Lockfile

/-! ## Revisions -/

/-- A file's content reads as a document with a revision. -/
def ReadsRevision (content : Bytes) (n : Int) : Prop :=
  ∃ v, Yaml.ofBytes content = .ok v ∧ counter v "revision" = .ok n

/-- **A lockfile keeps its revision** if its document, once written, reads at that revision. -/
def KeepsRevision (l : Lockfile) : Prop :=
  ∀ content, l.encode = .ok content → ReadsRevision content l.revision

instance (content : Bytes) (n : Int) : Decidable (ReadsRevision content n) :=
  decidable_of_iff ((Yaml.ofBytes content).toOption.any fun v =>
      (counter v "revision").toOption == some n) <| by
    unfold ReadsRevision
    match Yaml.ofBytes content with
    | .error _ => simp [Except.toOption]
    | .ok v =>
      match hn : counter v "revision" with
      | .error _ => simp [Except.toOption, hn]
      | .ok m => simp [Except.toOption, hn]

instance (l : Lockfile) : Decidable (KeepsRevision l) :=
  decidable_of_iff (l.encode.toOption.all fun content => ReadsRevision content l.revision) <| by
    unfold KeepsRevision
    match l.encode with
    | .error _ => simp [Except.toOption]
    | .ok content => simp [Except.toOption]

/-- **What a lockfile was read from.** -/
structure ReadFrom (v : Value) (l : Lockfile) : Prop where
  schemaVersion : l.schemaVersion = currentSchema
  sources : ∃ w, v.member? "sources" = .ok w ∧
    Ledger.ofDocument SourceRecord.ofDocument w = .ok l.sources
  files : ∃ w, v.member? "files" = .ok w ∧ Ledger.ofDocument FileRecord.ofDocument w = .ok l.files
  dependencies : ∃ w, v.member? "dependencies" = .ok w ∧
    Ledger.ofDocument (fun w => textsOf (some w)) w = .ok l.dependencies
  generatedAt : ∃ w, v.member "generated_at" = .ok w ∧ w.toMoment = .ok l.generatedAt
  revision : counter v "revision" = .ok l.revision

theorem readFrom_of_ofDocument {v : Value} {l : Lockfile} (h : ofDocument v = .ok l) :
    ReadFrom v l := by
  match v with
  | .map es label =>
    unfold ofDocument at h
    dsimp only at h
    obtain ⟨schema, _, h⟩ := bind_eq_ok.mp h
    split at h
    · cases h
    · next hschema =>
      simp only [bind_eq_ok] at h
      obtain ⟨ws, hws, sources, hsources, wf, hwf, files, hfiles, wd, hwd, dependencies,
        hdependencies, _, -, _, -, time, htime, generatedAt, hgenerated, _, -, _, -, revision,
        hrevision, hl⟩ := h
      obtain rfl := Except.ok.inj hl
      exact ⟨by simpa using hschema, ⟨ws, hws, hsources⟩, ⟨wf, hwf, hfiles⟩,
        ⟨wd, hwd, hdependencies⟩, ⟨time, htime, hgenerated⟩, hrevision⟩

theorem revision_of_ofDocument {v : Value} {l : Lockfile} (h : ofDocument v = .ok l) :
    counter v "revision" = .ok l.revision :=
  (readFrom_of_ofDocument h).revision

/-! ## Reading -/

/-- What a path holds, if it holds a file. -/
def contentAt (d : Disk) (p : Path) : Option Bytes :=
  if Disk.holdsNull p then none else (d.fileAt p).toOption.map (·.1)

section reading
variable {d : Disk} {p : Path} {content : Bytes} {n : Int}

theorem contentAt_of_holdsFile (hnull : Disk.holdsNull p = false)
    (hfile : d.HoldsFile p content) : contentAt d p = some content := by
  obtain ⟨changed, hcontent⟩ := hfile.fileAt
  rw [contentAt, if_neg (Bool.eq_false_iff.mp hnull), hcontent]
  rfl

theorem load_yaml_of_holdsFile (hnull : Disk.holdsNull p = false) (hfile : d.HoldsFile p content) :
    Yaml.load d p = Yaml.ofBytes content := by
  obtain ⟨changed, hcontent⟩ := hfile.fileAt
  rw [Yaml.load, if_neg (Bool.eq_false_iff.mp hnull), hcontent]

theorem diskRevision_of_reads (hnull : Disk.holdsNull p = false) (hfile : d.HoldsFile p content)
    (hreads : ReadsRevision content n) : diskRevision d p = .ok n := by
  obtain ⟨v, hv, hn⟩ := hreads
  rw [diskRevision, load_yaml_of_holdsFile hnull hfile, hv]
  simp only [hn]
  rfl

/-- A lockfile that is read has the revision of the file. -/
theorem revision_of_load (hnull : Disk.holdsNull p = false) (hfile : d.HoldsFile p content)
    (hreads : ReadsRevision content n) {l : Lockfile} (h : load d p = .ok l) : l.revision = n := by
  obtain ⟨v, hv, hn⟩ := hreads
  rw [load, hfile.exists? hnull, load_yaml_of_holdsFile hnull hfile, hv] at h
  dsimp only at h
  split at h
  · next l' hl =>
    obtain rfl := Except.ok.inj h
    exact Except.ok.inj ((revision_of_ofDocument hl).symm.trans hn)
  · cases h

/-- A lockfile is missing only where nothing exists. -/
theorem not_exists_of_load {name : String} (h : load d p = .error (.absent name)) :
    d.exists? p = .ok false := by
  unfold load at h
  split at h
  · cases h
  · assumption
  · split at h
    · cases h
    · rename_i f _ _
      cases f <;> cases h
    · split at h
      · cases h
      · split at h <;> cases h

/-- Where there is a file nothing is begun. -/
theorem load_of_loadOrCreate (hnull : Disk.holdsNull p = false) (hfile : d.HoldsFile p content)
    {now : Time.Moment} {tool : String} {l : Lockfile}
    (h : loadOrCreate d p now tool = .ok l) : load d p = .ok l := by
  unfold loadOrCreate at h
  split at h
  · next name hload =>
    have hexists := hfile.exists? hnull
    rw [not_exists_of_load hload] at hexists
    cases hexists
  · exact h

theorem not_isOfDisk_revisionFailure (p : Path) (expected found : Int) :
    ¬(revisionFailure p expected found).IsOfDisk := by
  unfold revisionFailure
  split <;> exact id

theorem load_of_absent (habsent : d.exists? p = .ok false) : load d p = .error (.absent p.text) := by
  rw [load, habsent]

theorem loadOrCreate_of_absent (habsent : d.exists? p = .ok false) (now : Time.Moment)
    (tool : String) : loadOrCreate d p now tool = .ok (empty now tool) := by
  rw [loadOrCreate, load_of_absent habsent]

theorem checkRevision_of_absent (habsent : d.exists? p = .ok false) (expected : Int) :
    checkRevision d p expected = .ok () := by
  rw [checkRevision, habsent]

theorem checkRevision_of_reads (hnull : Disk.holdsNull p = false) (hfile : d.HoldsFile p content)
    (hreads : ReadsRevision content n) (expected : Int) :
    checkRevision d p expected =
      if n = expected then .ok () else .error (revisionFailure p expected n) := by
  rw [checkRevision, hfile.exists? hnull]
  dsimp only
  rw [diskRevision_of_reads hnull hfile hreads]
  rfl

end reading

/-! ## Mishaps -/

/-- A failure that a save may meet on the way: one of the disk, or a mishap. -/
def Mishaps.Meets (mishaps : Mishaps) (f : Failure) : Prop :=
  f.IsOfDisk ∨ ∃ step, mishaps step = some f

section mishaps
variable {α : Type} {mishaps : Mishaps} {step : SaveStep} {own : Except Failure α} {f : Failure}

theorem isOfDisk_of_meets (h : noMishaps.Meets f) : f.IsOfDisk :=
  h.resolve_right fun ⟨_, hstep⟩ => nomatch hstep

theorem stepResult_ok {x : α} (h : stepResult mishaps step own = .ok x) :
    mishaps step = none ∧ own = .ok x := by
  unfold stepResult at h
  split at h
  · cases h
  · next hnone => exact ⟨hnone, h⟩

theorem stepResult_error (h : stepResult mishaps step own = .error f) :
    mishaps step = some f ∨ mishaps step = none ∧ own = .error f := by
  unfold stepResult at h
  split at h
  · next hsome => exact .inl (Except.error.inj h ▸ hsome)
  · next hnone => exact .inr ⟨hnone, h⟩

/-- A step on the disk fails because the disk does, or by a mishap. -/
theorem meets_of_stepResult {r : Except DiskFault α}
    (h : stepResult mishaps step (r.mapError .disk) = .error f) : mishaps.Meets f := by
  rcases stepResult_error h with hstep | ⟨_, hown⟩
  · exact .inr ⟨step, hstep⟩
  · match r with
    | .error _ =>
      obtain rfl := Except.error.inj hown
      exact .inl trivial
    | .ok _ => cases hown

theorem stepResult_disk_ok {r : Except DiskFault α} {x : α}
    (h : stepResult mishaps step (r.mapError .disk) = .ok x) : mishaps step = none ∧ r = .ok x := by
  obtain ⟨hnone, hown⟩ := stepResult_ok h
  match r with
  | .error _ => cases hown
  | .ok _ => exact ⟨hnone, by rw [Except.ok.inj hown]⟩

end mishaps

/-! ## Making folders -/

section folders
variable {mishaps : Mishaps} {d d' : Disk} {p : Path}

/-- However far it comes, making folders only makes folders for the path, and it fails only by the
    disk or a mishap. -/
theorem makeFoldersWith_cases {r : Except Failure Unit}
    (h : makeFoldersWith mishaps d p = (d', r)) :
    Disk.FoldersMade p d d' ∧ (∀ f, r = .error f → mishaps.Meets f) ∧
      (r = .ok () → d.makeFolders p = (d', .ok ()) ∧
        ∀ n ≤ p.parts.length, mishaps (.makeFolders n) = none) := by
  unfold makeFoldersWith at h
  dsimp only at h
  split at h
  · next hstops =>
    have hmade := Disk.foldersMade_makeFolders d p
    obtain ⟨rfl, rfl⟩ := Prod.mk.inj h
    refine ⟨hmade, fun f hf => ?_, fun hok => ⟨?_, fun n hn => ?_⟩⟩
    · match hr : (d.makeFolders p).2 with
      | .error g =>
        rw [hr] at hf
        exact .inl (Except.error.inj hf ▸ trivial)
      | .ok _ =>
        rw [hr] at hf
        cases hf
    · match hr : (d.makeFolders p).2 with
      | .error g =>
        rw [hr] at hok
        cases hok
      | .ok _ => exact Prod.ext rfl hr
    · have hnone := List.findSome?_eq_none_iff.mp hstops n (List.mem_range.mpr (by omega))
      exact Option.map_eq_none_iff.mp hnone
  · next n f hstops =>
    have hinitial : ({ p with parts := p.parts.take n } : Path).IsInitial p :=
      ⟨rfl, List.take_prefix n p.parts⟩
    have hmade := Disk.foldersMade_makeFolders d { p with parts := p.parts.take n }
    obtain ⟨k, _, hk⟩ := List.exists_of_findSome?_eq_some hstops
    obtain ⟨g, hg, hkg⟩ := Option.map_eq_some_iff.mp hk
    obtain ⟨rfl, rfl⟩ := Prod.mk.inj hkg
    split at h
    · next d₁ hfolders =>
      rw [hfolders] at hmade
      obtain ⟨rfl, rfl⟩ := Prod.mk.inj h
      exact ⟨.of_initial hinitial hmade, fun f hf => .inr ⟨_, Except.error.inj hf ▸ hg⟩, nofun⟩
    · next d₁ own hfolders =>
      rw [hfolders] at hmade
      obtain ⟨rfl, rfl⟩ := Prod.mk.inj h
      exact ⟨.of_initial hinitial hmade, fun f hf => .inl (Except.error.inj hf ▸ trivial), nofun⟩

theorem makeFoldersWith_of_made (h : d.makeFolders p = (d', .ok ())) :
    makeFoldersWith noMishaps d p = (d', .ok ()) := by
  have hgo : (List.range (p.parts.length + 1)).findSome? (fun n =>
      (noMishaps (.makeFolders n)).map (n, ·)) = none :=
    List.findSome?_eq_none_iff.mpr fun _ _ => rfl
  rw [makeFoldersWith, hgo, h]
  rfl

end folders

/-! ## Replacing the file -/

section replacing
variable {mishaps : Mishaps} {d d' : Disk} {p : Path} {content : Bytes}

/-- The path of the new file beside a lockfile. -/
abbrev temporaryFor (d : Disk) (p : Path) : Path :=
  freshTemporary d (d.absolute p.parent) p.name (d.entries.length + 1) 0

/-- A new file stands at a place where nothing was; the rest of the disk is as before. -/
abbrev withNewFile (d : Disk) (t : Place) (content : Bytes) : Disk :=
  d.put t (.file content Disk.writtenAt)

theorem leads_withNewFile {temporary : Path} {t : Place} (hleads : d.Leads temporary t)
    (hvacant : d.at? t = none) : (withNewFile d t content).Leads temporary t :=
  hleads.mono (Disk.Grown.put hvacant _).keepsWays

/-- Filling and moving the new file either leaves it in its place, with some content, or has put
    the content where the path leads. -/
theorem fillAndRename_cases (mishaps : Mishaps) (p : Path) (content : Bytes) {temporary : Path}
    {t : Place} (hleads : d.Leads temporary t) (hvacant : d.at? t = none) :
    (∃ f filled, mishaps.Meets f ∧
      fillAndRename mishaps (withNewFile d t []) temporary p content =
        (withNewFile d t filled, .error f)) ∨
    ∃ q, d.Leads p q ∧ d.at? q ≠ some .folder ∧
      (∀ step ∈ [SaveStep.write, .flush, .sync, .rename], mishaps step = none) ∧
      fillAndRename mishaps (withNewFile d t []) temporary p content =
        (d.put q (.file content Disk.writtenAt), .ok ()) := by
  have hthere : ∀ bytes, (withNewFile d t bytes).at? t = some (.file bytes Disk.writtenAt) :=
    fun bytes => Disk.at?_put_self d hleads.place_ne_nil _
  unfold fillAndRename
  split
  · next f hwrite => exact .inl ⟨f, [], meets_of_stepResult hwrite, rfl⟩
  · next written hwrite =>
    obtain ⟨hnowrite, hwritten⟩ := stepResult_disk_ok hwrite
    have hfilled : written = withNewFile d t content := by
      rw [Disk.writeFile_ok (leads_withNewFile hleads hvacant) (hthere []) hwritten]
      exact Disk.put_put ..
    subst hfilled
    dsimp only
    split
    · next f hmoved =>
      have hplain : ∀ step, stepResult mishaps step (.ok ()) = .error f → mishaps.Meets f :=
        fun _ h => meets_of_stepResult (r := .ok ()) h
      refine .inl ⟨f, content, ?_, rfl⟩
      rcases bind_eq_error.mp hmoved with hflush | ⟨_, _, hmoved⟩
      · exact hplain _ hflush
      rcases bind_eq_error.mp hmoved with hsync | ⟨_, _, hmoved⟩
      · exact hplain _ hsync
      · exact meets_of_stepResult hmoved
    · next moved hmoved =>
      obtain ⟨_, hflush, hmoved⟩ := bind_eq_ok.mp hmoved
      obtain ⟨_, hsync, hmoved⟩ := bind_eq_ok.mp hmoved
      obtain ⟨hnorename, hmoved⟩ := stepResult_disk_ok hmoved
      obtain ⟨q, hq, hfile, rfl⟩ :=
        Disk.moveFile_ok (leads_withNewFile hleads hvacant) (hthere content) hmoved
      have hremoved : (withNewFile d t content).remove t = d :=
        Disk.remove_put hleads.place_ne_nil hvacant
      have hkeeps : (withNewFile d t content).KeepsWays d := by
        have hremove := Disk.KeepsWays.remove (.of_file (hthere content))
        rwa [hremoved] at hremove
      rw [hremoved]
      refine .inr ⟨q, hq.mono hkeeps, fun hfolder => hfile ?_, ?_, rfl⟩
      · exact (Disk.Grown.put hvacant _).still q _ hfolder
      · simp [hnowrite, hnorename, (stepResult_ok hflush).1, (stepResult_ok hsync).1]

/-- The new file is removed, unless that meets a mishap. -/
theorem discard_withNewFile {temporary : Path} {t : Place} (hleads : d.Leads temporary t)
    (hvacant : d.at? t = none) (filled : Bytes) :
    discard mishaps (withNewFile d t filled) temporary =
      if (mishaps .discard).isSome then withNewFile d t filled else d := by
  have hthere := Disk.at?_put_self d hleads.place_ne_nil (.file filled Disk.writtenAt)
  have hunlink := Disk.unlink_of_file (leads_withNewFile hleads hvacant) hthere
  rw [Disk.remove_put hleads.place_ne_nil hvacant] at hunlink
  unfold discard stepResult
  match mishaps .discard with
  | some f => rfl
  | none =>
    rw [hunlink]
    rfl

/-- **How a replacement ends.** -/
inductive Replacement (mishaps : Mishaps) (d : Disk) (p : Path) (content : Bytes) :
    Disk × Except Failure Unit → Prop
  | undone {f : Failure} (hf : mishaps.Meets f) : Replacement mishaps d p content (d, .error f)
  /-- It failed, and the new file could not be removed. -/
  | leftBehind {f : Failure} {t : Place} {filled : Bytes} (hf : mishaps.Meets f)
      (hdiscard : (mishaps .discard).isSome) (hleads : d.Leads (temporaryFor d p) t)
      (hvacant : d.at? t = none) :
      Replacement mishaps d p content (withNewFile d t filled, .error f)
  | done {q : Place} (hnull : Disk.holdsNull p = false) (hleads : d.Leads p q)
      (hfile : d.at? q ≠ some .folder)
      (hsteps : ∀ step ∈ [SaveStep.createTemporary, .write, .flush, .sync, .rename],
        mishaps step = none) :
      Replacement mishaps d p content (d.put q (.file content Disk.writtenAt), .ok ())

theorem replacement (mishaps : Mishaps) (d : Disk) (p : Path) (content : Bytes) :
    Replacement mishaps d p content (replaceFile mishaps d p content) := by
  unfold replaceFile
  split
  · exact .undone (.inl trivial)
  · next hnull =>
    dsimp only
    split
    · next f hcreate => exact .undone (meets_of_stepResult hcreate)
    · next made hcreate =>
      obtain ⟨hnocreate, hmade⟩ := stepResult_disk_ok hcreate
      obtain ⟨t, hleads, hvacant, rfl⟩ := Disk.createFile_ok hmade
      rcases fillAndRename_cases mishaps p content hleads hvacant with
        ⟨f, filled, hf, hend⟩ | ⟨q, hq, hfile, hsteps, hend⟩
      · rw [hend]
        dsimp only
        rw [discard_withNewFile hleads hvacant]
        split
        · next hdiscard => exact .leftBehind hf hdiscard hleads hvacant
        · exact .undone hf
      · rw [hend]
        exact .done (Bool.eq_false_iff.mpr hnull) hq hfile
          (List.forall_mem_cons.mpr ⟨hnocreate, hsteps⟩)

end replacing

/-! ## Saving -/

/-- **How a save ends.** -/
inductive SaveEnd (mishaps : Mishaps) (d : Disk) (p : Path) (l : Lockfile) (force : Bool) :
    Disk × Except Failure Lockfile → Prop
  /-- The disk failed or a mishap struck, and at most folders were made. -/
  | stopped {d₁ : Disk} {f : Failure} (hmade : Disk.FoldersMade p.parent d d₁)
      (hf : mishaps.Meets f) : SaveEnd mishaps d p l force (d₁, .error f)
  /-- The lockfile may not be replaced, or it cannot be written. -/
  | refused {d₁ : Disk} {f : Failure} (hnull : Disk.holdsNull p.parent = false)
      (hmade : d.makeFolders p.parent = (d₁, .ok ()))
      (hf : force = false ∧ checkRevision d₁ p l.revision = .error f ∨
        (force = false → checkRevision d₁ p l.revision = .ok ()) ∧ l.next.encode = .error f) :
      SaveEnd mishaps d p l force (d₁, .error f)
  /-- The new file could not be moved, nor removed. -/
  | leftBehind {d₁ : Disk} {f : Failure} {t : Place} {filled : Bytes}
      (hmade : Disk.FoldersMade p.parent d d₁) (hf : mishaps.Meets f)
      (hdiscard : (mishaps .discard).isSome) (hleads : d₁.Leads (temporaryFor d₁ p) t)
      (hvacant : d₁.at? t = none) :
      SaveEnd mishaps d p l force (withNewFile d₁ t filled, .error f)
  /-- No step met a mishap, and the document is where the path led. -/
  | done {d₁ : Disk} {q : Place} {content : Bytes} (hnull : Disk.holdsNull p = false)
      (hmade : d.makeFolders p.parent = (d₁, .ok ()))
      (hcheck : force = false → checkRevision d₁ p l.revision = .ok ())
      (hencode : l.next.encode = .ok content) (hleads : d₁.Leads p q)
      (hfile : d₁.at? q ≠ some .folder)
      (hfolders : ∀ n ≤ p.parent.parts.length, mishaps (.makeFolders n) = none)
      (hread : force = false → mishaps .readRevision = none)
      (hsteps : ∀ step ∈ [SaveStep.encode, .createTemporary, .write, .flush, .sync, .rename],
        mishaps step = none) :
      SaveEnd mishaps d p l force (d₁.put q (.file content Disk.writtenAt), .ok l.next)

/-- What comes before anything is written: the revision is checked unless the save is forced, and
    the document is made. -/
theorem prepared_cases {mishaps : Mishaps} {force : Bool} {check : Except Failure Unit}
    {encoded r : Except Failure Bytes}
    (h : (do
      if force then pure () else stepResult mishaps .readRevision check
      stepResult mishaps .encode encoded) = r) :
    (∃ f, r = .error f ∧ (mishaps.Meets f ∨ force = false ∧ check = .error f ∨
      (force = false → check = .ok ()) ∧ encoded = .error f)) ∨
    ∃ content, r = .ok content ∧ (force = false → check = .ok ()) ∧ encoded = .ok content ∧
      (force = false → mishaps .readRevision = none) ∧ mishaps .encode = none := by
  have hencode : (force = false → check = .ok ()) → (force = false → mishaps .readRevision = none) →
      stepResult mishaps .encode encoded = r →
      (∃ f, r = .error f ∧ (mishaps.Meets f ∨ force = false ∧ check = .error f ∨
        (force = false → check = .ok ()) ∧ encoded = .error f)) ∨
      ∃ content, r = .ok content ∧ (force = false → check = .ok ()) ∧ encoded = .ok content ∧
        (force = false → mishaps .readRevision = none) ∧ mishaps .encode = none := by
    rintro hcheck hread rfl
    match hencode : stepResult mishaps .encode encoded with
    | .error f =>
      rcases stepResult_error hencode with hstep | ⟨_, hown⟩
      · exact .inl ⟨f, rfl, .inl (.inr ⟨_, hstep⟩)⟩
      · exact .inl ⟨f, rfl, .inr (.inr ⟨hcheck, hown⟩)⟩
    | .ok content =>
      obtain ⟨hnone, hown⟩ := stepResult_ok hencode
      exact .inr ⟨content, rfl, hcheck, hown, hread, hnone⟩
  match force with
  | true => exact hencode nofun nofun h
  | false =>
    match hcheck : stepResult mishaps .readRevision check with
    | .error f =>
      have hr : r = .error f := h.symm.trans (bind_eq_error.mpr (.inl hcheck))
      rcases stepResult_error hcheck with hstep | ⟨_, hown⟩
      · exact .inl ⟨f, hr, .inl (.inr ⟨_, hstep⟩)⟩
      · exact .inl ⟨f, hr, .inr (.inl ⟨rfl, hown⟩)⟩
    | .ok () =>
      obtain ⟨hnone, hown⟩ := stepResult_ok hcheck
      refine hencode (fun _ => hown) (fun _ => hnone) ?_
      rw [← h]
      simp only [Bool.false_eq_true, if_false, hcheck]
      rfl

theorem saveWith_end (mishaps : Mishaps) (d : Disk) (p : Path) (l : Lockfile) (force : Bool) :
    SaveEnd mishaps d p l force (saveWith mishaps d p l force) := by
  unfold saveWith
  split
  · exact .stopped .none (.inl trivial)
  · next hnull =>
    have hnull := Bool.eq_false_iff.mpr hnull
    split
    · next d₁ f hmade =>
      obtain ⟨hfolders, hf, -⟩ := makeFoldersWith_cases hmade
      exact .stopped hfolders (hf f rfl)
    · next d₁ hmade =>
      obtain ⟨hfolders, -, hok⟩ := makeFoldersWith_cases hmade
      obtain ⟨hmade, hnofolders⟩ := hok rfl
      dsimp only
      split
      · next f hprepared =>
        rcases prepared_cases hprepared with ⟨g, hg, hf⟩ | ⟨_, hc, _⟩
        · obtain rfl := Except.error.inj hg
          rcases hf with hf | hf
          · exact .stopped hfolders hf
          · exact .refused hnull hmade hf
        · cases hc
      · next content hprepared =>
        rcases prepared_cases hprepared with ⟨g, hg, _⟩ | ⟨_, hc, hcheck, hencode, hread, hstep⟩
        · cases hg
        obtain rfl := Except.ok.inj hc
        have hend := replacement mishaps d₁ p content
        split
        · next d₂ f hreplace =>
          rw [hreplace] at hend
          cases hend with
          | undone hf => exact .stopped hfolders hf
          | leftBehind hf hdiscard hleads hvacant =>
            exact .leftBehind hfolders hf hdiscard hleads hvacant
        · next d₂ hreplace =>
          rw [hreplace] at hend
          cases hend with
          | done hnull hleads hfile hsteps =>
            exact .done hnull hmade hcheck hencode hleads hfile hnofolders hread
              (List.forall_mem_cons.mpr ⟨hstep, hsteps⟩)

section saving
variable {d d' : Disk} {p : Path} {l : Lockfile}

/-- **What a save that succeeds did**: the folders are there, the revision was the expected one,
    and the path holds the document of the next revision. -/
theorem save_ok {l' : Lockfile} (h : save d p l false = (d', .ok l'))
    (hfree : ∀ d₁, d.makeFolders p.parent = (d₁, .ok ()) → d₁.HasFreeEnd p) :
    l' = l.next ∧ Disk.holdsNull p = false ∧ ∃ d₁ content,
      d.makeFolders p.parent = (d₁, .ok ()) ∧ checkRevision d₁ p l.revision = .ok () ∧
      l.next.encode = .ok content ∧ d'.HoldsFile p content := by
  have hend := saveWith_end noMishaps d p l false
  rw [← save, h] at hend
  cases hend with
  | done hnull hmade hcheck hencode hleads _ _ _ _ =>
    exact ⟨rfl, hnull, _, _, hmade, hcheck rfl, hencode,
      Disk.holdsFile_of_put hleads (hfree _ hmade)⟩

/-- **What a save that fails did**, unless the disk failed: it made the folders, and either the
    revision was not the expected one or the document cannot be written. -/
theorem save_error {f : Failure} (h : save d p l false = (d', .error f)) (hdisk : ¬f.IsOfDisk) :
    Disk.holdsNull p.parent = false ∧ d.makeFolders p.parent = (d', .ok ()) ∧
      (checkRevision d' p l.revision = .error f ∨
        checkRevision d' p l.revision = .ok () ∧ l.next.encode = .error f) := by
  have hend := saveWith_end noMishaps d p l false
  rw [← save, h] at hend
  cases hend with
  | stopped _ hf => exact absurd (isOfDisk_of_meets hf) hdisk
  | leftBehind _ hf _ _ _ => exact absurd (isOfDisk_of_meets hf) hdisk
  | refused hnull hmade hf =>
    refine ⟨hnull, hmade, ?_⟩
    rcases hf with ⟨-, hcheck⟩ | ⟨hcheck, hencode⟩
    · exact .inl hcheck
    · exact .inr ⟨hcheck rfl, hencode⟩

/-- A save at another revision than that of the disk is refused. -/
theorem save_refused {f : Failure} (hnull : Disk.holdsNull p.parent = false)
    (hmade : d.makeFolders p.parent = (d', .ok ()))
    (hcheck : checkRevision d' p l.revision = .error f) : save d p l false = (d', .error f) := by
  rw [save, saveWith, if_neg (Bool.eq_false_iff.mp hnull), makeFoldersWith_of_made hmade]
  dsimp only
  rw [hcheck]
  rfl

/-- A save at the revision of the disk does what a forced one does. -/
theorem save_eq_forced (hnull : Disk.holdsNull p.parent = false)
    (hmade : d.makeFolders p.parent = (d', .ok ()))
    (hcheck : checkRevision d' p l.revision = .ok ()) : save d p l false = save d p l true := by
  have hname := Bool.eq_false_iff.mp hnull
  rw [save, save, saveWith, saveWith, if_neg hname, if_neg hname, makeFoldersWith_of_made hmade]
  dsimp only
  rw [hcheck]
  rfl

theorem made_of_save {force : Bool} (h : (save d p l force).2.isOk) :
    ∃ d₁, d.makeFolders p.parent = (d₁, .ok ()) := by
  have hend := saveWith_end noMishaps d p l force
  rw [← save] at hend
  generalize save d p l force = r at h hend
  cases hend with
  | done _ hmade => exact ⟨_, hmade⟩
  | _ => cases h

theorem next_of_save {force : Bool} (h : (save d p l force).2.isOk) :
    (save d p l force).2 = .ok l.next := by
  have hend := saveWith_end noMishaps d p l force
  rw [← save] at hend
  generalize save d p l force = r at h hend
  cases hend with
  | done => rfl
  | _ => cases h

end saving

end Lockfile

end Regen
