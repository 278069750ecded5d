import Regen.Proofs.Settings.Project
import Regen.Proofs.Settings.Unreadable

/-! # What loading settings explains

    Loading says what is wrong with settings in terms of settings for nearly every mistake in the
    files: no YAML, no mapping, sources that no list holds, sources that are not accepted.  Other
    mistakes escape as the faults that they are: bytes that are no text, a scalar that YAML gives a
    tag and no value, an unknown section whose name cannot be shown, a value of the wrong shape,
    and a URL whose authority cannot be taken apart.  The variables never cause one of these. -/

namespace Regen

open Lockfile

/-! ## Outcomes of readings -/

/-- Whatever was warned about before, a reading comes to the same outcome. -/
def Reading.Ends {α : Type} (c : Reading α) (r : Except Failure α) : Prop :=
  ∀ w, ∃ w', c.run.run w = (r, w')

namespace Reading
variable {α β : Type} {c : Reading α} {f : α → Reading β} {r : Except Failure α}
  {r' : Except Failure β}

theorem Ends.pure (x : α) : Ends (pure x) (.ok x) := fun w => ⟨w, rfl⟩

theorem Ends.throw (e : Failure) : Ends (throw e : Reading α) (.error e) := fun w => ⟨w, rfl⟩

theorem Ends.warn (message : String) : Ends (Regen.warn message) (.ok ()) :=
  fun w => ⟨w ++ [message], rfl⟩

theorem Ends.ofExcept {r' : Except Failure α} (h : r' = r) : Ends (ofExcept r') r := by
  subst h
  match r' with
  | .ok x => exact .pure x
  | .error e => exact .throw e

/-- Two steps end as the second does on what the first gives. -/
theorem Ends.bind {x : α} (hc : Ends c (.ok x)) (hf : Ends (f x) r') : Ends (c >>= f) r' := by
  intro w
  obtain ⟨w₁, hgives⟩ := hc w
  obtain ⟨w₂, h⟩ := hf w₁
  exact ⟨w₂, (Gives.run_bind hgives).trans h⟩

/-- Two steps end where the first stops. -/
theorem Ends.stop {e : Failure} (hc : Ends c (.error e)) : Ends (c >>= f) (.error e) := by
  intro w
  obtain ⟨w₁, hstops⟩ := hc w
  exact ⟨w₁, Stops.run_bind hstops⟩

/-- A step for every element ends well if each of them does. -/
theorem Ends.forM {xs : List α} {step : α → Reading PUnit}
    (h : ∀ x ∈ xs, Ends (step x) (.ok ())) : Ends (xs.forM step) (.ok ()) := by
  induction xs with
  | nil => exact .pure ()
  | cons x rest ih =>
    exact (h x List.mem_cons_self).bind (ih fun y hy => h y (List.mem_cons_of_mem _ hy))

/-- A step for every element stops if one of them does, when there is one reason to stop only. -/
theorem Ends.forM_stop {xs : List α} {step : α → Reading PUnit} {e : Failure}
    (h : ∀ x ∈ xs, Ends (step x) (.ok ()) ∨ Ends (step x) (.error e))
    (hstops : ∃ x ∈ xs, Ends (step x) (.error e)) : Ends (xs.forM step) (.error e) := by
  induction xs with
  | nil => exact absurd hstops fun ⟨_, hx, _⟩ => nomatch hx
  | cons x rest ih =>
    rcases h x List.mem_cons_self with hx | hx
    · refine hx.bind (ih (fun y hy => h y (List.mem_cons_of_mem _ hy)) ?_)
      obtain ⟨y, hy, hstop⟩ := hstops
      rcases List.mem_cons.mp hy with rfl | hy
      · -- The first element did not stop.
        obtain ⟨w₁, hok⟩ := hx []
        obtain ⟨w₂, herror⟩ := hstop []
        cases (Prod.mk.inj (hok.symm.trans herror)).1
      · exact ⟨y, hy, hstop⟩
    · exact hx.stop

theorem Ends.ofExcept_bind {r : Except Failure α} {g : α → Except Failure β}
    (hf : ∀ x, r = .ok x → Ends (f x) (g x)) : Ends (Reading.ofExcept r >>= f) (r >>= g) := by
  match r with
  | .ok x => exact (Ends.pure x).bind (hf x rfl)
  | .error e => exact (Ends.throw e).stop

/-- **A reading is explained**: it gives a result, or it says what is wrong with the settings. -/
def Explained (c : Reading α) (w : List String) : Prop :=
  (∃ x w', Gives c w x w') ∨ ∃ cause w', Stops c w (.settings cause) w'

theorem Ends.explained {x : α} (h : Ends c (.ok x)) (w : List String) : Explained c w :=
  have ⟨w', hgives⟩ := h w
  .inl ⟨x, w', hgives⟩

theorem Ends.explained_of_settings {cause : SettingsFault} (h : Ends c (.error (.settings cause)))
    (w : List String) : Explained c w :=
  have ⟨w', hstops⟩ := h w
  .inr ⟨cause, w', hstops⟩

theorem not_explained {e : Failure} {w' : List String} (h : Stops c w e w')
    (he : ∀ cause, e ≠ .settings cause) : ¬Explained c w := by
  rintro (⟨x, w₁, hgives⟩ | ⟨cause, w₁, hstops⟩)
  · cases (Prod.mk.inj (h.symm.trans hgives)).1
  · exact he cause (Except.error.inj (Prod.mk.inj (h.symm.trans hstops)).1)

instance (c : Reading α) (w : List String) : Decidable (Explained c w) :=
  match h : c.run.run w with
  | (.ok x, w') => .isTrue (.inl ⟨x, w', h⟩)
  | (.error (.settings cause), w') => .isTrue (.inr ⟨cause, w', h⟩)
  | (.error (.absent _), _) | (.error (.corrupt ..), _) | (.error (.conflict ..), _)
  | (.error (.cycle _), _) | (.error (.fingerprint _), _) | (.error (.disk _), _)
  | (.error (.value _), _) | (.error .notYaml, _) | (.error (.linkCircle _), _)
  | (.error (.markup _), _) => .isFalse (not_explained h nofun)

end Reading

namespace Settings

open Reading

/-! ## Files -/

/-- A file can be read, or there is none. -/
def Readable (d : Disk) (file : Path) : Prop :=
  (contentAt d file).isSome ∨ fileExists d file = .ok false

instance (d : Disk) (file : Path) : Decidable (Readable d file) :=
  inferInstanceAs (Decidable (_ ∨ _))

/-- An unknown section has a name that cannot be shown. -/
def HasUnnamed (es : Entries) : Prop :=
  ∃ e ∈ es, isOneOf e.1 knownSections = false ∧ e.1.holdsLong

/-- A file for all projects leaves out what only a project may set. -/
def Shareable (es : Entries) : Prop := projectSection? es = none

/-- A project's file may hold everything. -/
def Unrestricted (_ : Entries) : Prop := True

/-- **Why a file's fault escapes**; `allowed` says which entries are looked at any further. -/
inductive FileEscapes (d : Disk) (file : Path) (allowed : Entries → Prop) : Fault → Prop
  | undecodable {content : Bytes} {g : Text.Utf8Fault} (hcontent : contentAt d file = some content)
      (h : Text.decodeUtf8 content = .error g) : FileEscapes d file allowed (.decoding g)
  | scalar {content : Bytes} {f : Fault} (hcontent : contentAt d file = some content)
      (h : Yaml.ofBytes content = .error (.value f)) (hf : Yaml.ScalarFault f) :
      FileEscapes d file allowed f
  | key {es : Entries} (h : FileHolds d file es) (hallowed : allowed es) (hkey : HasUnnamed es) :
      FileEscapes d file allowed .intTooLong

/-- **A file is passed**: it is read, or there is none, and nothing is wrong with its keys. -/
structure Passes (d : Disk) (file : Path) (allowed : Entries → Prop) (es : Entries) : Prop where
  holds : FileHolds d file es
  allowed : allowed es
  named : ¬HasUnnamed es

section files
variable {d : Disk} {file shared folder : Path} {named : Option Path} {es base : Entries}
  {allowed : Entries → Prop} {f : Fault}

/-- The warning about a section. -/
def warnAbout (file : Path) (e : Value × Value) : Reading Unit :=
  if isOneOf e.1 knownSections then pure ()
  else do
    let key ← Reading.ofExcept (valueFailure e.1.toText)
    warn s!"Unknown config key '{key}' in '{file.text}' — ignored."

theorem warnUnknown_eq : warnUnknown es file = es.forM (warnAbout file) := rfl

theorem ends_warnAbout {e : Value × Value}
    (h : ¬(isOneOf e.1 knownSections = false ∧ e.1.holdsLong)) :
    Ends (warnAbout file e) (.ok ()) := by
  unfold warnAbout
  cases hknown : isOneOf e.1 knownSections with
  | true => exact .pure ()
  | false =>
    have hshown : e.1.toText = .ok e.1.display := if_neg fun hlong => h ⟨hknown, hlong⟩
    exact .bind (.ofExcept (valueFailure_eq_ok.mpr hshown)) (.warn _)

theorem ends_warnAbout_of_unnamed {e : Value × Value} (hunknown : isOneOf e.1 knownSections = false)
    (hlong : e.1.holdsLong) : Ends (warnAbout file e) (.error (.value .intTooLong)) := by
  rw [warnAbout, hunknown, if_neg Bool.false_ne_true, Value.toText_eq_error.mpr ⟨hlong, rfl⟩]
  exact .stop (.ofExcept rfl)

/-- **Unknown sections are warned about**, unless the name of one cannot be shown. -/
theorem ends_warnUnknown (hnamed : ¬HasUnnamed es) : Ends (warnUnknown es file) (.ok ()) := by
  rw [warnUnknown_eq]
  exact .forM fun e he => ends_warnAbout fun h => hnamed ⟨e, he, h⟩

theorem ends_warnUnknown_of_unnamed (hkey : HasUnnamed es) :
    Ends (warnUnknown es file) (.error (.value .intTooLong)) := by
  obtain ⟨e, he, hunknown, hlong⟩ := hkey
  rw [warnUnknown_eq]
  refine .forM_stop (fun x _ => ?_) ⟨e, he, ends_warnAbout_of_unnamed hunknown hlong⟩
  by_cases hx : isOneOf x.1 knownSections = false ∧ x.1.holdsLong
  · exact .inr (ends_warnAbout_of_unnamed hx.1 hx.2)
  · exact .inl (ends_warnAbout hx)

/-- **A file that can be read** has a fault that escapes, or it is passed, or what is wrong with
    it is explained. -/
theorem fileEscapes_or_passes (h : Readable d file) (hnone : allowed []) :
    (∃ f, FileEscapes d file allowed f) ∨ (∃ es, Passes d file allowed es) ∨
      fileExists d file = .ok true ∧ ((∃ cause, readSettingsFile d file = .error (.settings cause)) ∨
        ∃ es, readSettingsFile d file = .ok es ∧ ¬allowed es) := by
  rcases h with hsome | habsent
  · obtain ⟨content, hcontent⟩ := Option.isSome_iff_exists.mp hsome
    have hexists := fileExists_of_contentAt hcontent
    have hread := readSettingsFile_of_contentAt hcontent
    -- Bytes come to nothing for one of three reasons, or they are a document with keys to look at.
    rcases hv : Yaml.ofBytes content with (f | - | f) | v
    · rcases Yaml.ofBytes_error hv with ⟨_, _, h⟩ | h | ⟨_, _, h⟩ <;> cases h
    · exact .inr (.inr ⟨hexists, .inl ⟨_, by rw [hread, hv]⟩⟩)
    · rcases Yaml.ofBytes_error hv with ⟨g, hg, h⟩ | h | ⟨g, hg, h⟩
      · exact .inl ⟨_, .undecodable hcontent hg⟩
      · cases h
      · cases h
        exact .inl ⟨_, .scalar hcontent hv hg⟩
    · rw [hv] at hread
      dsimp only at hread
      split at hread
      · next es _ _ =>
        by_cases hallowed : allowed es
        · by_cases hkey : HasUnnamed es
          · exact .inl ⟨_, .key (.inl ⟨hexists, hread⟩) hallowed hkey⟩
          · exact .inr (.inl ⟨es, .inl ⟨hexists, hread⟩, hallowed, hkey⟩)
        · exact .inr (.inr ⟨hexists, .inr ⟨es, hread, hallowed⟩⟩)
      · exact .inr (.inr ⟨hexists, .inl ⟨_, hread⟩⟩)
  · exact .inr (.inl ⟨[], .inr ⟨habsent, rfl⟩, hnone, fun ⟨_, h, _⟩ => nomatch h⟩)

/-- A fault that escapes stops the reading of its file, or what is read has a name that cannot be
    shown. -/
theorem read_of_fileEscapes (h : FileEscapes d file allowed f) : fileExists d file = .ok true ∧
    (readSettingsFile d file = .error (.value f) ∨
      ∃ es, readSettingsFile d file = .ok es ∧ allowed es ∧ HasUnnamed es ∧ f = .intTooLong) := by
  cases h with
  | undecodable hcontent h =>
    refine ⟨fileExists_of_contentAt hcontent, .inl ?_⟩
    rw [readSettingsFile_of_contentAt hcontent, Yaml.ofBytes, h]
    rfl
  | scalar hcontent h hf =>
    refine ⟨fileExists_of_contentAt hcontent, .inl ?_⟩
    rw [readSettingsFile_of_contentAt hcontent, h]
    rfl
  | key h hallowed hkey =>
    rcases h with ⟨hexists, hread⟩ | ⟨-, rfl⟩
    · exact ⟨hexists, .inr ⟨_, hread, hallowed, hkey, rfl⟩⟩
    · obtain ⟨_, h, _⟩ := hkey
      cases h

/-! ## The two files -/

/-- **The file for all projects** is merged if it is passed. -/
theorem ends_sharedEntries (h : Passes d file Shareable es) :
    Ends (sharedEntries d file) (.ok (mergeEntries [] es)) := by
  obtain ⟨⟨hexists, hread⟩ | ⟨habsent, rfl⟩, hallowed, hnamed⟩ := h
  · refine (Ends.ofExcept hexists).bind ((Ends.ofExcept hread).bind ?_)
    rw [show projectSection? es = none from hallowed]
    exact (ends_warnUnknown hnamed).bind (.pure _)
  · exact (Ends.ofExcept habsent).bind (.pure _)

theorem ends_sharedEntries_of_escapes (h : FileEscapes d file Shareable f) :
    Ends (sharedEntries d file) (.error (.value f)) := by
  obtain ⟨hexists, hread | ⟨es, hread, hallowed, hkey, rfl⟩⟩ := read_of_fileEscapes h
  · exact (Ends.ofExcept hexists).bind (Ends.ofExcept hread).stop
  · refine (Ends.ofExcept hexists).bind ((Ends.ofExcept hread).bind ?_)
    rw [show projectSection? es = none from hallowed]
    exact (ends_warnUnknown_of_unnamed hkey).stop

/-- **The project's file** is merged over the other one if it is passed. -/
theorem ends_projectEntries (h : Passes d (projectFile folder named) Unrestricted es)
    (hthere : named = none ∨ fileExists d (projectFile folder named) = .ok true) :
    Ends (projectEntries d base folder named) (.ok (mergeEntries base es)) := by
  obtain ⟨⟨hexists, hread⟩ | ⟨habsent, rfl⟩, -, hnamed⟩ := h
  · exact (Ends.ofExcept hexists).bind ((Ends.ofExcept hread).bind
      ((ends_warnUnknown hnamed).bind (.pure _)))
  · rcases hthere with rfl | hexists
    · exact (Ends.ofExcept habsent).bind (.pure _)
    · cases hexists.symm.trans habsent

theorem ends_projectEntries_of_escapes
    (h : FileEscapes d (projectFile folder named) Unrestricted f) :
    Ends (projectEntries d base folder named) (.error (.value f)) := by
  obtain ⟨hexists, hread | ⟨es, hread, -, hkey, rfl⟩⟩ := read_of_fileEscapes h
  · exact (Ends.ofExcept hexists).bind (Ends.ofExcept hread).stop
  · exact (Ends.ofExcept hexists).bind ((Ends.ofExcept hread).bind
      (ends_warnUnknown_of_unnamed hkey).stop)

/-- The file for all projects has a fault that escapes, or it is passed, or it is explained what is
    wrong with it. -/
theorem escapes_or_sharedEntries (h : Readable d file) :
    (∃ f, FileEscapes d file Shareable f) ∨ (∃ es, Passes d file Shareable es) ∨
      ∃ cause, Ends (sharedEntries d file) (.error (.settings cause)) := by
  rcases fileEscapes_or_passes h (show Shareable [] from rfl) with
    h | h | ⟨hexists, ⟨cause, hread⟩ | ⟨es, hread, hsection⟩⟩
  · exact .inl h
  · exact .inr (.inl h)
  · exact .inr (.inr ⟨cause, (Ends.ofExcept hexists).bind (Ends.ofExcept hread).stop⟩)
  · obtain ⟨key, hkey⟩ := Option.ne_none_iff_exists'.mp hsection
    refine .inr (.inr ⟨.projectSection file.text key.display,
      (Ends.ofExcept hexists).bind ((Ends.ofExcept hread).bind ?_)⟩)
    rw [hkey]
    exact (Ends.throw _).stop

/-- The project's file has a fault that escapes, or it is passed and is there where it was asked
    for, or it is explained what is wrong with it. -/
theorem escapes_or_projectEntries (h : Readable d (projectFile folder named)) :
    (∃ f, FileEscapes d (projectFile folder named) Unrestricted f) ∨
      (∃ es, Passes d (projectFile folder named) Unrestricted es ∧
        (named = none ∨ fileExists d (projectFile folder named) = .ok true)) ∨
      ∀ base, ∃ cause, Ends (projectEntries d base folder named) (.error (.settings cause)) := by
  rcases fileEscapes_or_passes h (show Unrestricted [] from trivial) with
    h | ⟨es, hes⟩ | ⟨hexists, ⟨cause, hread⟩ | ⟨es, -, hes⟩⟩
  · exact .inl h
  · rcases hes.holds with ⟨hexists, -⟩ | ⟨habsent, -⟩
    · exact .inr (.inl ⟨es, hes, .inr hexists⟩)
    · match named with
      | none => exact .inr (.inl ⟨es, hes, .inl rfl⟩)
      | some p => exact .inr (.inr fun _ => ⟨_, (Ends.ofExcept habsent).bind (.throw _)⟩)
  · exact .inr (.inr fun _ => ⟨cause, (Ends.ofExcept hexists).bind (Ends.ofExcept hread).stop⟩)
  · exact absurd trivial hes

end files

/-! ## Checks -/

section checks
variable {sources : List Source} {f : Failure}

/-- A failure that is explained, or that of a URL of one of the sources. -/
def ExplainedOrUrl (sources : List Source) (f : Failure) : Prop :=
  (∃ cause, f = .settings cause) ∨
    ∃ x ∈ sources, ∃ u, Url.parts x.git.url = .error u ∧ f = .value (.url u)

theorem failsOnly_checkUrl (source url : String) : FailsOnly
    (fun f => (∃ cause, f = .settings cause) ∨
      ∃ u, Url.parts url = .error u ∧ f = .value (.url u)) (Url.check source url) := by
  unfold Url.check
  refine .ite (.error (.inl ⟨_, rfl⟩)) (.ite (.ok _) ?_)
  split
  · next u hu => exact .error (.inr ⟨u, hu, rfl⟩)
  · dsimp only
    exact .ite (.error (.inl ⟨_, rfl⟩)) (.ite (.error (.inl ⟨_, rfl⟩)) (.ok _))

theorem failsOnly_checkEach (seen : List String) (sources : List Source) :
    FailsOnly (ExplainedOrUrl sources) (checkEach seen sources) := by
  induction sources generalizing seen with
  | nil => exact .ok _
  | cons s rest ih =>
    rw [checkEach]
    split
    · refine (ih _).mono fun f h => h.imp_right ?_
      rintro ⟨x, hx, h⟩
      exact ⟨x, List.mem_cons_of_mem _ hx, h⟩
    · next f hcheck =>
      have hsource : FailsOnly (ExplainedOrUrl (s :: rest)) (s.check seen) := by
        refine .ite (.error (.inl ⟨_, rfl⟩)) (.ite (.error (.inl ⟨_, rfl⟩))
          (.ite (.error (.inl ⟨_, rfl⟩)) ((failsOnly_checkUrl _ _).mono fun f h => ?_)))
        exact h.imp_right fun h => ⟨s, List.mem_cons_self, h⟩
      exact .error (hsource f hcheck)

theorem failsOnly_checkNeeds (s : Source) (names wanted : List String) :
    FailsOnly (fun f => ∃ cause, f = .settings cause) (s.checkNeeds names wanted) := by
  induction wanted with
  | nil => exact .ok _
  | cons d rest ih =>
    rw [Source.checkNeeds]
    exact .ite (.error ⟨_, rfl⟩) (.ite (.error ⟨_, rfl⟩) ih)

theorem failsOnly_checkAllNeeds (names : List String) (sources : List Source) :
    FailsOnly (fun f => ∃ cause, f = .settings cause) (checkAllNeeds names sources) := by
  induction sources with
  | nil => exact .ok _
  | cons s rest ih =>
    rw [checkAllNeeds]
    split
    · exact ih
    · next f hneeds => exact .error (failsOnly_checkNeeds s names _ f hneeds)

/-- **Sources that are not accepted** are explained, but for a URL that cannot be taken apart. -/
theorem failsOnly_checkSources (sources : List Source) :
    FailsOnly (ExplainedOrUrl sources) (checkSources sources) := by
  unfold checkSources
  split
  · exact (failsOnly_checkAllNeeds _ _).mono fun _ h => .inl h
  · next f heach => exact .error (failsOnly_checkEach [] sources f heach)

/-- A variable that is no number is explained. -/
theorem failsOnly_override (s : Settings) (vars : Variables) :
    FailsOnly (fun f => ∃ cause, f = .settings cause) (s.override vars) := by
  unfold override
  dsimp only
  split
  · exact .ok _
  · split
    · exact .ok _
    · exact .error ⟨_, rfl⟩

end checks

/-! ## Loading -/

section load
variable {d : Disk} {vars : Variables} {folder shared : Path} {named : Option Path} {es : Entries}
  {f : Fault} {w : List String}

/-- **A document is reached**: both files are passed, a file that was asked for is there, and the
    document is what they hold together. -/
def Reaches (d : Disk) (shared folder : Path) (named : Option Path) (es : Entries) : Prop :=
  ∃ global project, Passes d shared Shareable global ∧
    Passes d (projectFile folder named) Unrestricted project ∧
    (named = none ∨ fileExists d (projectFile folder named) = .ok true) ∧
    es = mergeEntries (mergeEntries [] global) project

/-- **What loading does not explain.** -/
inductive Escapes (d : Disk) (shared folder : Path) (named : Option Path) : Fault → Prop
  | shared {f : Fault} (h : FileEscapes d shared Shareable f) : Escapes d shared folder named f
  | project {global : Entries} {f : Fault} (hshared : Passes d shared Shareable global)
      (h : FileEscapes d (projectFile folder named) Unrestricted f) :
      Escapes d shared folder named f
  | document {es : Entries} {f : Fault} (hes : Reaches d shared folder named es)
      (h : ofDocument es = .error (.value f)) (hf : Unreadable es (.value f)) :
      Escapes d shared folder named f
  | url {es : Entries} {s : Settings} {x : Source} {u : UrlFault}
      (hes : Reaches d shared folder named es) (hs : ofDocument es = .ok s)
      (h : checkSources s.sources = .error (.value (.url u))) (hx : x ∈ s.sources)
      (hu : Url.parts x.git.url = .error u) : Escapes d shared folder named (.url u)

/-- What comes of a document that is reached. -/
def settle (es : Entries) (vars : Variables) : Except Failure Settings := do
  let s ← ofDocument es
  checkSources s.sources
  s.override vars

theorem ends_load (hes : Reaches d shared folder named es) :
    Ends (load d vars folder named shared) (settle es vars) := by
  obtain ⟨global, project, hshared, hproject, hthere, rfl⟩ := hes
  -- Behind the two files nothing warns any more.
  exact (ends_sharedEntries hshared).bind ((ends_projectEntries hproject hthere).bind
    (.ofExcept_bind fun s _ => .ofExcept_bind fun _ _ => .ofExcept rfl))

/-- **A fault that escapes** is what loading comes to. -/
theorem ends_load_of_escapes (h : Escapes d shared folder named f) :
    Ends (load d vars folder named shared) (.error (.value f)) := by
  cases h with
  | shared h => exact (ends_sharedEntries_of_escapes h).stop
  | project hshared h =>
    exact (ends_sharedEntries hshared).bind (ends_projectEntries_of_escapes h).stop
  | document hes h hf =>
    have hsettle : settle _ vars = .error (.value f) := bind_eq_error.mpr (.inl h)
    exact hsettle ▸ ends_load hes
  | url hes hs h hx hu =>
    have hsettle : settle _ vars = .error _ :=
      bind_eq_error.mpr (.inr ⟨_, hs, bind_eq_error.mpr (.inl h)⟩)
    exact hsettle ▸ ends_load hes

/-- A document that is reached gives settings, or it is explained why not, or a fault escapes. -/
theorem escapes_or_settle (hes : Reaches d shared folder named es) :
    (∃ f, Escapes d shared folder named f) ∨ (∃ s, settle es vars = .ok s) ∨
      ∃ cause, settle es vars = .error (.settings cause) := by
  match hsettle : settle es vars with
  | .ok s => exact .inr (.inl ⟨s, rfl⟩)
  | .error e =>
    rcases bind_eq_error.mp hsettle with h | ⟨s, hs, h⟩
    · have hunreadable := failsOnly_ofDocument es e h
      rcases hunreadable.explained_or_value with rfl | ⟨f, rfl⟩
      · exact .inr (.inr ⟨_, rfl⟩)
      · exact .inl ⟨f, .document hes h hunreadable⟩
    · rcases bind_eq_error.mp h with h | ⟨_, -, h⟩
      · rcases failsOnly_checkSources s.sources e h with ⟨cause, rfl⟩ | ⟨x, hx, u, hu, rfl⟩
        · exact .inr (.inr ⟨cause, rfl⟩)
        · exact .inl ⟨_, .url hes hs h hx hu⟩
      · obtain ⟨cause, rfl⟩ := failsOnly_override s vars e h
        exact .inr (.inr ⟨cause, rfl⟩)

/-- **Loading is explained, or a fault escapes.** -/
theorem escapes_or_explained (hshared : Readable d shared)
    (hfile : Readable d (projectFile folder named)) :
    (∃ f, Escapes d shared folder named f) ∨ Explained (load d vars folder named shared) w := by
  rcases escapes_or_sharedEntries hshared with ⟨f, hf⟩ | ⟨global, hglobal⟩ | ⟨cause, hcause⟩
  · exact .inl ⟨f, .shared hf⟩
  · rcases escapes_or_projectEntries hfile with ⟨f, hf⟩ | ⟨project, hproject, hthere⟩ | hcause
    · exact .inl ⟨f, .project hglobal hf⟩
    · have hes : Reaches d shared folder named _ :=
        ⟨global, project, hglobal, hproject, hthere, rfl⟩
      rcases escapes_or_settle hes with h | ⟨s, hs⟩ | ⟨cause, hcause⟩
      · exact .inl h
      · exact .inr (Ends.explained (hs ▸ ends_load hes) w)
      · exact .inr (Ends.explained_of_settings (hcause ▸ ends_load hes) w)
    · obtain ⟨cause, hcause⟩ := hcause (mergeEntries [] global)
      exact .inr (((ends_sharedEntries hglobal).bind hcause.stop).explained_of_settings w)
  · exact .inr (hcause.stop.explained_of_settings w)

/-- **Loading is explained exactly where nothing escapes**: it gives settings or says what is wrong
    with them, unless one of the faults is there, and then it fails with this fault.  Settings
    never come of a document that has a fault of its shape. -/
theorem load_explained_iff (hshared : Readable d shared)
    (hfile : Readable d (projectFile folder named)) :
    (Explained (load d vars folder named shared) w ↔ ∀ f, ¬Escapes d shared folder named f) ∧
      (∀ f, Escapes d shared folder named f →
        ∃ w', Stops (load d vars folder named shared) w (.value f) w') ∧
      ∀ es e, Reaches d shared folder named es → Unreadable es e →
        ∀ s w', ¬Gives (load d vars folder named shared) w s w' := by
  refine ⟨⟨fun hexplained f hf => ?_, fun hnone => ?_⟩, fun f hf => ends_load_of_escapes hf w, ?_⟩
  · obtain ⟨w', hstops⟩ := ends_load_of_escapes hf w
    exact not_explained hstops nofun hexplained
  · exact (escapes_or_explained hshared hfile).resolve_left fun ⟨f, hf⟩ => hnone f hf
  · intro es e hes he s w' hgives
    match h : ofDocument es with
    | .ok s' => exact absurd he (exists_ofDocument_iff.mp ⟨s', h⟩ e)
    | .error e' =>
      -- The document fails, though perhaps for another reason than the one at hand.
      have hsettle : settle es vars = .error e' := bind_eq_error.mpr (.inl h)
      have hends : Ends (load d vars folder named shared) (.error e') := hsettle ▸ ends_load hes
      obtain ⟨w₁, hstops⟩ := hends w
      cases (Prod.mk.inj (hstops.symm.trans hgives)).1

end load

/-- Bytes that are no text are not explained. -/
theorem load_explained_iff_of_bytes :
    Readable (aloneDisk [0xFF]) sharedFile ∧ Readable (aloneDisk [0xFF]) (projectFile ⟨0, []⟩ none) ∧
      ∃ w', Stops (loadLayered (aloneDisk [0xFF])) [] (.value (.decoding ⟨.badStart, 0, 1, 0xFF⟩))
        w' := by
  obtain ⟨habsent, hcontent⟩ : fileExists (aloneDisk [0xFF]) sharedFile = .ok false ∧
      contentAt (aloneDisk [0xFF]) (projectFile ⟨0, []⟩ none) = some [0xFF] := by decide
  have hshared : Readable (aloneDisk [0xFF]) sharedFile := .inr habsent
  have hfile : Readable (aloneDisk [0xFF]) (projectFile ⟨0, []⟩ none) :=
    .inl (Option.isSome_iff_exists.mpr ⟨_, hcontent⟩)
  have hpasses : Passes (aloneDisk [0xFF]) sharedFile Shareable [] :=
    ⟨.inr ⟨habsent, rfl⟩, rfl, fun ⟨_, h, _⟩ => nomatch h⟩
  exact ⟨hshared, hfile,
    (load_explained_iff hshared hfile).2.1 _ (.project hpasses (.undecodable hcontent rfl))⟩

/-- **Loading fails without an explanation**: on bytes that are no text, on a flag that is none, on a
    section and a source that are no mappings, on a number that is none, and on a URL with an open
    bracket. -/
theorem load_misses_explanation :
    ([0xFF] :: ["!!bool maybe", "lockfile: [1]", "sources: [5]", "generation: {max_workers: a}",
      "sources:\n- name: a\n  type: crd\n  git:\n    url: ssh://["].map (·.toUTF8.toList)).all
      fun content => Readable (aloneDisk content) sharedFile ∧
        Readable (aloneDisk content) (projectFile ⟨0, []⟩ none) ∧
        ¬Explained (loadLayered (aloneDisk content)) [] := by
  decide +kernel

end Settings

end Regen
