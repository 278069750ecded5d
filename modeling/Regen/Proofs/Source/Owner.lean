import Regen.Proofs.Disk.Below
import Regen.Proofs.Ledger
import Regen.Proofs.Outcome
import Regen.Source.Record

/-! # Scanned files and their owners

    However many output folders are scanned, and whatever lies in several of them, every file has
    one record, and its time has an offset.  A file that can be read and lies below the output
    folder of a source is recorded under its real path.  When it lies below the folders of several
    sources, itself or through links, each of them is scanned in turn and the last one becomes its
    owner. -/

namespace Regen

/-! ## Records -/

/-- Every file has one record, with a time that has an offset. -/
structure Scanned (files : Ledger FileRecord) : Prop where
  distinct : files.names.Nodup
  modifiedAt : ∀ e ∈ files, e.2.modifiedAt.offset.isSome

theorem scanned_nil : Scanned [] := ⟨List.nodup_nil, fun _ h => absurd h List.not_mem_nil⟩

theorem Scanned.insert {files : Ledger FileRecord} (h : Scanned files) (path : String)
    {r : FileRecord} (hr : r.modifiedAt.offset.isSome) : Scanned (files.insert path r) where
  distinct := Ledger.nodup_names_insert h.distinct
  modifiedAt e he := by
    rcases Ledger.mem_of_mem_insert he with rfl | he
    · exact hr
    · exact h.modifiedAt e he

section scanning
variable {h : Host} {base : Path} {files files' : Ledger FileRecord}

/-- The moment of a change has an offset. -/
theorem offset_of_changeMoment {nanos : Int} {t : Time.Moment} (h : changeMoment nanos = .ok t) :
    t.offset.isSome := by
  unfold changeMoment at h
  dsimp only at h
  split at h
  · cases h
  · obtain rfl := Except.ok.inj h
    rfl

theorem offset_of_checksum {p : Path} {owner : String} {fileType : Option String} {r : FileRecord}
    (hr : checksum h p owner fileType = .ok r) : r.modifiedAt.offset.isSome := by
  unfold checksum at hr
  split at hr
  · cases hr
  · split at hr
    · cases hr
    · split at hr
      · cases hr
      · obtain ⟨t, ht, hr⟩ := bind_eq_ok.mp (mapError_eq_ok.mp hr)
        obtain rfl := Except.ok.inj hr
        exact offset_of_changeMoment ht

theorem Scanned.scanFiles {owner : String} {paths : List Path} (hfiles : Scanned files)
    (hscan : scanFiles h base owner files paths = .ok files') : Scanned files' := by
  induction paths generalizing files with
  | nil => exact Except.ok.inj hscan ▸ hfiles
  | cons p rest ih =>
    rw [Regen.scanFiles] at hscan
    split at hscan
    · next r hr =>
      obtain ⟨real, -, hscan⟩ := bind_eq_ok.mp hscan
      exact ih (hfiles.insert _ (offset_of_checksum hr)) hscan
    · exact ih hfiles hscan
    · cases hscan

theorem Scanned.scanFrom {sources : List Source} (hfiles : Scanned files)
    (hscan : scanFrom h base files sources = .ok files') : Scanned files' := by
  induction sources generalizing files with
  | nil => exact Except.ok.inj hscan ▸ hfiles
  | cons s rest ih =>
    rw [Regen.scanFrom] at hscan
    obtain ⟨isThere, -, hscan⟩ := bind_eq_ok.mp hscan
    split at hscan
    · obtain ⟨paths, -, hscan⟩ := bind_eq_ok.mp hscan
      obtain ⟨scanned, hscanned, hscan⟩ := bind_eq_ok.mp hscan
      exact ih (hfiles.scanFiles hscanned) hscan
    · exact ih hfiles hscan

theorem scanned_of_scanOutputs {sources : List Source}
    (hscan : scanOutputs h sources base = .ok files) : Scanned files := by
  obtain ⟨_, -, hscan⟩ := bind_eq_ok.mp hscan
  exact scanned_nil.scanFrom hscan

end scanning

/-! ## Owners -/

/-- A file can be read, and it is named `key` as seen from the base folder. -/
structure ReadableAs (h : Host) (base p : Path) (key : String) : Prop where
  opens : h.mayOpen p
  reads : ∃ file, h.disk.fileAt p = .ok file
  named : ∃ real, resolvePath h.disk p = .ok real ∧ relativeTo base real = key

/-- **A source has a file**: one that can be read lies below the source's output folder. -/
def HasFile (h : Host) (base : Path) (x : Source) (key : String) : Prop :=
  isFolder h.disk (base / Path.ofText x.outputPath) = .ok true ∧
    ∃ p, h.disk.LiesBelow (base / Path.ofText x.outputPath) p ∧ ReadableAs h base p key

/-- **The last source with a file**: no source behind it has the file too. -/
def LastWith (h : Host) (base : Path) (sources : List Source) (y : Source) (key : String) : Prop :=
  ∃ before after, sources = before ++ y :: after ∧ HasFile h base y key ∧
    ∀ z ∈ after, ¬HasFile h base z key

section owners
variable {h : Host} {base p : Path} {files files' : Ledger FileRecord} {x y : Source}
  {sources : List Source} {key owner : String} {r : FileRecord}

/-! ## The last source with a file -/

theorem LastWith.mem (hlast : LastWith h base sources y key) : y ∈ sources := by
  obtain ⟨before, after, rfl, -⟩ := hlast
  exact List.mem_append_right _ List.mem_cons_self

theorem LastWith.hasFile (hlast : LastWith h base sources y key) : HasFile h base y key := by
  obtain ⟨_, _, _, hfile, _⟩ := hlast
  exact hfile

/-- There is one last source with a file. -/
theorem LastWith.unique {z : Source} (hy : LastWith h base sources y key)
    (hz : LastWith h base sources z key) : y = z := by
  obtain ⟨before, after, rfl, hyfile, hylast⟩ := hy
  obtain ⟨before', after', hsame, hzfile, hzlast⟩ := hz
  -- Were one of them behind the other, that one would not be the last.
  rcases List.append_eq_append_iff.mp hsame with ⟨between, -, hrest⟩ | ⟨between, -, hrest⟩
  · cases between with
    | nil => exact (List.cons.inj hrest).1
    | cons w between =>
      obtain ⟨rfl, rfl⟩ := List.cons.inj hrest
      exact absurd hzfile (hylast z (by simp))
  · cases between with
    | nil => exact (List.cons.inj hrest).1.symm
    | cons w between =>
      obtain ⟨rfl, rfl⟩ := List.cons.inj hrest
      exact absurd hyfile (hzlast y (by simp))

theorem LastWith.cons (hlast : LastWith h base sources y key) (x : Source) :
    LastWith h base (x :: sources) y key := by
  obtain ⟨before, after, rfl, hrest⟩ := hlast
  exact ⟨x :: before, after, rfl, hrest⟩

theorem LastWith.head (hfile : HasFile h base x key)
    (hlater : ∀ z ∈ sources, ¬HasFile h base z key) : LastWith h base (x :: sources) x key :=
  ⟨[], sources, rfl, hfile, hlater⟩

/-- Where some source has a file, one of them is the last. -/
theorem exists_lastWith (hsome : ∃ x ∈ sources, HasFile h base x key) :
    ∃ y, LastWith h base sources y key := by
  induction sources with
  | nil =>
    obtain ⟨_, hx, _⟩ := hsome
    cases hx
  | cons x rest ih =>
    by_cases hlater : ∃ y ∈ rest, HasFile h base y key
    · obtain ⟨y, hy⟩ := ih hlater
      exact ⟨y, hy.cons x⟩
    · obtain ⟨z, hz, hfile⟩ := hsome
      rcases List.mem_cons.mp hz with rfl | hz
      · exact ⟨z, .head hfile fun y hy hyfile => hlater ⟨y, hy, hyfile⟩⟩
      · exact absurd ⟨z, hz, hfile⟩ hlater

/-! ## Scanning -/

/-- A checksum is recorded of the files that can be opened and read. -/
theorem checksum_eq_ok (hr : checksum h p owner none = .ok r) :
    h.mayOpen p ∧ ∃ content changed, h.disk.fileAt p = .ok (content, changed) ∧
      fileRecord content changed p owner none = .ok r := by
  unfold checksum at hr
  split at hr
  · cases hr
  · split at hr
    · cases hr
    · next hopens =>
      split at hr
      · cases hr
      · next content changed hfile =>
        exact ⟨by simpa using hopens, content, changed, hfile, mapError_eq_ok.mp hr⟩

theorem owner_of_checksum (hr : checksum h p owner none = .ok r) : r.owner = owner := by
  obtain ⟨-, content, changed, -, hrecord⟩ := checksum_eq_ok hr
  obtain ⟨t, -, hrecord⟩ := bind_eq_ok.mp hrecord
  rw [← Except.ok.inj hrecord]

/-- The disk does not refuse a file that can be read. -/
theorem ReadableAs.checksum_ne (hp : ReadableAs h base p key) (owner : String) (f : DiskFault) :
    checksum h p owner none ≠ .error (.disk f) := by
  obtain ⟨⟨content, changed⟩, hfile⟩ := hp.reads
  obtain ⟨real, hreal, -⟩ := hp.named
  have hnull : Disk.holdsNull p = false := by
    by_contra hnull
    rw [resolvePath, if_pos (by simpa using hnull)] at hreal
    cases hreal
  rw [checksum, if_neg (Bool.eq_false_iff.mp hnull), if_neg (by simp [hp.opens]), hfile]
  dsimp only
  intro hr
  cases hrecord : fileRecord content changed p owner none with
  | ok r =>
    rw [hrecord] at hr
    cases hr
  | error cause =>
    rw [hrecord] at hr
    cases hr

/-- **Scanning one source's files**: one that can be read is recorded with its checksum, and the
    record of any other name stays. -/
theorem find?_scanFiles {paths : List Path}
    (hscan : scanFiles h base owner files paths = .ok files') (key : String) :
    (∃ p ∈ paths, ReadableAs h base p key ∧
      ∃ r, checksum h p owner none = .ok r ∧ files'.find? key = some r) ∨
    (¬∃ p ∈ paths, ReadableAs h base p key) ∧ files'.find? key = files.find? key := by
  induction paths generalizing files with
  | nil =>
    obtain rfl := Except.ok.inj hscan
    exact .inr ⟨fun ⟨_, hp, _⟩ => (nomatch hp), rfl⟩
  | cons p rest ih =>
    rw [scanFiles] at hscan
    split at hscan
    · next r hr =>
      obtain ⟨real, hreal, hscan⟩ := bind_eq_ok.mp hscan
      obtain ⟨hopens, content, changed, hfile, -⟩ := checksum_eq_ok hr
      have hreads : ∃ file, h.disk.fileAt p = .ok file := ⟨_, hfile⟩
      rcases ih hscan with ⟨p', hp', hfound⟩ | ⟨hnone, hsame⟩
      · exact .inl ⟨p', List.mem_cons_of_mem _ hp', hfound⟩
      · by_cases hkey : relativeTo base real = key
        · refine .inl ⟨p, List.mem_cons_self, ⟨hopens, hreads, real, hreal, hkey⟩, r, hr, ?_⟩
          rw [hsame, hkey, Ledger.find?_insert_self]
        · refine .inr ⟨?_, by rw [hsame, Ledger.find?_insert_of_ne _ _ hkey]⟩
          rintro ⟨p', hp', hread⟩
          rcases List.mem_cons.mp hp' with rfl | hp'
          · obtain ⟨real', hreal', hkey'⟩ := hread.named
            obtain rfl := Except.ok.inj (hreal.symm.trans hreal')
            exact hkey hkey'
          · exact hnone ⟨p', hp', hread⟩
    · next f hf =>
      rcases ih hscan with ⟨p', hp', hfound⟩ | ⟨hnone, hsame⟩
      · exact .inl ⟨p', List.mem_cons_of_mem _ hp', hfound⟩
      · refine .inr ⟨?_, hsame⟩
        rintro ⟨p', hp', hread⟩
        rcases List.mem_cons.mp hp' with rfl | hp'
        · exact hread.checksum_ne owner f hf
        · exact hnone ⟨p', hp', hread⟩
    · cases hscan

/-- **Scanning sources one after the other**: a file that some of them have is recorded with its
    checksum for the last one, and the record of any other name stays. -/
theorem find?_scanFrom (hscan : scanFrom h base files sources = .ok files') (key : String) :
    (∃ y p, LastWith h base sources y key ∧
      h.disk.LiesBelow (base / Path.ofText y.outputPath) p ∧ ReadableAs h base p key ∧
      ∃ r, checksum h p y.name none = .ok r ∧ files'.find? key = some r) ∨
    (∀ x ∈ sources, ¬HasFile h base x key) ∧ files'.find? key = files.find? key := by
  induction sources generalizing files with
  | nil =>
    obtain rfl := Except.ok.inj hscan
    exact .inr ⟨fun _ hx => (nomatch hx), rfl⟩
  | cons x rest ih =>
    rw [scanFrom] at hscan
    obtain ⟨isThere, hthere, hscan⟩ := bind_eq_ok.mp hscan
    split at hscan
    · next hyes =>
      subst hyes
      obtain ⟨paths, hpaths, hscan⟩ := bind_eq_ok.mp hscan
      obtain ⟨scanned, hscanned, hscan⟩ := bind_eq_ok.mp hscan
      have hbelow : h.disk.filesBelow (base / Path.ofText x.outputPath) = .ok paths := by
        cases hlist : h.disk.filesBelow (base / Path.ofText x.outputPath) with
        | ok listed =>
          rw [hlist] at hpaths
          rw [Except.ok.inj hpaths]
        | error f =>
          rw [hlist] at hpaths
          cases hpaths
      have hfile : HasFile h base x key ↔ ∃ p ∈ paths, ReadableAs h base p key := by
        simp only [HasFile, hthere, true_and, Disk.mem_filesBelow hbelow]
      -- A source behind this one overwrites what is scanned here.
      rcases ih hscan with ⟨y, p, hlast, hfound⟩ | ⟨hnone, hsame⟩
      · exact .inl ⟨y, p, hlast.cons x, hfound⟩
      · rcases find?_scanFiles hscanned key with ⟨p, hp, hread, hfound⟩ | ⟨hx, hsame'⟩
        · exact .inl ⟨x, p, .head (hfile.mpr ⟨p, hp, hread⟩) hnone,
            (Disk.mem_filesBelow hbelow).mp hp, hread, hsame ▸ hfound⟩
        · refine .inr ⟨fun z hz => ?_, hsame.trans hsame'⟩
          rcases List.mem_cons.mp hz with rfl | hz
          · exact mt hfile.mp hx
          · exact hnone z hz
    · next hno =>
      have hx : ¬HasFile h base x key := by
        rintro ⟨hyes, -⟩
        rw [hthere] at hyes
        exact hno (Except.ok.inj hyes)
      rcases ih hscan with ⟨y, p, hlast, hfound⟩ | ⟨hnone, hsame⟩
      · exact .inl ⟨y, p, hlast.cons x, hfound⟩
      · refine .inr ⟨fun z hz => ?_, hsame⟩
        rcases List.mem_cons.mp hz with rfl | hz
        · exact hx
        · exact hnone z hz

/-- What is found when one source is scanned is a file of it. -/
theorem hasFile_of_scanFrom (hscan : scanFrom h base [] [x] = .ok files') (hkey : files'.has key) :
    HasFile h base x key := by
  rcases find?_scanFrom hscan key with ⟨y, -, hlast, -⟩ | ⟨-, hnone⟩
  · obtain rfl := List.mem_singleton.mp hlast.mem
    exact hlast.hasFile
  · rw [Ledger.has, hnone] at hkey
    cases hkey

end owners

end Regen
