import Regen.Proofs.Disk.Plain
import Regen.Proofs.Source.Asked
import Regen.Proofs.Source.Checksum
import Regen.Proofs.Source.Owner

/-! # Exact scans

    On a disk without links a scan records exactly the files in the output folders: each file that
    can be read under its own name, for the last source whose output folder covers it
    (`scanOutputs_exact`).  Files have names of their own because a path is read back from its
    text.

    A scan comes to its end if every source is `Scannable`: a path that is too long to be looked
    at, and a time of change that no date has, stop it. -/

namespace Regen

/-! ## What is in an output folder -/

/-- The folder that a source's files are written to, with the place of the base folder. -/
def Source.outputFolder (x : Source) (base : Place) : Path := ⟨1, base⟩ / Path.ofText x.outputPath

/-- **A source's output folder covers a place**: it exists, and the place is in it. -/
structure Source.Covers (x : Source) (d : Disk) (base q : Place) : Prop where
  exists_ : isFolder d (x.outputFolder base) = .ok true
  inside : d.place (x.outputFolder base) <+: q

/-- **The last source that covers a place**: no source behind it covers it too. -/
def LastCovering (d : Disk) (base : Place) (sources : List Source) (y : Source) (q : Place) :
    Prop :=
  ∃ before after, sources = before ++ y :: after ∧ y.Covers d base q ∧
    ∀ z ∈ after, ¬z.Covers d base q

/-- A file that may be opened. -/
structure Host.FileAt (h : Host) (q : Place) (content : Bytes) (changed : Int) : Prop where
  at_ : h.disk.at? q = some (.file content changed)
  opens : h.mayOpen ⟨1, q⟩

/-- **The name of a file**: the path from the base folder to a file in it, and the path from the
    root to any other. -/
def nameFrom (base q : Place) : String :=
  if base <+: q then Path.text ⟨0, q.drop base.length⟩ else Path.text ⟨1, q⟩

/-- **A source can be scanned**: its output folder can be looked at, and if it exists, so can all
    that is below it, and the files there that may be opened have times with dates. -/
structure Source.Scannable (x : Source) (h : Host) (base : Place) : Prop where
  looked : ∃ there, isFolder h.disk (x.outputFolder base) = .ok there
  short : isFolder h.disk (x.outputFolder base) = .ok true → ∀ names e,
    h.disk.at? (h.disk.place (x.outputFolder base) ++ names) = some e →
      (x.outputFolder base / ⟨0, names⟩ : Path).text.utf8ByteSize ≤ Disk.maxPath
  dated : isFolder h.disk (x.outputFolder base) = .ok true → ∀ names content changed,
    h.FileAt (h.disk.place (x.outputFolder base) ++ names) content changed →
      ∃ t, changeMoment changed = .ok t

/-! ## When a scan comes to its end -/

section ending
variable {h : Host} {base : Path} {files files' : Ledger FileRecord} {owner : String}

/-- A file stops a scan only for its value: what the disk refuses is left out. -/
def Goes (h : Host) (owner : String) (p : Path) : Prop :=
  (∃ r real, checksum h p owner none = .ok r ∧ resolvePath h.disk p = .ok real) ∨
    ∃ f, checksum h p owner none = .error (.disk f)

/-- Behind a file that does not stop it a scan goes on. -/
theorem Goes.scanFiles_cons {p : Path} (hgoes : Goes h owner p) (base : Path)
    (files : Ledger FileRecord) (rest : List Path) : ∃ files₁,
      scanFiles h base owner files (p :: rest) = scanFiles h base owner files₁ rest := by
  rcases hgoes with ⟨r, real, hr, hreal⟩ | ⟨f, hf⟩
  · exact ⟨files.insert (relativeTo base real) r, by rw [scanFiles, hr, hreal]; rfl⟩
  · exact ⟨files, by rw [scanFiles, hf]⟩

/-- A file that a scan got past does not stop it. -/
theorem goes_of_scanFiles {p : Path} {rest : List Path}
    (hscan : scanFiles h base owner files (p :: rest) = .ok files') :
    Goes h owner p ∧ ∃ files₁, scanFiles h base owner files₁ rest = .ok files' := by
  rw [scanFiles] at hscan
  split at hscan
  · next r hr =>
    obtain ⟨real, hreal, hscan⟩ := bind_eq_ok.mp hscan
    exact ⟨.inl ⟨r, real, hr, hreal⟩, _, hscan⟩
  · next f hf => exact ⟨.inr ⟨f, hf⟩, files, hscan⟩
  · cases hscan

theorem exists_scanFiles_iff {paths : List Path} :
    (∃ files', scanFiles h base owner files paths = .ok files') ↔ ∀ p ∈ paths, Goes h owner p := by
  induction paths generalizing files with
  | nil => exact ⟨fun _ _ hp => (nomatch hp), fun _ => ⟨files, rfl⟩⟩
  | cons p rest ih =>
    rw [List.forall_mem_cons]
    constructor
    · rintro ⟨files', hscan⟩
      obtain ⟨hgoes, files₁, hrest⟩ := goes_of_scanFiles hscan
      exact ⟨hgoes, ih.mp ⟨files', hrest⟩⟩
    · rintro ⟨hgoes, hrest⟩
      obtain ⟨files₁, hstep⟩ := hgoes.scanFiles_cons base files rest
      rw [hstep]
      exact ih.mpr hrest

/-- A source stops a scan unless its folder can be looked at and listed, and no file in it stops
    the scan. -/
def Passes (h : Host) (owner : String) (folder : Path) : Prop :=
  ∃ there, isFolder h.disk folder = .ok there ∧ (there = true →
    ∃ paths, h.disk.filesBelow folder = .ok paths ∧ ∀ p ∈ paths, Goes h owner p)

theorem exists_scanFrom_iff {sources : List Source} :
    (∃ files', scanFrom h base files sources = .ok files') ↔
      ∀ x ∈ sources, Passes h x.name (base / Path.ofText x.outputPath) := by
  induction sources generalizing files with
  | nil => exact ⟨fun _ _ hx => (nomatch hx), fun _ => ⟨files, rfl⟩⟩
  | cons x rest ih =>
    rw [List.forall_mem_cons]
    constructor
    · rintro ⟨files', hscan⟩
      rw [scanFrom] at hscan
      obtain ⟨there, hthere, hscan⟩ := bind_eq_ok.mp hscan
      split at hscan
      · obtain ⟨paths, hpaths, hscan⟩ := bind_eq_ok.mp hscan
        obtain ⟨scanned, hscanned, hscan⟩ := bind_eq_ok.mp hscan
        have hgoes := exists_scanFiles_iff.mp ⟨scanned, hscanned⟩
        exact ⟨⟨there, hthere, fun _ => ⟨paths, mapError_eq_ok.mp hpaths, hgoes⟩⟩,
          ih.mp ⟨files', hscan⟩⟩
      · next hno => exact ⟨⟨there, hthere, fun hyes => absurd hyes hno⟩, ih.mp ⟨files', hscan⟩⟩
    · rintro ⟨⟨there, hthere, hlist⟩, hrest⟩
      simp only [scanFrom, bind_eq_ok]
      by_cases hyes : there = true
      · obtain ⟨paths, hpaths, hgoes⟩ := hlist hyes
        obtain ⟨scanned, hscanned⟩ :
            ∃ scanned, scanFiles h base x.name files paths = .ok scanned :=
          exists_scanFiles_iff.mpr hgoes
        obtain ⟨files', hscan⟩ : ∃ files', scanFrom h base scanned rest = .ok files' :=
          ih.mpr hrest
        refine ⟨files', there, hthere, ?_⟩
        rw [if_pos hyes]
        exact bind_eq_ok.mpr ⟨paths, mapError_eq_ok.mpr hpaths,
          bind_eq_ok.mpr ⟨scanned, hscanned, hscan⟩⟩
      · obtain ⟨files', hscan⟩ : ∃ files', scanFrom h base files rest = .ok files' := ih.mpr hrest
        exact ⟨files', there, hthere, by rw [if_neg hyes]; exact hscan⟩

end ending

/-! ## Names of files -/

section names
variable {d : Disk} {base q q' : Place}

theorem relativeTo_eq (base q : Place) : relativeTo ⟨1, base⟩ ⟨1, q⟩ = nameFrom base q := by
  rw [relativeTo, nameFrom]
  by_cases hin : base <+: q
  · rw [if_pos hin, if_pos (by simpa using hin)]
  · rw [if_neg hin, if_neg (by simpa using hin)]

/-- **Distinct files have distinct names.** -/
theorem eq_of_nameFrom (hd : d.Plain) {e e' : Entry} (hq : d.at? q = some e)
    (hq' : d.at? q' = some e') (h : nameFrom base q = nameFrom base q') : q = q' := by
  have hpart : ∀ {q : Place} {e : Entry}, d.at? q = some e → ∀ s ∈ q, Path.IsPart s :=
    fun hat s hs => (hd.isName hat hs).toIsPart
  have hdrop : ∀ {q : Place} {e : Entry}, d.at? q = some e →
      ∀ s ∈ q.drop base.length, Path.IsPart s :=
    fun hat s hs => hpart hat s (List.mem_of_mem_drop hs)
  unfold nameFrom at h
  -- The first slash tells which of the two ways a file is named.
  split at h
  · next hin =>
    split at h
    · next hin' =>
      have hsame := Path.eq_of_text (Nat.zero_le 2) (hdrop hq) (Nat.zero_le 2) (hdrop hq') h
      have hrest := (Path.mk.inj hsame).2
      obtain ⟨rest, rfl⟩ := hin
      obtain ⟨rest', rfl⟩ := hin'
      rw [List.drop_left, List.drop_left] at hrest
      rw [hrest]
    · have hsame := Path.eq_of_text (Nat.zero_le 2) (hdrop hq) (Nat.le_succ 1) (hpart hq') h
      cases (Path.mk.inj hsame).1
  · split at h
    · have hsame := Path.eq_of_text (Nat.le_succ 1) (hpart hq) (Nat.zero_le 2) (hdrop hq') h
      cases (Path.mk.inj hsame).1
    · have hsame := Path.eq_of_text (Nat.le_succ 1) (hpart hq) (Nat.le_succ 1) (hpart hq') h
      exact (Path.mk.inj hsame).2

end names

/-! ## Files below an output folder -/

/-- **A path reaches a file** at a place: it is read there, and it is the file's real path that
    says whether it may be opened and how it is named. -/
structure Reaches (h : Host) (p : Path) (q : Place) (content : Bytes) (changed : Int) : Prop where
  noNull : Disk.holdsNull p = false
  reads : h.disk.fileAt p = .ok (content, changed)
  real : resolvePath h.disk p = .ok ⟨1, q⟩
  opens : h.mayOpen p = h.mayOpen ⟨1, q⟩
  name : p.name = (⟨1, q⟩ : Path).name

section below
variable {h : Host} {folder p : Path} {q : Place} {names : List String} {content : Bytes}
  {changed : Int} {owner : String} {r : FileRecord} {e : Entry}

theorem located_of_isFolder {d : Disk} (hd : d.Plain) (hthere : isFolder d folder = .ok true) :
    Disk.holdsNull folder = false ∧ d.locate folder true = .ok (.found (d.place folder) .folder) ∧
      d.at? (d.place folder) = some .folder := by
  obtain ⟨hnull, q, hlocate⟩ := Disk.isFolder?_iff.mp (mapError_eq_ok.mp hthere)
  obtain ⟨rfl, hat⟩ := hd.locate_found hlocate
  exact ⟨hnull, hlocate, hat⟩

/-- What is found below a folder and is no folder is not the folder itself. -/
theorem below_of_file {d : Disk} (hd : d.Plain) (hthere : isFolder d folder = .ok true)
    (hat : d.at? (d.place folder ++ names) = some (.file content changed)) :
    d.Below (d.place folder) names := by
  obtain ⟨-, -, hfolder⟩ := located_of_isFolder hd hthere
  refine hd.rooted.below hat ?_
  rintro rfl
  rw [List.append_nil, hfolder] at hat
  cases hat

/-- A file at a place below a folder lies below it, by a path that is not too long. -/
theorem liesBelow_of_file {d : Disk} (hd : d.Plain) (hthere : isFolder d folder = .ok true)
    (hat : d.at? (d.place folder ++ names) = some (.file content changed))
    (hshort : (folder / ⟨0, names⟩ : Path).text.utf8ByteSize ≤ Disk.maxPath) :
    d.LiesBelow folder (folder / ⟨0, names⟩) := by
  obtain ⟨hnull, hlocate, -⟩ := located_of_isFolder hd hthere
  have hbelow := below_of_file hd hthere hat
  refine ⟨_, names, hlocate, hbelow, rfl, ?_⟩
  rw [hd.isFile?_below hnull hlocate hbelow hat, if_neg (Nat.not_lt.mpr hshort)]

/-- **What lies below a folder reaches a file** at the place that is below the folder's. -/
theorem reaches_of_liesBelow (hd : h.disk.Plain) (hthere : isFolder h.disk folder = .ok true)
    (hlies : h.disk.LiesBelow folder p) :
    ∃ names content changed, p = folder / ⟨0, names⟩ ∧
      h.disk.at? (h.disk.place folder ++ names) = some (.file content changed) ∧
      Reaches h p (h.disk.place folder ++ names) content changed := by
  obtain ⟨hnull, hlocate, -⟩ := located_of_isFolder hd hthere
  obtain ⟨place, names, hlocate', hbelow, rfl, hfile⟩ := hlies
  obtain ⟨rfl, -⟩ := Spot.found.inj (Except.ok.inj (hlocate.symm.trans hlocate'))
  obtain ⟨e, hat⟩ := hbelow.exists_at?
  have hnull' := (hd.holdsNull_below hat).trans hnull
  rw [hd.isFile?_below hnull hlocate hbelow hat] at hfile
  split at hfile
  · cases hfile
  · next hshort =>
    match e with
    | .folder | .link _ => cases hfile
    | .file content changed =>
      have hup : ".." ∉ names := fun hmem =>
        (hd.isName hat (List.mem_append_right _ hmem)).ne_up rfl
      have hplace : h.disk.place (folder / ⟨0, names⟩) = h.disk.place folder ++ names :=
        (Disk.climb_append _ _ _).trans (Disk.climb_of_names _ hup)
      refine ⟨names, content, changed, rfl, hat, hnull', ?_, ?_, ?_, ?_⟩
      · rw [Disk.fileAt, hd.locate_below hlocate hbelow hat, if_neg hshort]
      · rw [hd.resolvePath_eq hnull', hplace]
      · have hroot : h.disk.place ⟨1, h.disk.place folder ++ names⟩ =
            h.disk.place folder ++ names := hd.climb_nil hat
        rw [Host.mayOpen, Host.mayOpen, hd.realPath_eq, hd.realPath_eq, hplace, hroot]
      · have hne : names ≠ [] := by
          rintro rfl
          cases hbelow
        have hparts : (folder / ⟨0, names⟩ : Path).parts = folder.parts ++ names := rfl
        rw [Path.name, Path.name, hparts, List.getLast?_append_of_ne_nil _ hne,
          List.getLast?_append_of_ne_nil _ hne]

/-- The record of what is reached is that of the file. -/
theorem Reaches.record (hreach : Reaches h p q content changed)
    (hr : checksum h p owner none = .ok r) :
    h.mayOpen ⟨1, q⟩ ∧ r.Of content changed ⟨1, q⟩ owner := by
  obtain ⟨hopens, content', changed', hfile, hrecord⟩ := checksum_eq_ok hr
  obtain ⟨rfl, rfl⟩ := Prod.mk.inj (Except.ok.inj (hreach.reads.symm.trans hfile))
  exact ⟨hreach.opens ▸ hopens, (of_of_fileRecord hrecord).of_name hreach.name⟩

/-- Only a time without a date stops a scan. -/
theorem Reaches.goes_iff (hreach : Reaches h p q content changed) :
    Goes h owner p ↔ (h.mayOpen ⟨1, q⟩ → ∃ t, changeMoment changed = .ok t) := by
  have hchecksum : checksum h p owner none =
      if !h.mayOpen ⟨1, q⟩ then .error (.disk .denied)
      else (fileRecord content changed p owner none).mapError .value := by
    rw [checksum, if_neg (by simp [hreach.noNull]), hreach.opens, hreach.reads]
  rw [Goes, hchecksum]
  by_cases hopens : h.mayOpen ⟨1, q⟩ = true
  · rw [if_neg (by simp [hopens])]
    simp only [hopens, mapError_eq_ok, forall_const]
    have hrecorded : (∃ t, changeMoment changed = .ok t) ↔
        ∃ r, fileRecord content changed p owner none = .ok r := exists_fileRecord_iff.symm
    rw [hrecorded]
    constructor
    · rintro (⟨r, -, hr, -⟩ | ⟨f, hf⟩)
      · exact ⟨r, hr⟩
      · cases hrecord : fileRecord content changed p owner none with
        | ok r => exact ⟨r, rfl⟩
        | error cause =>
          rw [hrecord] at hf
          cases hf
    · rintro ⟨r, hr⟩
      exact .inl ⟨r, _, hr, hreach.real⟩
  · rw [if_pos (by simp [hopens])]
    exact ⟨fun _ hyes => absurd hyes hopens, fun _ => .inr ⟨.denied, rfl⟩⟩

end below

/-! ## Sources that can be scanned -/

section sources
variable {h : Host} {base q : Place} {x y : Source} {sources : List Source} {content : Bytes}
  {changed : Int} {key : String}

theorem scannable_of_passes (hd : h.disk.Plain) (hx : Passes h x.name (x.outputFolder base)) :
    x.Scannable h base := by
  obtain ⟨there, hlook, hlist⟩ := hx
  have hyes : isFolder h.disk (x.outputFolder base) = .ok true → there = true :=
    fun hthere => Except.ok.inj (hlook.symm.trans hthere)
  have hshort : isFolder h.disk (x.outputFolder base) = .ok true → ∀ names e,
      h.disk.at? (h.disk.place (x.outputFolder base) ++ names) = some e →
        (x.outputFolder base / ⟨0, names⟩ : Path).text.utf8ByteSize ≤ Disk.maxPath := by
    intro hthere names e hat
    obtain ⟨hnull, hlocate, -⟩ := located_of_isFolder hd hthere
    by_cases hnil : names = []
    · subst hnil
      have hsame : (x.outputFolder base / ⟨0, []⟩ : Path) = x.outputFolder base :=
        Path.join_here _
      rw [hsame]
      by_contra hlong
      rw [Disk.locate, if_pos (Nat.lt_of_not_le hlong)] at hlocate
      cases hlocate
    · obtain ⟨paths, hpaths, -⟩ := hlist (hyes hthere)
      obtain ⟨place, hlocate', hall, -⟩ := Disk.filesBelow_eq_ok.mp hpaths
      obtain ⟨rfl, -⟩ := Spot.found.inj (Except.ok.inj (hlocate.symm.trans hlocate'))
      have hbelow := hd.rooted.below hat hnil
      obtain ⟨b, hb⟩ := hall names hbelow
      by_contra hlong
      rw [hd.isFile?_below hnull hlocate hbelow hat, if_pos (Nat.lt_of_not_le hlong)] at hb
      cases hb
  refine ⟨⟨there, hlook⟩, hshort, fun hthere names content changed hfile => ?_⟩
  obtain ⟨paths, hpaths, hgoes⟩ := hlist (hyes hthere)
  have hlies := liesBelow_of_file hd hthere hfile.at_ (hshort hthere names _ hfile.at_)
  obtain ⟨names', content', changed', hp, hat, hreach⟩ := reaches_of_liesBelow hd hthere hlies
  have hnames : names = names' := List.append_cancel_left (Path.mk.inj hp).2
  subst hnames
  obtain ⟨rfl, rfl⟩ := Entry.file.inj (Option.some.inj (hfile.at_.symm.trans hat))
  exact hreach.goes_iff.mp (hgoes _ ((Disk.mem_filesBelow hpaths).mpr hlies)) hfile.opens

theorem passes_of_scannable (hd : h.disk.Plain) (hx : x.Scannable h base) :
    Passes h x.name (x.outputFolder base) := by
  obtain ⟨there, hlook⟩ := hx.looked
  refine ⟨there, hlook, ?_⟩
  rintro rfl
  obtain ⟨hnull, hlocate, -⟩ := located_of_isFolder hd hlook
  have hlist := Disk.filesBelow_eq_ok.mpr ⟨_, hlocate, fun names hbelow => ?_, rfl⟩
  · refine ⟨_, hlist, fun p hp => ?_⟩
    have hlies := (Disk.mem_filesBelow hlist).mp hp
    obtain ⟨names, content, changed, -, hat, hreach⟩ := reaches_of_liesBelow hd hlook hlies
    exact hreach.goes_iff.mpr fun hopens => hx.dated hlook names content changed ⟨hat, hopens⟩
  · obtain ⟨e, hat⟩ := hbelow.exists_at?
    rw [hd.isFile?_below hnull hlocate hbelow hat,
      if_neg (Nat.not_lt.mpr (hx.short hlook names e hat))]
    exact ⟨_, rfl⟩

/-- **A source has the files that its output folder covers.** -/
theorem hasFile_iff (hd : h.disk.Plain) (hx : x.Scannable h base) :
    HasFile h ⟨1, base⟩ x key ↔
      ∃ q content changed, h.FileAt q content changed ∧ x.Covers h.disk base q ∧
        nameFrom base q = key := by
  constructor
  · rintro ⟨hthere, p, hlies, hread⟩
    obtain ⟨names, content, changed, rfl, hat, hreach⟩ := reaches_of_liesBelow hd hthere hlies
    obtain ⟨real, hreal, hkey⟩ := hread.named
    obtain rfl := Except.ok.inj (hreach.real.symm.trans hreal)
    rw [relativeTo_eq] at hkey
    exact ⟨_, content, changed, ⟨hat, hreach.opens ▸ hread.opens⟩,
      ⟨hthere, List.prefix_append _ _⟩, hkey⟩
  · rintro ⟨q, content, changed, hfile, ⟨hthere, names, rfl⟩, rfl⟩
    have hlies := liesBelow_of_file hd hthere hfile.at_ (hx.short hthere names _ hfile.at_)
    obtain ⟨names', content', changed', hp, -, hreach⟩ := reaches_of_liesBelow hd hthere hlies
    obtain rfl : names = names' := List.append_cancel_left (Path.mk.inj hp).2
    exact ⟨hthere, _, hlies, hreach.opens ▸ hfile.opens, ⟨_, hreach.reads⟩, _, hreach.real,
      relativeTo_eq _ _⟩

/-- A file is a source's, by its name, if the source covers it. -/
theorem hasFile_nameFrom_iff (hd : h.disk.Plain) (hx : x.Scannable h base)
    (hfile : h.FileAt q content changed) :
    HasFile h ⟨1, base⟩ x (nameFrom base q) ↔ x.Covers h.disk base q := by
  rw [hasFile_iff hd hx]
  constructor
  · rintro ⟨q', content', changed', hfile', hcovers, hname⟩
    exact eq_of_nameFrom hd hfile'.at_ hfile.at_ hname ▸ hcovers
  · intro hcovers
    exact ⟨q, content, changed, hfile, hcovers, rfl⟩

/-- The last source with a file is the last one that covers it. -/
theorem lastWith_iff (hd : h.disk.Plain) (hall : ∀ x ∈ sources, x.Scannable h base)
    (hfile : h.FileAt q content changed) :
    LastWith h ⟨1, base⟩ sources y (nameFrom base q) ↔
      LastCovering h.disk base sources y q := by
  have hone : ∀ x ∈ sources, (HasFile h ⟨1, base⟩ x (nameFrom base q) ↔
      x.Covers h.disk base q) := fun x hx => hasFile_nameFrom_iff hd (hall x hx) hfile
  constructor
  · rintro ⟨before, after, rfl, hy, hafter⟩
    refine ⟨before, after, rfl, (hone y (by simp)).mp hy, fun z hz => ?_⟩
    exact mt (hone z (by simp [hz])).mpr (hafter z hz)
  · rintro ⟨before, after, rfl, hy, hafter⟩
    refine ⟨before, after, rfl, (hone y (by simp)).mpr hy, fun z hz => ?_⟩
    exact mt (hone z (by simp [hz])).mp (hafter z hz)

/-- What is found under a name is the record of the file with that name, and its owner is the last
    source that covers it. -/
theorem find?_scanned_iff (hd : h.disk.Plain) (hall : ∀ x ∈ sources, x.Scannable h base)
    {files : Ledger FileRecord} (hscan : scanFrom h ⟨1, base⟩ [] sources = .ok files)
    (r : FileRecord) :
    files.find? key = some r ↔
      ∃ q content changed y, h.FileAt q content changed ∧
        LastCovering h.disk base sources y q ∧ nameFrom base q = key ∧
        r.Of content changed ⟨1, q⟩ y.name := by
  constructor
  · intro hfind
    rcases find?_scanFrom hscan key with ⟨y, p, hlast, hlies, hread, r', hr', hfind'⟩ | ⟨-, hnone⟩
    · obtain rfl := Option.some.inj (hfind.symm.trans hfind')
      obtain ⟨hthere, -⟩ := hlast.hasFile
      obtain ⟨names, content, changed, -, hat, hreach⟩ := reaches_of_liesBelow hd hthere hlies
      obtain ⟨hopens, hof⟩ := hreach.record hr'
      obtain ⟨real, hreal, hkey⟩ := hread.named
      obtain rfl := Except.ok.inj (hreach.real.symm.trans hreal)
      rw [relativeTo_eq] at hkey
      have hfile : h.FileAt _ content changed := ⟨hat, hopens⟩
      rw [← hkey] at hlast
      exact ⟨_, content, changed, y, hfile, (lastWith_iff hd hall hfile).mp hlast, hkey, hof⟩
    · rw [hnone] at hfind
      cases hfind
  · rintro ⟨q, content, changed, y, hfile, hlast, rfl, hof⟩
    have hlast := (lastWith_iff hd hall hfile).mpr hlast
    rcases find?_scanFrom hscan (nameFrom base q) with
      ⟨y', p, hlast', hlies, hread, r', hr', hfind⟩ | ⟨hnone, -⟩
    · obtain rfl := hlast'.unique hlast
      obtain ⟨hthere, -⟩ := hlast'.hasFile
      obtain ⟨names, content', changed', -, hat, hreach⟩ := reaches_of_liesBelow hd hthere hlies
      obtain ⟨-, hof'⟩ := hreach.record hr'
      obtain ⟨real, hreal, hkey⟩ := hread.named
      obtain rfl := Except.ok.inj (hreach.real.symm.trans hreal)
      rw [relativeTo_eq] at hkey
      -- The path that was found reaches the file itself, since no other has its name.
      obtain rfl := eq_of_nameFrom hd hat hfile.at_ hkey
      obtain ⟨rfl, rfl⟩ := Entry.file.inj (Option.some.inj (hat.symm.trans hfile.at_))
      rw [hfind, hof'.unique hof]
    · exact absurd hlast.hasFile (hnone y hlast.mem)

/-- **A scan is exact** on a disk without links.  It comes to its end if and only if the base
    folder can be a path and every source can be scanned.  Distinct files have distinct names, and
    what a scan then holds under a name is the record of the whole content of the file with that
    name, if it can be read and some source's output folder covers it, with the last of these
    sources as its owner. -/
theorem scanOutputs_exact (hd : h.disk.Plain) (sources : List Source) (folder : Path) :
    ((∃ files, scanOutputs h sources folder = .ok files) ↔
      Disk.holdsNull folder = false ∧
        ∀ x ∈ sources, x.Scannable h (h.disk.place folder)) ∧
    (∀ q q' e e', h.disk.at? q = some e → h.disk.at? q' = some e' →
      nameFrom (h.disk.place folder) q = nameFrom (h.disk.place folder) q' → q = q') ∧
    ∀ files, scanOutputs h sources folder = .ok files →
      files.names.Nodup ∧
      ∀ key r, files.find? key = some r ↔
        ∃ q content changed y, h.FileAt q content changed ∧
          LastCovering h.disk (h.disk.place folder) sources y q ∧
          nameFrom (h.disk.place folder) q = key ∧ r.Of content changed ⟨1, q⟩ y.name := by
  have hstart : ∀ files, scanOutputs h sources folder = .ok files →
      Disk.holdsNull folder = false ∧
        scanFrom h ⟨1, h.disk.place folder⟩ [] sources = .ok files := by
    intro files hscan
    obtain ⟨real, hreal, hscan⟩ := bind_eq_ok.mp hscan
    have hnull : Disk.holdsNull folder = false := by
      by_contra hnull
      rw [resolvePath, if_pos (by simpa using hnull)] at hreal
      cases hreal
    obtain rfl := Except.ok.inj ((hd.resolvePath_eq hnull).symm.trans hreal)
    exact ⟨hnull, hscan⟩
  have hends : (∃ files, scanFrom h ⟨1, h.disk.place folder⟩ [] sources = .ok files) ↔
      ∀ x ∈ sources, x.Scannable h (h.disk.place folder) := by
    rw [exists_scanFrom_iff]
    exact ⟨fun hall x hx => scannable_of_passes hd (hall x hx),
      fun hall x hx => passes_of_scannable hd (hall x hx)⟩
  refine ⟨⟨?_, ?_⟩, fun q q' e e' hq hq' => eq_of_nameFrom hd hq hq', ?_⟩
  · rintro ⟨files, hscan⟩
    obtain ⟨hnull, hscan⟩ := hstart files hscan
    exact ⟨hnull, hends.mp ⟨files, hscan⟩⟩
  · rintro ⟨hnull, hall⟩
    obtain ⟨files, hscan⟩ := hends.mpr hall
    exact ⟨files, bind_eq_ok.mpr ⟨_, hd.resolvePath_eq hnull, hscan⟩⟩
  · intro files hscan
    obtain ⟨-, hfrom⟩ := hstart files hscan
    have hall := hends.mp ⟨files, hfrom⟩
    exact ⟨(scanned_of_scanOutputs hscan).distinct,
      fun key r => find?_scanned_iff hd hall hfrom r⟩

end sources

/-! ### Overlapping folders -/

/-- A source with an output folder. -/
def writingTo (name output : String) : Source :=
  { sourceAt name "https://a.b/c" "main" with outputPath := output }

/-- Two sources, the output folder of the second in that of the first. -/
def nestedSources : List Source := [writingTo "outer" "out/..", writingTo "inner" "out"]

def nestedHost : Host :=
  answeringHost [(["p"], .folder), (["p", "out"], .folder),
    (["p", "out", "f"], .file [0x78, 0x0A] 0)] []

theorem plain_nestedHost : nestedHost.disk.Plain :=
  ⟨by decide, by simp [nestedHost, answeringHost], by decide⟩

theorem covers_inner : (writingTo "inner" "out").Covers nestedHost.disk ["p"] ["p", "out", "f"] :=
  ⟨by rfl, by decide⟩

/-- The file in both folders belongs to the second source. -/
theorem scanOutputs_exact_of_nested :
    nestedHost.disk.Plain ∧
    ∃ files r, scanOutputs nestedHost nestedSources ⟨1, ["p"]⟩ = .ok files ∧
      files.names.Nodup ∧ files.find? "out/f" = some r ∧
      r.Of [0x78, 0x0A] 0 ⟨1, ["p", "out", "f"]⟩ "inner" := by
  obtain ⟨files, hscan, -⟩ := exists_ok_of_any
    (x := scanOutputs nestedHost nestedSources ⟨1, ["p"]⟩) (p := fun _ => true)
    (by decide)
  obtain ⟨-, -, hexact⟩ := scanOutputs_exact plain_nestedHost nestedSources ⟨1, ["p"]⟩
  obtain ⟨hdistinct, hfind⟩ := hexact files hscan
  obtain ⟨t, ht, -⟩ := exists_ok_of_any (x := changeMoment 0) (p := fun _ => true)
    (by decide)
  obtain ⟨r, hr⟩ := exists_fileRecord_iff.mpr ⟨t, ht⟩
  have hof : r.Of [0x78, 0x0A] 0 ⟨1, ["p", "out", "f"]⟩ "inner" := of_of_fileRecord hr
  have hfile : nestedHost.FileAt ["p", "out", "f"] [0x78, 0x0A] 0 := ⟨by rfl, by rfl⟩
  have hlast : LastCovering nestedHost.disk ["p"] nestedSources (writingTo "inner" "out")
      ["p", "out", "f"] := ⟨[writingTo "outer" "out/.."], [], rfl, covers_inner, nofun⟩
  have hname : nameFrom ["p"] ["p", "out", "f"] = "out/f" := by decide
  exact ⟨plain_nestedHost, files, r, hscan, hdistinct,
    (hfind _ r).mpr ⟨_, _, _, _, hfile, hlast, hname, hof⟩, hof⟩

/-- A name that is one byte too long. -/
def longName : String := String.ofList (List.replicate 256 'x')

theorem eq_of_mem_longName {c : Char} (h : c ∈ longName.toList) : c = 'x' := by
  have hlist : longName.toList = List.replicate 256 'x' := String.toList_ofList
  exact List.eq_of_mem_replicate (hlist ▸ h)

theorem outputFolder_longName :
    (writingTo "long" longName).outputFolder ["p"] = ⟨1, ["p", longName]⟩ := by
  have hpart : Path.IsPart longName := by
    refine ⟨by decide +kernel, by decide +kernel, fun hmem => ?_⟩
    have hslash := eq_of_mem_longName hmem
    revert hslash
    decide
  have htext : ∀ name, (⟨0, [name]⟩ : Path).text = name := fun name => by simp [Path.text]
  have hread : Path.ofText (⟨0, [longName]⟩ : Path).text = ⟨0, [longName]⟩ :=
    Path.ofText_text (Nat.zero_le 2) (by simpa using hpart)
  rw [htext] at hread
  rw [Source.outputFolder, writingTo, hread]
  rfl

theorem isFolder_longName :
    isFolder nestedHost.disk ⟨1, ["p", longName]⟩ = .error (.disk .nameTooLong) := by
  have hnull : ¬Disk.holdsNull ⟨1, ["p", longName]⟩ := by
    intro hnull
    obtain ⟨s, hs, hc⟩ := List.any_eq_true.mp hnull
    rcases List.mem_cons.mp hs with rfl | hs
    · exact absurd hc (by decide)
    · obtain rfl := List.mem_singleton.mp hs
      exact absurd (eq_of_mem_longName (List.contains_iff_mem.mp hc)) (by decide)
  have hlocate : nestedHost.disk.locate ⟨1, ["p", longName]⟩ true = .error .nameTooLong :=
    cause?_eq_some.mp (by decide +kernel)
  rw [isFolder, Disk.isFolder?, Disk.lookUp, if_neg hnull, hlocate]
  rfl

/-- **An output path that no folder can have stops the scan**, and a readable file in another
    source's output folder has no record. -/
theorem scanOutputs_misses_file :
    nestedHost.disk.Plain ∧ nestedHost.FileAt ["p", "out", "f"] [0x78, 0x0A] 0 ∧
      LastCovering nestedHost.disk ["p"] (writingTo "long" longName :: nestedSources)
        (writingTo "inner" "out") ["p", "out", "f"] ∧
      scanOutputs nestedHost (writingTo "long" longName :: nestedSources) ⟨1, ["p"]⟩ =
        .error (.disk .nameTooLong) := by
  refine ⟨plain_nestedHost, ⟨by rfl, by rfl⟩,
    ⟨[writingTo "long" longName, writingTo "outer" "out/.."], [], rfl, covers_inner, nofun⟩, ?_⟩
  have hbase : nestedHost.disk.place ⟨1, ["p"]⟩ = ["p"] := by decide
  have hlook := isFolder_longName
  rw [← outputFolder_longName, Source.outputFolder] at hlook
  rw [scanOutputs, plain_nestedHost.resolvePath_eq (by decide), hbase]
  refine bind_eq_error.mpr (.inr ⟨_, rfl, ?_⟩)
  rw [scanFrom]
  exact bind_eq_error.mpr (.inl hlook)

end Regen
