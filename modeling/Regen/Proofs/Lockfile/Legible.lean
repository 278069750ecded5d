import Regen.Proofs.Lockfile.Load
import Regen.Proofs.Yaml.ReadBack

/-! # Legible lockfiles

    A lockfile is written and read back as it was unless one of its texts holds a next-line mark, a
    name is too long for a key, a number is too long to be written, or its free values are not
    legible.  So YAML gives back every lockfile that avoids these. -/

namespace Regen

open Number Value Yaml

/-! ## What a lockfile may hold -/

/-- A text without a next-line mark, which a reader would fold. -/
def IsUnmarked (s : String) : Prop := '\u0085' ∉ s.toList

instance (s : String) : Decidable (IsUnmarked s) := inferInstanceAs (Decidable (_ ∉ _))

structure SourceRecord.IsLegible (r : SourceRecord) : Prop where
  texts : ∀ s ∈ r.url :: r.ref :: r.fingerprint :: r.filters, IsUnmarked s
  metadata : areLegibleEntries 6 r.metadata = true

structure FileRecord.IsLegible (r : FileRecord) : Prop where
  texts : IsUnmarked r.sha256 ∧ IsUnmarked r.owner
  size : isLong r.size = false
  fileType : r.fileType.isLegible 4 = true
  lineCount : r.lineCount.isLegible 4 = true

/-- The counters of the statistics. -/
def Statistics.counters (s : Statistics) : List Int :=
  [s.totalMillis, s.sourcesProcessed, s.filesGenerated, s.errors, s.warnings]

structure Statistics.IsLegible (s : Statistics) : Prop where
  counters : ∀ n ∈ s.counters, isLong n = false
  cacheHitRate : s.cacheHitRate.isCanonical = true

instance (r : SourceRecord) : Decidable r.IsLegible :=
  decidable_of_iff ((∀ s ∈ r.url :: r.ref :: r.fingerprint :: r.filters, IsUnmarked s) ∧
    areLegibleEntries 6 r.metadata = true)
    ⟨fun ⟨texts, metadata⟩ => ⟨texts, metadata⟩, fun h => ⟨h.texts, h.metadata⟩⟩

instance (r : FileRecord) : Decidable r.IsLegible :=
  decidable_of_iff ((IsUnmarked r.sha256 ∧ IsUnmarked r.owner) ∧ isLong r.size = false ∧
    r.fileType.isLegible 4 = true ∧ r.lineCount.isLegible 4 = true)
    ⟨fun ⟨texts, size, fileType, lineCount⟩ => ⟨texts, size, fileType, lineCount⟩,
      fun h => ⟨h.texts, h.size, h.fileType, h.lineCount⟩⟩

instance (s : Statistics) : Decidable s.IsLegible :=
  decidable_of_iff ((∀ n ∈ s.counters, isLong n = false) ∧ s.cacheHitRate.isCanonical = true)
    ⟨fun ⟨counters, rate⟩ => ⟨counters, rate⟩, fun h => ⟨h.counters, h.cacheHitRate⟩⟩

/-- The labels in the notes on a source. -/
def SourceRecord.labels (r : SourceRecord) : List Nat := (labelsOfEntries r.metadata).reduceOption

/-- The labels in the free values of a file's record. -/
def FileRecord.labels (r : FileRecord) : List Nat :=
  (Value.labels r.fileType).reduceOption ++ (Value.labels r.lineCount).reduceOption

namespace Lockfile

/-- The labels in the free values of a lockfile. -/
def labels (l : Lockfile) : List Nat :=
  l.sources.flatMap (·.2.labels) ++ l.files.flatMap (·.2.labels)

/-- **A lockfile is legible** if its names may be keys, its texts hold no next-line mark, its
    numbers are short, and its free values are legible and share nothing. -/
structure IsLegible (l : Lockfile) : Prop where
  toolVersion : IsUnmarked l.toolVersion
  revision : isLong l.revision = false
  sources : ∀ e ∈ l.sources, isLegibleKey 2 e.1 = true ∧ e.2.IsLegible
  files : ∀ e ∈ l.files, isLegibleKey 2 e.1 = true ∧ e.2.IsLegible
  dependencies : ∀ e ∈ l.dependencies, isLegibleKey 2 e.1 = true ∧ ∀ s ∈ e.2, IsUnmarked s
  statistics : l.statistics.IsLegible
  labels : l.labels.Nodup

instance (l : Lockfile) : Decidable l.IsLegible :=
  decidable_of_iff (IsUnmarked l.toolVersion ∧ isLong l.revision = false ∧
    (∀ e ∈ l.sources, isLegibleKey 2 e.1 = true ∧ e.2.IsLegible) ∧
    (∀ e ∈ l.files, isLegibleKey 2 e.1 = true ∧ e.2.IsLegible) ∧
    (∀ e ∈ l.dependencies, isLegibleKey 2 e.1 = true ∧ ∀ s ∈ e.2, IsUnmarked s) ∧
    l.statistics.IsLegible ∧ l.labels.Nodup)
    ⟨fun ⟨tool, revision, sources, files, dependencies, statistics, labels⟩ =>
        ⟨tool, revision, sources, files, dependencies, statistics, labels⟩,
      fun h => ⟨h.toolVersion, h.revision, h.sources, h.files, h.dependencies, h.statistics,
        h.labels⟩⟩

end Lockfile

/-! ## Values in its document -/

section documents
variable {indent : Nat} {s : String} {v : Value}

theorem isLegible_text (hindent : indent < 78) (h : IsUnmarked s) :
    (Value.text s).isLegible indent = true := by
  have hmark : s.toList.contains '\u0085' = false := by simpa [IsUnmarked] using h
  have hwidth : indent + 2 < Pen.width := by
    rw [Pen.width]
    omega
  rw [Value.isLegible, isLegibleText, hmark, decide_eq_true hwidth]
  rfl

theorem isLegible_textList {names : List String} (hindent : indent < 76)
    (h : ∀ s ∈ names, IsUnmarked s) : (textList names).isLegible indent = true := by
  rw [textList, Value.isLegible, areLegible_iff]
  intro x hx
  obtain ⟨s, hs, rfl⟩ := List.mem_map.mp hx
  exact isLegible_text (by omega) (h s hs)

theorem isLegible_int {n : Int} (h : isLong n = false) : (Value.int n).isLegible indent = true := by
  rw [Value.isLegible, h]
  rfl

/-- Names of a document's entries: distinct, and each of them may be a key. -/
def AreNames (indent : Nat) (names : List String) : Prop :=
  names.Nodup ∧ ∀ name ∈ names, isLegibleKey indent name = true

instance (indent : Nat) (names : List String) : Decidable (AreNames indent names) :=
  inferInstanceAs (Decidable (_ ∧ _))

theorem areLegible_document {es : List (String × Value)} (hnames : AreNames indent (es.map (·.1)))
    (hvalues : ∀ v ∈ es.map (·.2), v.isLegible indent = true) :
    areLegibleEntries indent (es.map fun e => (.text e.1, e.2)) = true := by
  induction es with
  | nil => rfl
  | cons e es ih =>
    obtain ⟨hdistinct, hkeys⟩ := hnames
    obtain ⟨hnew, hdistinct⟩ := List.nodup_cons.mp hdistinct
    have hnone : Entries.get? (es.map fun e => (.text e.1, e.2)) e.1 = none := by
      refine Entries.get?_eq_none_of_forall fun f hf heq => ?_
      obtain ⟨g, hg, rfl⟩ := List.mem_map.mp hf
      exact hnew (List.mem_map.mpr ⟨g, hg, Value.text.inj heq⟩)
    rw [List.map_cons, List.forall_mem_cons] at hkeys hvalues
    rw [List.map_cons, areLegibleEntries, hkeys.1, hnone, hvalues.1,
      ih ⟨hdistinct, hkeys.2⟩ hvalues.2]
    rfl

theorem isUnmarked_timeText {t : Time.Moment} (h : timeText t = .ok s) : IsUnmarked s := by
  obtain ⟨u, hu, rfl⟩ := timeText_eq_ok h
  have hpad (width n : Nat) : '\u0085' ∉ (Time.pad width n).toList := fun hc =>
    absurd (Time.isDigit_of_mem_pad hc) (by decide)
  rw [IsUnmarked, Time.Iso.toList_isoText (Time.Moment.offset_of_toUtc hu)]
  simp only [Time.Iso.clockText, Time.Iso.fractionText, List.mem_append, List.mem_cons, hpad]
  split <;> simp [hpad]

/-! ## Records -/

theorem SourceRecord.IsLegible.document {r : SourceRecord} (hr : r.IsLegible)
    (hv : r.toDocument = .ok v) : v.isLegible 2 = true := by
  obtain ⟨fetched, hfetched, hv⟩ := bind_eq_ok.mp hv
  cases hv
  have hnames : AreNames 4 ["url", "ref", "fingerprint", "fetched_at", "filters", "metadata"] := by
    decide
  refine areLegible_document hnames ?_
  have htexts := hr.texts
  simp only [List.map_cons, List.map_nil, List.forall_mem_cons] at htexts ⊢
  obtain ⟨hurl, href, hfingerprint, hfilters⟩ := htexts
  exact ⟨isLegible_text (by decide) hurl, isLegible_text (by decide) href,
    isLegible_text (by decide) hfingerprint, isLegible_text (by decide) (isUnmarked_timeText hfetched),
    isLegible_textList (by decide) hfilters, hr.metadata, nofun⟩

theorem FileRecord.IsLegible.document {r : FileRecord} (hr : r.IsLegible)
    (hv : r.toDocument = .ok v) : v.isLegible 2 = true := by
  obtain ⟨modified, hmodified, hv⟩ := bind_eq_ok.mp hv
  cases hv
  have hnames : AreNames 4
      ["sha256", "size", "modified_at", "source_id", "file_type", "line_count"] := by
    decide
  refine areLegible_document hnames ?_
  simp only [List.map_cons, List.map_nil, List.forall_mem_cons]
  exact ⟨isLegible_text (by decide) hr.texts.1, isLegible_int hr.size,
    isLegible_text (by decide) (isUnmarked_timeText hmodified),
    isLegible_text (by decide) hr.texts.2, hr.fileType, hr.lineCount, nofun⟩

theorem Statistics.IsLegible.document {t : Statistics} (ht : t.IsLegible) :
    t.toDocument.isLegible 0 = true := by
  have hnames : AreNames 2 ["total_processing_time_ms", "sources_processed", "files_generated",
      "error_count", "warning_count", "cache_hit_rate"] := by decide
  refine areLegible_document hnames ?_
  have hcounters := ht.counters
  simp only [Statistics.counters, List.map_cons, List.map_nil, List.forall_mem_cons] at hcounters ⊢
  obtain ⟨htotal, hsources, hfiles, herrors, hwarnings, -⟩ := hcounters
  exact ⟨isLegible_int htotal, isLegible_int hsources, isLegible_int hfiles, isLegible_int herrors,
    isLegible_int hwarnings, ht.cacheHitRate, nofun⟩

theorem isLegible_ledger {α : Type} {l : Ledger α} {f : α → Except Fault Value}
    (hdistinct : l.names.Nodup)
    (h : ∀ e ∈ l, isLegibleKey 2 e.1 = true ∧ ∀ v, f e.2 = .ok v → v.isLegible 2 = true)
    (hv : l.toDocument f = .ok v) : v.isLegible 0 = true := by
  obtain ⟨es, hes, hv⟩ := bind_eq_ok.mp hv
  cases hv
  have hstep {a : String × α} {e : String × Value}
      (h : (do pure (a.1, ← f a.2) : Except Fault (String × Value)) = .ok e) :
      a.1 = e.1 ∧ f a.2 = .ok e.2 := by
    obtain ⟨w, hw, he⟩ := bind_eq_ok.mp h
    cases he
    exact ⟨rfl, hw⟩
  have hfrom {e : String × Value} (he : e ∈ es) : ∃ a ∈ l, a.1 = e.1 ∧ f a.2 = .ok e.2 := by
    obtain ⟨a, ha, hgives⟩ := exists_of_mem_mapM hes he
    exact ⟨a, perm_sortBy.mem_iff.mp ha, hstep hgives⟩
  have hnames : es.map (·.1) = l.sorted.names :=
    Ledger.names_of_forall₂ (R := fun x y => f x = .ok y) ((mapM_eq_ok.mp hes).imp fun _ _ => hstep)
  refine areLegible_document ⟨?_, fun name hname => ?_⟩ fun w hw => ?_
  · exact hnames ▸ (Ledger.perm_names_sorted l).nodup_iff.mpr hdistinct
  · obtain ⟨e, he, rfl⟩ := List.mem_map.mp hname
    obtain ⟨a, ha, hname, -⟩ := hfrom he
    exact hname ▸ (h a ha).1
  · obtain ⟨e, he, rfl⟩ := List.mem_map.mp hw
    obtain ⟨a, ha, -, hgives⟩ := hfrom he
    exact (h a ha).2 _ hgives

/-! ## Labels -/

/-- The labels of a document are those of its values. -/
theorem labels_document (es : List (String × Value)) :
    (Value.labels (document es)).reduceOption =
      es.flatMap fun e => (Value.labels e.2).reduceOption := by
  have hentries : (labelsOfEntries (es.map fun e => (.text e.1, e.2))).reduceOption =
      es.flatMap fun e => (Value.labels e.2).reduceOption := by
    induction es with
    | nil => rfl
    | cons e es ih =>
      rw [List.map_cons, labelsOfEntries, List.reduceOption_append, List.reduceOption_append, ih]
      rfl
  exact hentries

theorem labels_textList (names : List String) :
    (Value.labels (textList names)).reduceOption = [] := by
  have hitems : (labelsOfAll (names.map .text)).reduceOption = [] := by
    induction names with
    | nil => rfl
    | cons name names ih => exact ih
  exact hitems

theorem SourceRecord.labels_toDocument {r : SourceRecord} (hv : r.toDocument = .ok v) :
    (Value.labels v).reduceOption = r.labels := by
  obtain ⟨fetched, -, hv⟩ := bind_eq_ok.mp hv
  cases hv
  rw [labels_document]
  simp only [List.flatMap_cons, List.flatMap_nil, labels_textList]
  simp [SourceRecord.labels, Value.labels, List.reduceOption]

theorem FileRecord.labels_toDocument {r : FileRecord} (hv : r.toDocument = .ok v) :
    (Value.labels v).reduceOption = r.labels := by
  obtain ⟨modified, -, hv⟩ := bind_eq_ok.mp hv
  cases hv
  rw [labels_document]
  simp [FileRecord.labels, Value.labels, List.reduceOption]

/-- The labels of a ledger's document are those of its entries, in another order. -/
theorem labels_ledger {α : Type} {l : Ledger α} {f : α → Except Fault Value} {g : α → List Nat}
    (h : ∀ x v, f x = .ok v → (Value.labels v).reduceOption = g x) (hv : l.toDocument f = .ok v) :
    (Value.labels v).reduceOption.Perm (l.flatMap fun e => g e.2) := by
  obtain ⟨es, hes, hv⟩ := bind_eq_ok.mp hv
  cases hv
  rw [labels_document]
  have heq : es.flatMap (fun e => (Value.labels e.2).reduceOption) =
      l.sorted.flatMap fun e => g e.2 := by
    have hsteps := mapM_eq_ok.mp hes
    clear hes hv
    generalize l.sorted = xs at hsteps
    induction hsteps with
    | nil => rfl
    | cons hstep _ ih =>
      obtain ⟨w, hw, he⟩ := bind_eq_ok.mp hstep
      cases he
      rw [List.flatMap_cons, List.flatMap_cons, ih, h _ _ hw]
  rw [heq]
  exact perm_sortBy.flatMap_right _

end documents

namespace Lockfile

variable {l : Lockfile} {es : Entries}

/-- The document of a lockfile as a document of its parts. -/
theorem exists_of_toDocument (hes : l.toDocument = .ok es) :
    ∃ generated sources files dependencies, timeText l.generatedAt = .ok generated ∧
      l.sources.toDocument SourceRecord.toDocument = .ok sources ∧
      l.files.toDocument FileRecord.toDocument = .ok files ∧
      l.dependencies.toDocument (fun names => .ok (textList names)) = .ok dependencies ∧
      .map es none = document [("schema_version", .text l.schemaVersion),
        ("generated_at", .text generated), ("tool_version", .text l.toolVersion),
        ("revision", .int l.revision), ("sources", sources), ("files", files),
        ("dependencies", dependencies), ("statistics", l.statistics.toDocument)] := by
  obtain ⟨generated, hgenerated, hes⟩ := bind_eq_ok.mp hes
  obtain ⟨sources, hs, hes⟩ := bind_eq_ok.mp hes
  obtain ⟨files, hf, hes⟩ := bind_eq_ok.mp hes
  obtain ⟨dependencies, hd, hes⟩ := bind_eq_ok.mp hes
  cases hes
  exact ⟨generated, sources, files, dependencies, hgenerated, hs, hf, hd, rfl⟩

/-- **The document of a legible lockfile is legible.** -/
theorem IsLegible.document (hl : WellFormed l) (h : l.IsLegible) (hes : l.toDocument = .ok es) :
    areLegibleEntries 0 es = true := by
  obtain ⟨generated, sources, files, dependencies, hgenerated, hs, hf, hd, heq⟩ :=
    exists_of_toDocument hes
  have hnames : AreNames 0 ["schema_version", "generated_at", "tool_version", "revision", "sources",
      "files", "dependencies", "statistics"] := by decide
  have hversion : IsUnmarked l.schemaVersion := hl.schemaVersion ▸ by decide
  have hsources := isLegible_ledger hl.sources
    (fun e he => ⟨(h.sources e he).1, fun _ hv => (h.sources e he).2.document hv⟩) hs
  have hfiles := isLegible_ledger hl.files
    (fun e he => ⟨(h.files e he).1, fun _ hv => (h.files e he).2.document hv⟩) hf
  have hdependencies := isLegible_ledger hl.dependencies
    (fun e he => ⟨(h.dependencies e he).1, fun v hv => by
      cases hv
      exact isLegible_textList (by decide) (h.dependencies e he).2⟩) hd
  rw [(Value.map.inj heq).1]
  refine areLegible_document hnames ?_
  simp only [List.map_cons, List.map_nil, List.forall_mem_cons]
  exact ⟨isLegible_text (by decide) hversion,
    isLegible_text (by decide) (isUnmarked_timeText hgenerated),
    isLegible_text (by decide) h.toolVersion, isLegible_int h.revision, hsources, hfiles,
    hdependencies, h.statistics.document, nofun⟩

/-- The labels of a lockfile's document are those of its free values, in another order. -/
theorem labels_toDocument (hes : l.toDocument = .ok es) :
    (labelsOfEntries es).reduceOption.Perm l.labels := by
  obtain ⟨generated, sources, files, dependencies, -, hs, hf, hd, heq⟩ := exists_of_toDocument hes
  have hsources := labels_ledger (fun _ _ => SourceRecord.labels_toDocument) hs
  have hfiles := labels_ledger (fun _ _ => FileRecord.labels_toDocument) hf
  have hdependencies := labels_ledger (g := fun _ => [])
    (fun names v hv => by cases hv; exact labels_textList names) hd
  have hparts : (labelsOfEntries es).reduceOption =
      (Value.labels sources).reduceOption ++ ((Value.labels files).reduceOption ++
        (Value.labels dependencies).reduceOption) := by
    have hall := congrArg (fun v => (Value.labels v).reduceOption) heq
    rw [labels_document] at hall
    simpa [Value.labels, List.reduceOption, Statistics.toDocument, document, labelsOfEntries]
      using hall
  have hnone : (Value.labels dependencies).reduceOption = [] :=
    (hdependencies.trans (.of_eq (List.flatMap_eq_nil_iff.mpr fun _ _ => rfl))).eq_nil
  rw [hparts, hnone, List.append_nil]
  exact hsources.append hfiles

/-- **YAML gives back a legible lockfile.** -/
theorem IsLegible.givenBack (hl : WellFormed l) (h : l.IsLegible) : l.GivenBack Alike := by
  intro es hes
  have hne : es ≠ [] := by
    obtain ⟨_, _, _, _, -, -, -, -, heq⟩ := exists_of_toDocument hes
    rintro rfl
    cases heq
  exact exists_ofBytes hne (h.document hl hes) ((labels_toDocument hes).nodup_iff.mpr h.labels)

/-- The first lockfile that is saved is legible. -/
theorem isLegible_next_empty (now : Time.Moment) {tool : String} (htool : IsUnmarked tool) :
    (empty now tool).next.IsLegible where
  toolVersion := htool
  revision := isLong_of_lt (n := 1) (by decide)
  sources := fun _ h => absurd h List.not_mem_nil
  files := fun _ h => absurd h List.not_mem_nil
  dependencies := fun _ h => absurd h List.not_mem_nil
  statistics := by
    have hrate : Statistics.none.cacheHitRate.isCanonical = true := by decide
    refine ⟨fun n hn => ?_, hrate⟩
    obtain rfl : n = 0 := by simpa [Statistics.counters, empty, Statistics.none, next] using hn
    exact isLong_of_lt (by decide)
  labels := List.nodup_nil

theorem IsLegible.keepsRevision (hl : WellFormed l) (h : l.IsLegible) : KeepsRevision l :=
  keepsRevision_of_givenBack readsBack_alike hl (h.givenBack hl)

end Lockfile

end Regen
