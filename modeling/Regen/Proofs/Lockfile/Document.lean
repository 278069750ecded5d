import Regen.Lockfile.Document
import Regen.Proofs.Ledger
import Regen.Proofs.Outcome
import Regen.Proofs.Time.Iso

/-! # Reading what was written

    The document of a lockfile is read back as that lockfile, with its times in universal time.
    What comes between writing and reading may change values, as long as texts, numbers and
    mappings with text keys stay what they are: the relation `V` says how a written value and the
    value that is read in its place may differ.  With equality for `V` nothing comes between. -/

namespace Regen

open Number Time

/-! ## Values between writing and reading -/

/-- Values related to scalars and collections are such scalars and collections again. -/
structure ReadsBack (V : Value → Value → Prop) : Prop where
  text : ∀ {s v}, V (.text s) v → v = .text s
  int : ∀ {n v}, V (.int n) v → v = .int n
  real : ∀ {x v}, V (.real x) v → v = .real x
  list : ∀ {xs v}, V (.list xs none) v → ∃ ys label, v = .list ys label ∧ List.Forall₂ V xs ys
  map : ∀ {es v}, V (.map es none) v → ∃ fs label, v = .map fs label ∧
    List.Forall₂ (fun e f => V e.1 f.1 ∧ V e.2 f.2) es fs ∧ V (.map es none) (.map fs none)

theorem readsBack_eq : ReadsBack (· = ·) where
  text h := h.symm
  int h := h.symm
  real h := h.symm
  list h := ⟨_, _, h.symm, List.forall₂_refl _⟩
  map h := ⟨_, _, h.symm, List.forall₂_same.mpr fun _ _ => ⟨rfl, rfl⟩, rfl⟩

theorem Entries.get?_cons (k key : String) (v : Value) (es : Entries) :
    Entries.get? ((.text k, v) :: es) key = if key = k then some v else Entries.get? es key := by
  by_cases h : key = k <;> simp [Entries.get?, Entries.find?, Value.same, Value.sameScalar, h]

/-! ## Records that are the same but for their times and values -/

section relations
variable (T : Moment → Moment → Prop) (V : Value → Value → Prop)

structure SourceRecord.Rel (r s : SourceRecord) : Prop where
  url : s.url = r.url
  ref : s.ref = r.ref
  fingerprint : s.fingerprint = r.fingerprint
  fetchedAt : T r.fetchedAt s.fetchedAt
  filters : s.filters = r.filters
  metadata : V (.map r.metadata none) (.map s.metadata none)

structure FileRecord.Rel (r s : FileRecord) : Prop where
  sha256 : s.sha256 = r.sha256
  size : s.size = r.size
  modifiedAt : T r.modifiedAt s.modifiedAt
  owner : s.owner = r.owner
  fileType : V r.fileType s.fileType
  lineCount : V r.lineCount s.lineCount

structure Statistics.Rel (s t : Statistics) : Prop where
  totalMillis : t.totalMillis = s.totalMillis
  sourcesProcessed : t.sourcesProcessed = s.sourcesProcessed
  filesGenerated : t.filesGenerated = s.filesGenerated
  errors : t.errors = s.errors
  warnings : t.warnings = s.warnings
  cacheHitRate : V (.real s.cacheHitRate) (.real t.cacheHitRate)

/-- Two lockfiles are the same field by field, with times related by `T` and free values by `V`,
    and ledgers compared by what they have under each name. -/
structure Lockfile.Rel (l m : Lockfile) : Prop where
  schemaVersion : m.schemaVersion = l.schemaVersion
  generatedAt : T l.generatedAt m.generatedAt
  toolVersion : m.toolVersion = l.toolVersion
  revision : m.revision = l.revision
  sources : Ledger.Rel (SourceRecord.Rel T V) l.sources m.sources
  files : Ledger.Rel (FileRecord.Rel T V) l.files m.files
  dependencies : Ledger.Rel (· = ·) l.dependencies m.dependencies
  statistics : Statistics.Rel V l.statistics m.statistics

end relations

variable {T : Moment → Moment → Prop} {V : Value → Value → Prop}

/-! ## Times -/

theorem timeText_eq_ok {t : Moment} {s : String} (h : timeText t = .ok s) :
    ∃ u, t.toUtc = .ok u ∧ s = u.isoText := by
  unfold timeText at h
  cases hu : t.toUtc with
  | error e => rw [hu] at h; cases h
  | ok u => rw [hu] at h; exact ⟨u, rfl, (Except.ok.inj h).symm⟩

theorem spellZulu_append (cs : List Char) :
    Value.spellZulu (cs ++ "+00:00".toList) = cs ++ "+00:00".toList := by
  have hoffset : "+00:00".toList = ['+', '0', '0', ':', '0', '0'] := rfl
  simp [Value.spellZulu, hoffset]

/-- A written time is read back as the same instant in universal time. -/
theorem toMoment_timeText {t : Moment} {s : String} (h : timeText t = .ok s) :
    ∃ u, t.toUtc = .ok u ∧ (Value.text s).toMoment = .ok u := by
  obtain ⟨u, hu, rfl⟩ := timeText_eq_ok h
  refine ⟨u, hu, ?_⟩
  have hoffset := Moment.offset_of_toUtc hu
  have hzulu : Value.spellZulu u.isoText.toList = u.isoText.toList := by
    rw [Iso.toList_isoText hoffset, ← List.cons_append (a := 'T'), ← List.append_assoc,
      spellZulu_append]
  have hassumed : u.assumeUtc = u := by
    rw [Moment.assumeUtc, hoffset, Option.getD_some, ← hoffset]
  simp [Value.toMoment, hzulu, Moment.moment?_isoText hu, Except.map, hassumed, bind, Except.bind]

/-! ## Members -/

namespace ReadsBack

/-- What is read for a document has its keys, in its order, with related values. -/
theorem entries (hV : ReadsBack V) {es : List (String × Value)} {v : Value}
    (h : V (document es) v) :
    ∃ (fs : List (String × Value)) (label : Label),
      v = .map (fs.map fun f => (.text f.1, f.2)) label ∧
        List.Forall₂ (fun e f => e.1 = f.1 ∧ V e.2 f.2) es fs := by
  obtain ⟨fs, label, rfl, hfs, -⟩ := hV.map h
  rw [List.forall₂_map_left_iff] at hfs
  suffices hkeys : ∃ gs : List (String × Value), fs = gs.map (fun f => (.text f.1, f.2)) ∧
      List.Forall₂ (fun e f => e.1 = f.1 ∧ V e.2 f.2) es gs by
    obtain ⟨gs, rfl, hgs⟩ := hkeys
    exact ⟨gs, label, rfl, hgs⟩
  clear h
  induction hfs with
  | nil => exact ⟨[], rfl, .nil⟩
  | @cons e f es fs hef _ ih =>
    obtain ⟨gs, rfl, hgs⟩ := ih
    exact ⟨(e.1, f.2) :: gs, by rw [List.map_cons, ← hV.text hef.1], .cons ⟨rfl, hef.2⟩ hgs⟩

/-- A key of a document is read back with a related value. -/
theorem member (hV : ReadsBack V) {es : List (String × Value)} {w v : Value}
    (h : V (document es) v) (key : String) (hw : Ledger.find? es key = some w) :
    ∃ x, v.member key = .ok x ∧ v.member? key = .ok (some x) ∧ V w x := by
  obtain ⟨fs, label, rfl, hfs⟩ := hV.entries h
  obtain ⟨x, hx, hwx⟩ :
      ∃ x, Entries.get? (fs.map fun f => (.text f.1, f.2)) key = some x ∧ V w x := by
    clear h
    induction hfs with
    | nil => cases hw
    | @cons e f es fs hef _ ih =>
      rw [List.map_cons, Entries.get?_cons, ← hef.1]
      rw [Ledger.find?_cons] at hw
      split at hw
      · next he =>
        rw [if_pos (eq_of_beq he).symm]
        exact ⟨f.2, rfl, Option.some.inj hw ▸ hef.2⟩
      · next he =>
        rw [if_neg fun heq => he (beq_iff_eq.mpr heq.symm)]
        exact ih hw
  exact ⟨x, by simp [Value.member, hx], by simp [Value.member?, hx], hwx⟩

variable {es : List (String × Value)} {v : Value}

theorem textMember (hV : ReadsBack V) {s : String} (h : V (document es) v) (key : String)
    (hw : Ledger.find? es key = some (.text s)) : textMember v key = .ok s := by
  obtain ⟨x, hx, -, hwx⟩ := hV.member h key hw
  rw [Regen.textMember, hx, hV.text hwx]
  exact Value.toText_text s

theorem counter (hV : ReadsBack V) {n : Int} (h : V (document es) v) (key : String)
    (hw : Ledger.find? es key = some (.int n)) : counter v key = .ok n := by
  obtain ⟨x, -, hx, hwx⟩ := hV.member h key hw
  rw [Regen.counter, hx, hV.int hwx]
  rfl

theorem moment (hV : ReadsBack V) {t : Moment} {s : String} (h : V (document es) v) (key : String)
    (hs : timeText t = .ok s) (hw : Ledger.find? es key = some (.text s)) :
    ∃ x u, v.member key = .ok x ∧ x.toMoment = .ok u ∧ t.toUtc = .ok u := by
  obtain ⟨x, hx, -, hwx⟩ := hV.member h key hw
  obtain ⟨u, hu, hread⟩ := toMoment_timeText hs
  exact ⟨x, u, hx, hV.text hwx ▸ hread, hu⟩

theorem mapM_toText (names : List String) :
    (names.map Value.text).mapM Value.toText = .ok names := by
  rw [mapM_eq_ok, List.forall₂_map_left_iff]
  exact List.forall₂_same.mpr fun s _ => Value.toText_text s

/-- A list of texts is read back, also if it is empty. -/
theorem textsOf (hV : ReadsBack V) {names : List String} (h : V (textList names) v) :
    textsOf (some v) = .ok names := by
  obtain ⟨ys, label, rfl, hys⟩ := hV.list h
  have hys : ys = names.map .text := by
    rw [List.forall₂_map_left_iff] at hys
    clear h
    induction hys with
    | nil => rfl
    | cons hx _ ih => rw [List.map_cons, ← ih, hV.text hx]
  subst hys
  cases names with
  | nil => rfl
  | cons n rest => exact mapM_toText (n :: rest)

/-- A mapping is read back, also if it is empty. -/
theorem toEntries (hV : ReadsBack V) {es : Entries} (h : V (.map es none) v) :
    ∃ fs, (Value.orElse (some v) (.map [] none)).toEntries = .ok fs ∧
      V (.map es none) (.map fs none) := by
  obtain ⟨fs, label, rfl, -, hfs⟩ := hV.map h
  cases fs with
  | nil => exact ⟨[], rfl, hfs⟩
  | cons f fs => exact ⟨f :: fs, rfl, hfs⟩

end ReadsBack

theorem orElse_text (s : String) : Value.orElse (some (.text s)) (.text "") = .text s := by
  simp [Value.orElse, Value.isTruthy]

/-! ## Records -/

theorem SourceRecord.exists_ofDocument (hV : ReadsBack V) {r : SourceRecord} {w v : Value}
    (hw : r.toDocument = .ok w) (hv : V w v)
    (hT : ∀ u, r.fetchedAt.toUtc = .ok u → T r.fetchedAt u) :
    ∃ s, SourceRecord.ofDocument v = .ok s ∧ SourceRecord.Rel T V r s := by
  obtain ⟨fetched, hfetched, hw⟩ := bind_eq_ok.mp hw
  cases hw
  have hurl := hV.textMember hv "url" rfl
  have href := hV.textMember hv "ref" rfl
  have hfingerprint := hV.textMember hv "fingerprint" rfl
  obtain ⟨time, u, htime, hread, hu⟩ := hV.moment hv "fetched_at" hfetched rfl
  obtain ⟨filters, -, hfilters, hfV⟩ := hV.member hv "filters" rfl
  obtain ⟨metadata, -, hmetadata, hmV⟩ := hV.member hv "metadata" rfl
  obtain ⟨fs, hentries, hfs⟩ := hV.toEntries hmV
  refine ⟨⟨r.url, r.ref, r.fingerprint, u, r.filters, fs⟩, ?_,
    ⟨rfl, rfl, rfl, hT u hu, rfl, hfs⟩⟩
  simp only [SourceRecord.ofDocument, hurl, href, hfingerprint, htime, hread, hfilters,
    hV.textsOf hfV, hmetadata, hentries, bind, Except.bind, pure, Except.pure]

theorem FileRecord.exists_ofDocument (hV : ReadsBack V) {r : FileRecord} {w v : Value}
    (hw : r.toDocument = .ok w) (hv : V w v)
    (hT : ∀ u, r.modifiedAt.toUtc = .ok u → T r.modifiedAt u) :
    ∃ s, FileRecord.ofDocument v = .ok s ∧ FileRecord.Rel T V r s := by
  obtain ⟨modified, hmodified, hw⟩ := bind_eq_ok.mp hw
  cases hw
  have hsha := hV.textMember hv "sha256" rfl
  obtain ⟨size, hsize, -, hsV⟩ := hV.member hv "size" rfl
  obtain ⟨time, u, htime, hread, hu⟩ := hV.moment hv "modified_at" hmodified rfl
  obtain ⟨owner, -, howner, hoV⟩ := hV.member hv "source_id" rfl
  obtain ⟨fileType, -, hfileType, hftV⟩ := hV.member hv "file_type" rfl
  obtain ⟨lineCount, -, hlineCount, hlcV⟩ := hV.member hv "line_count" rfl
  rw [hV.int hsV] at hsize
  rw [hV.text hoV] at howner
  refine ⟨⟨r.sha256, r.size, u, r.owner, fileType, lineCount⟩, ?_,
    ⟨rfl, rfl, hT u hu, rfl, hftV, hlcV⟩⟩
  simp only [FileRecord.ofDocument, hsha, hsize, htime, hread, howner, hfileType, hlineCount,
    orElse_text, Value.toText_text, Option.getD_some, bind, Except.bind, pure, Except.pure]
  rfl

theorem Statistics.exists_ofDocument (hV : ReadsBack V) {s : Statistics} {v : Value}
    (hv : V s.toDocument v) :
    ∃ t, Statistics.ofDocument (Value.orElse (some v) (.map [] Option.none)) = .ok t ∧
      Statistics.Rel V s t := by
  have htotal := hV.counter hv "total_processing_time_ms" rfl
  have hsources := hV.counter hv "sources_processed" rfl
  have hfiles := hV.counter hv "files_generated" rfl
  have herrors := hV.counter hv "error_count" rfl
  have hwarnings := hV.counter hv "warning_count" rfl
  obtain ⟨rate, -, hrate, hrV⟩ := hV.member hv "cache_hit_rate" rfl
  obtain rfl := hV.real hrV
  have hsome : Value.orElse (some v) (.map [] Option.none) = v := by
    obtain ⟨fs, label, rfl, hfs⟩ := hV.entries hv
    obtain ⟨f, fs, -, -, rfl⟩ := List.forall₂_cons_left_iff.mp hfs
    rfl
  refine ⟨s, ?_, ⟨rfl, rfl, rfl, rfl, rfl, hrV⟩⟩
  simp only [hsome, Statistics.ofDocument, htotal, hsources, hfiles, herrors, hwarnings, hrate,
    bind, Except.bind, pure, Except.pure]
  rfl

/-! ## Ledgers -/

namespace Ledger

variable {α : Type} {R : α → α → Prop} {write : α → Except Fault Value}
  {read : Value → Except Fault α} {l : Ledger α}

/-- Entries that are written and read one by one are related one by one. -/
theorem exists_mapM_read {es fs : List (String × Value)}
    (hread : ∀ e ∈ l, ∀ w v, write e.2 = .ok w → V w v → ∃ b, read v = .ok b ∧ R e.2 b)
    (hes : List.Forall₂ (fun e p => (do pure (e.1, ← write e.2)) = Except.ok p) l es)
    (hfs : List.Forall₂ (fun p f => p.1 = f.1 ∧ V p.2 f.2) es fs) :
    ∃ m, (fs.map fun f => (Value.text f.1, f.2)).mapM
          (fun f => do pure (← f.1.toText, ← read f.2)) = .ok m ∧
      List.Forall₂ (fun e f => e.1 = f.1 ∧ R e.2 f.2) l m := by
  induction hes generalizing fs with
  | nil =>
    cases hfs
    exact ⟨[], rfl, .nil⟩
  | @cons e p l es hp _ ih =>
    obtain ⟨f, fs, hpf, hrest, rfl⟩ := List.forall₂_cons_left_iff.mp hfs
    obtain ⟨w, hw, hp⟩ := bind_eq_ok.mp hp
    cases hp
    obtain ⟨b, hb, hR⟩ := hread e List.mem_cons_self w f.2 hw hpf.2
    obtain ⟨m, hm, hrel⟩ := ih (fun e he => hread e (List.mem_cons_of_mem _ he)) hrest
    refine ⟨(f.1, b) :: m, ?_, .cons ⟨hpf.1, hR⟩ hrel⟩
    rw [List.map_cons, List.mapM_cons, hm, hb, Value.toText_text]
    rfl

/-- A ledger is read back when its entries are. -/
theorem exists_ofDocument (hV : ReadsBack V) {w v : Value} (hdistinct : l.names.Nodup)
    (hread : ∀ e ∈ l, ∀ w v, write e.2 = .ok w → V w v → ∃ b, read v = .ok b ∧ R e.2 b)
    (hw : l.toDocument write = .ok w) (hv : V w v) :
    ∃ m, Ledger.ofDocument read (some v) = .ok m ∧ Ledger.Rel R l m := by
  obtain ⟨es, hes, hw⟩ := bind_eq_ok.mp hw
  cases hw
  obtain ⟨fs, label, rfl, hfs⟩ := hV.entries hv
  obtain ⟨m, hm, hrel⟩ := exists_mapM_read (fun e he => hread e (perm_sortBy.mem_iff.mp he))
    (mapM_eq_ok.mp hes) hfs
  have hitems : (Value.orElse (some (.map (fs.map fun f => (.text f.1, f.2)) label))
      (.map [] none)).items = .ok (fs.map fun f => (.text f.1, f.2)) := by
    cases fs <;> rfl
  have hrel := rel_of_forall₂_sorted hdistinct hrel
  have hcollected : ofEntries m = m := ofEntries_of_nodup (hrel.names.nodup_iff.mpr hdistinct)
  refine ⟨m, ?_, hrel⟩
  rw [Ledger.ofDocument, hitems]
  exact bind_eq_ok.mpr ⟨_, rfl, bind_eq_ok.mpr ⟨m, hm, by rw [hcollected]; rfl⟩⟩

/-- A ledger whose entries can all be written has a document. -/
theorem exists_toDocument (h : ∀ e ∈ l, ∃ w, write e.2 = .ok w) :
    ∃ w, l.toDocument write = .ok w := by
  suffices hes : ∃ es, l.sorted.mapM (fun e => do pure (e.1, ← write e.2)) = Except.ok es by
    obtain ⟨es, hes⟩ := hes
    exact ⟨document es, bind_eq_ok.mpr ⟨es, hes, rfl⟩⟩
  simp only [mapM_eq_ok]
  have h : ∀ e ∈ l.sorted, ∃ w, write e.2 = .ok w := fun e he => h e (perm_sortBy.mem_iff.mp he)
  generalize l.sorted = l at h
  induction l with
  | nil => exact ⟨[], .nil⟩
  | cons e rest ih =>
    obtain ⟨w, hw⟩ := h e List.mem_cons_self
    obtain ⟨es, hes⟩ := ih fun e he => h e (List.mem_cons_of_mem _ he)
    exact ⟨(e.1, w) :: es, .cons (bind_eq_ok.mpr ⟨w, hw, rfl⟩) hes⟩

end Ledger

/-! ## Lockfiles -/

namespace Lockfile

/-- All times of a lockfile. -/
def times (l : Lockfile) : List Moment :=
  l.generatedAt :: (l.sources.map (·.2.fetchedAt) ++ l.files.map (·.2.modifiedAt))

theorem fetchedAt_mem_times {l : Lockfile} {e : String × SourceRecord} (he : e ∈ l.sources) :
    e.2.fetchedAt ∈ l.times :=
  List.mem_cons_of_mem _ (List.mem_append_left _ (List.mem_map_of_mem he))

theorem modifiedAt_mem_times {l : Lockfile} {e : String × FileRecord} (he : e ∈ l.files) :
    e.2.modifiedAt ∈ l.times :=
  List.mem_cons_of_mem _ (List.mem_append_right _ (List.mem_map_of_mem he))

/-- A lockfile whose times all exist in universal time has a document. -/
theorem exists_toDocument {l : Lockfile} (h : ∀ t ∈ l.times, ∃ u, t.toUtc = .ok u) :
    ∃ es, l.toDocument = .ok es := by
  have htext : ∀ t ∈ l.times, ∃ s, timeText t = .ok s := by
    intro t ht
    obtain ⟨u, hu⟩ := h t ht
    exact ⟨u.isoText, by rw [timeText, hu]; rfl⟩
  obtain ⟨generated, hgenerated⟩ := htext l.generatedAt List.mem_cons_self
  obtain ⟨sources, hsources⟩ : ∃ w, l.sources.toDocument SourceRecord.toDocument = .ok w :=
    Ledger.exists_toDocument fun e he =>
      have ⟨s, hs⟩ := htext _ (fetchedAt_mem_times he)
      ⟨_, bind_eq_ok.mpr ⟨s, hs, rfl⟩⟩
  obtain ⟨files, hfiles⟩ : ∃ w, l.files.toDocument FileRecord.toDocument = .ok w :=
    Ledger.exists_toDocument fun e he =>
      have ⟨s, hs⟩ := htext _ (modifiedAt_mem_times he)
      ⟨_, bind_eq_ok.mpr ⟨s, hs, rfl⟩⟩
  obtain ⟨dependencies, hdependencies⟩ :
      ∃ w, l.dependencies.toDocument (fun names => .ok (textList names)) = .ok w :=
    Ledger.exists_toDocument fun _ _ => ⟨_, rfl⟩
  exact ⟨_, bind_eq_ok.mpr ⟨generated, hgenerated, bind_eq_ok.mpr ⟨sources, hsources,
    bind_eq_ok.mpr ⟨files, hfiles, bind_eq_ok.mpr ⟨dependencies, hdependencies, rfl⟩⟩⟩⟩⟩

/-- A lockfile's document is read as a lockfile that is the same but for the times and values that
    changed on the way. -/
theorem exists_ofDocument (hV : ReadsBack V) {l : Lockfile} {es : Entries} {v : Value}
    (hschema : l.schemaVersion = currentSchema) (hsources : l.sources.names.Nodup)
    (hfiles : l.files.names.Nodup) (hdependencies : l.dependencies.names.Nodup)
    (hT : ∀ t ∈ l.times, ∀ u, t.toUtc = .ok u → T t u)
    (hes : l.toDocument = .ok es) (hv : V (.map es none) v) :
    ∃ m, ofDocument v = .ok m ∧ Lockfile.Rel T V l m := by
  obtain ⟨generated, hgenerated, hes⟩ := bind_eq_ok.mp hes
  obtain ⟨sources, hs, hes⟩ := bind_eq_ok.mp hes
  obtain ⟨files, hf, hes⟩ := bind_eq_ok.mp hes
  obtain ⟨dependencies, hd, hes⟩ := bind_eq_ok.mp hes
  cases hes
  have hv : V (document [
      ("schema_version", .text l.schemaVersion), ("generated_at", .text generated),
      ("tool_version", .text l.toolVersion), ("revision", .int l.revision),
      ("sources", sources), ("files", files), ("dependencies", dependencies),
      ("statistics", l.statistics.toDocument)]) v := hv
  have hversion := hV.textMember hv "schema_version" rfl
  obtain ⟨time, u, htime, hread, hu⟩ := hV.moment hv "generated_at" hgenerated rfl
  obtain ⟨tool, -, htool, htV⟩ := hV.member hv "tool_version" rfl
  have hrevision := hV.counter hv "revision" rfl
  obtain ⟨vs, -, hvs, hsV⟩ := hV.member hv "sources" rfl
  obtain ⟨vf, -, hvf, hfV⟩ := hV.member hv "files" rfl
  obtain ⟨vd, -, hvd, hdV⟩ := hV.member hv "dependencies" rfl
  obtain ⟨vt, -, hvt, htV'⟩ := hV.member hv "statistics" rfl
  obtain ⟨ms, hms, hS⟩ := Ledger.exists_ofDocument (R := SourceRecord.Rel T V) hV hsources
    (fun e he _ _ hw hv => SourceRecord.exists_ofDocument hV hw hv
      (hT _ (fetchedAt_mem_times he))) hs hsV
  obtain ⟨mf, hmf, hF⟩ := Ledger.exists_ofDocument (R := FileRecord.Rel T V) hV hfiles
    (fun e he _ _ hw hv => FileRecord.exists_ofDocument hV hw hv
      (hT _ (modifiedAt_mem_times he))) hf hfV
  obtain ⟨md, hmd, hD⟩ := Ledger.exists_ofDocument (R := (· = ·)) hV hdependencies
    (fun e _ _ _ hw hv => ⟨e.2, hV.textsOf (Except.ok.inj hw ▸ hv), rfl⟩) hd hdV
  obtain ⟨st, hst, hStatistics⟩ := Statistics.exists_ofDocument hV htV'
  refine ⟨⟨l.schemaVersion, u, l.toolVersion, l.revision, ms, mf, md, st⟩, ?_,
    rfl, hT _ List.mem_cons_self _ hu, rfl, rfl, hS, hF, hD, hStatistics⟩
  obtain ⟨fs, label, rfl, -⟩ := hV.entries hv
  rw [hV.text htV] at htool
  have hsupported : (l.schemaVersion != currentSchema) = false := by simp [hschema]
  simp only [ofDocument, hversion, hsupported, hvs, hvf, hvd, hvt, hms, hmf, hmd, hst, htime,
    hread, htool, hrevision, Option.getD_some, Value.toText_text, bind, Except.bind, pure,
    Except.pure]
  rfl

theorem equals_of_toUtc {t u : Moment} (haware : t.offset.isSome) (hu : t.toUtc = .ok u) :
    t.equals u = true := by
  simp [Moment.equals, haware, Moment.offset_of_toUtc hu, Moment.instant_of_toUtc hu]

/-- Decoding undoes encoding: a lockfile of the current format, whose times have offsets and exist
    in universal time, has a document, and the document is read as a lockfile with the same fields,
    the times compared as instants and the ledgers by what they have under each name. -/
theorem ofDocument_toDocument {l : Lockfile} (hschema : l.schemaVersion = currentSchema)
    (hsources : l.sources.names.Nodup) (hfiles : l.files.names.Nodup)
    (hdependencies : l.dependencies.names.Nodup)
    (htimes : ∀ t ∈ l.times, t.offset.isSome ∧ ∃ u, t.toUtc = .ok u) :
    ∃ es m, l.toDocument = .ok es ∧ ofDocument (.map es none) = .ok m ∧
      l.Rel (fun t u => t.equals u = true) (· = ·) m := by
  obtain ⟨es, hes⟩ := exists_toDocument fun t ht => (htimes t ht).2
  obtain ⟨m, hm, hrel⟩ := exists_ofDocument readsBack_eq hschema hsources hfiles hdependencies
    (fun t ht _ hu => equals_of_toUtc (htimes t ht).1 hu) hes rfl
  exact ⟨es, m, hes, hm, hrel⟩

/-- A lockfile with empty and nested fields and times on both sides of universal time. -/
def ofTwoSources : Lockfile where
  schemaVersion := "1.0"
  generatedAt := ⟨⟨2024, 2, 29⟩, 0, 30, 0, 250000, some 3600000000⟩
  toolVersion := ""
  revision := 0
  sources := [
    ("beta", ⟨"https://example.com/b.git", "", "f2", ⟨⟨9999, 12, 31⟩, 23, 59, 59, 0, some 0⟩, [],
      []⟩),
    ("alpha", ⟨"https://example.com/a.git", "main", "f1",
      ⟨⟨2024, 1, 1⟩, 0, 0, 0, 1, some (-1800000000)⟩, ["*.md", ""],
      [(.text "nested", .map [(.int 1, .list [.null, .real .zero] none)] none)]⟩)]
  files := [("out/b.txt", ⟨"00ff", 0, ⟨⟨1, 1, 1⟩, 0, 0, 0, 0, some 0⟩, "", .null, .int 0⟩)]
  dependencies := [("beta", ["alpha"]), ("alpha", [])]
  statistics := ⟨12, 2, 1, 0, 0, .zero⟩

theorem ofDocument_toDocument_ofTwoSources :
    ∃ es m, ofTwoSources.toDocument = .ok es ∧ ofDocument (.map es none) = .ok m ∧
      ofTwoSources.Rel (fun t u => t.equals u = true) (· = ·) m := by
  refine ofDocument_toDocument rfl (by decide) (by decide) (by decide) fun t ht => ?_
  have hall : ∀ t ∈ ofTwoSources.times, t.offset.isSome ∧ t.toUtc.isOk := by decide
  obtain ⟨haware, hok⟩ := hall t ht
  match hu : t.toUtc with
  | .ok u => exact ⟨haware, u, rfl⟩
  | .error e => simp [hu, Except.isOk, Except.toBool] at hok

end Lockfile

end Regen
