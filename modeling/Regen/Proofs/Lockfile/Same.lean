import Regen.Proofs.Lockfile.Load

/-! # Equal lockfiles

    Lockfiles that are related field by field are equal: their times are the same instants, their
    ledgers have the same entries under each name, and their free values have the same content. -/

namespace Regen

open Time

theorem Ledger.sameBy_of_rel {α : Type} {R : α → α → Prop} {same : α → α → Bool}
    {l m : Ledger α} (hdistinct : l.names.Nodup) (h : Ledger.Rel R l m)
    (hsame : ∀ e ∈ l, ∀ x, R e.2 x → same e.2 x = true) : l.sameBy same m = true := by
  have hlength : l.length = m.length := by
    have hnames := h.names.length_eq
    simpa [names] using hnames.symm
  rw [sameBy, hlength, beq_self_eq_true, Bool.true_and, List.all_eq_true]
  intro e he
  obtain ⟨x, hx, hR⟩ := h.exists_entry ((find?_eq_some_iff hdistinct).mpr he)
  rw [hx]
  exact hsame e he x hR

/-- Two times are the same instant. -/
abbrev SameTime (t u : Moment) : Prop := t.equals u = true

/-- Whatever `V` relates to a value has the same content. -/
def KeepsContent (V : Value → Value → Prop) (v : Value) : Prop := ∀ w, V v w → v.same w = true

variable {V : Value → Value → Prop}

theorem SourceRecord.same_of_rel {r s : SourceRecord} (h : SourceRecord.Rel SameTime V r s)
    (hmetadata : KeepsContent V (.map r.metadata none)) : r.same s = true := by
  have hsame : Entries.same r.metadata s.metadata = true := hmetadata _ h.metadata
  simp [SourceRecord.same, h.url, h.ref, h.fingerprint, h.filters, hsame]
  exact h.fetchedAt

theorem FileRecord.same_of_rel {r s : FileRecord} (h : FileRecord.Rel SameTime V r s)
    (htype : KeepsContent V r.fileType) (hcount : KeepsContent V r.lineCount) :
    r.same s = true := by
  have htype := htype _ h.fileType
  have hcount := hcount _ h.lineCount
  simp [FileRecord.same, h.sha256, h.size, h.owner, htype, hcount]
  exact h.modifiedAt

theorem Statistics.same_of_rel {s t : Statistics} (h : Statistics.Rel V s t)
    (hrate : KeepsContent V (.real s.cacheHitRate)) : s.same t = true := by
  have hrate := hrate _ h.cacheHitRate
  simp [Statistics.same, h.totalMillis, h.sourcesProcessed, h.filesGenerated, h.errors,
    h.warnings, hrate]

namespace Lockfile

/-- The values in a lockfile's records that may be anything. -/
def freeValues (l : Lockfile) : List Value :=
  l.sources.map (fun e => .map e.2.metadata none) ++
    l.files.flatMap fun e => [e.2.fileType, e.2.lineCount]

theorem forall_freeValues {l : Lockfile} {P : Value → Prop} : (∀ v ∈ l.freeValues, P v) ↔
    (∀ e ∈ l.sources, P (.map e.2.metadata none)) ∧
      ∀ e ∈ l.files, P e.2.fileType ∧ P e.2.lineCount := by
  simp only [freeValues, List.forall_mem_append, List.forall_mem_map, List.forall_mem_flatMap,
    List.forall_mem_cons, List.not_mem_nil, false_implies, implies_true, and_true]

/-- **Related lockfiles are equal** if the relation keeps the content of their values. -/
theorem same_of_rel {l m : Lockfile} (hl : WellFormed l) (h : Lockfile.Rel SameTime V l m)
    (hvalues : ∀ v ∈ l.freeValues, KeepsContent V v)
    (hrate : KeepsContent V (.real l.statistics.cacheHitRate)) : l.same m = true := by
  obtain ⟨hmetadata, hfields⟩ := forall_freeValues.mp hvalues
  have hsources : l.sources.sameBy SourceRecord.same m.sources = true :=
    Ledger.sameBy_of_rel hl.sources h.sources fun _ he _ hrel =>
      SourceRecord.same_of_rel hrel (hmetadata _ he)
  have hfiles : l.files.sameBy FileRecord.same m.files = true :=
    Ledger.sameBy_of_rel hl.files h.files fun _ he _ hrel =>
      FileRecord.same_of_rel hrel (hfields _ he).1 (hfields _ he).2
  have hdependencies : l.dependencies.sameBy (· == ·) m.dependencies = true :=
    Ledger.sameBy_of_rel hl.dependencies h.dependencies fun _ _ _ hrel => by simp [hrel]
  have hstatistics := Statistics.same_of_rel h.statistics hrate
  have hgenerated : l.generatedAt.equals m.generatedAt = true := h.generatedAt
  simp [Lockfile.same, h.schemaVersion, h.toolVersion, h.revision, hsources, hfiles,
    hdependencies, hstatistics, hgenerated]

end Lockfile

end Regen
