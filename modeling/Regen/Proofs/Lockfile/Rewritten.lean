import Regen.Proofs.Lockfile.Canonical
import Regen.Proofs.Lockfile.Same
import Regen.Proofs.Value.Plain

/-! # Writing again what was read

    Reading accepts much that is never written: keys and scalars of any type, sections that are
    null, times in any spelling and offset.  What was read is written in the one form of documents,
    and that form is read as an equal lockfile and written as itself.  The only lockfiles that are
    read and cannot be written have a time whose date does not exist in universal time. -/

namespace Regen

open Time

/-! ## Plain documents -/

section plain
variable {v : Value}

theorem SourceRecord.isPlain_of_ofDocument {r : SourceRecord} (hv : v.isPlain = true)
    (h : SourceRecord.ofDocument v = .ok r) : (Value.map r.metadata none).isPlain = true := by
  simp only [SourceRecord.ofDocument, bind_eq_ok] at h
  obtain ⟨_, -, _, -, _, -, _, -, _, -, _, -, _, -, member, hmember, metadata, hmetadata, hr⟩ := h
  obtain rfl := Except.ok.inj hr
  have hnotes : (Value.orElse member (.map [] none)).isPlain = true :=
    Value.isPlain_orElse (fun w hw => Value.isPlain_of_member? hv (hw ▸ hmember)) rfl
  rw [Value.isPlain]
  exact Value.arePlainEntries_of_toEntries hnotes hmetadata

theorem FileRecord.isPlain_of_ofDocument {r : FileRecord} (hv : v.isPlain = true)
    (h : FileRecord.ofDocument v = .ok r) :
    r.fileType.isPlain = true ∧ r.lineCount.isPlain = true := by
  simp only [FileRecord.ofDocument, bind_eq_ok] at h
  obtain ⟨_, -, _, -, _, -, _, -, _, -, _, -, _, -, fileType, htype, lineCount, hcount, hr⟩ := h
  obtain rfl := Except.ok.inj hr
  have hplain : ∀ {key o}, v.member? key = .ok o → (o.getD .null).isPlain = true := by
    intro key o hmember
    cases o with
    | none => rfl
    | some w => exact Value.isPlain_of_member? hv hmember
  exact ⟨hplain htype, hplain hcount⟩

/-- The values that the entries of a ledger are read from are plain. -/
theorem Ledger.isPlain_items {o : Option Value} {items : Entries} (ho : ∀ w ∈ o, w.isPlain = true)
    (hitems : (Value.orElse o (.map [] none)).items = .ok items) :
    ∀ item ∈ items, item.2.isPlain = true := by
  have hplain : (Value.orElse o (.map [] none)).isPlain = true := Value.isPlain_orElse ho rfl
  unfold Value.items at hitems
  split at hitems
  · next hmap =>
    obtain rfl := Except.ok.inj hitems
    rw [hmap, Value.isPlain, Value.arePlainEntries_iff] at hplain
    exact fun item hitem => (hplain.1 item hitem).2
  · cases hitems

end plain

namespace Lockfile

variable {v : Value} {l : Lockfile}

/-- **From a plain document come plain values.** -/
theorem isPlain_of_mem_freeValues (hv : v.isPlain = true) (h : ofDocument v = .ok l) :
    ∀ w ∈ l.freeValues, w.isPlain = true := by
  obtain ⟨-, ⟨ws, hws, hsources⟩, ⟨wf, hwf, hfiles⟩, -, -, -⟩ := readFrom_of_ofDocument h
  obtain ⟨-, sources, hs, hsources⟩ := Ledger.of_ofDocument hsources
  obtain ⟨-, files, hf, hfiles⟩ := Ledger.of_ofDocument hfiles
  refine forall_freeValues.mpr ⟨fun e he => ?_, fun e he => ?_⟩
  · obtain ⟨item, hitem, hread⟩ := hsources e he
    refine SourceRecord.isPlain_of_ofDocument (Ledger.isPlain_items ?_ hs item hitem) hread
    exact fun w hw => Value.isPlain_of_member? hv (hw ▸ hws)
  · obtain ⟨item, hitem, hread⟩ := hfiles e he
    refine FileRecord.isPlain_of_ofDocument (Ledger.isPlain_items ?_ hf item hitem) hread
    exact fun w hw => Value.isPlain_of_member? hv (hw ▸ hwf)

/-- Whatever is read has an offset. -/
theorem offset_of_mem_times (h : ofDocument v = .ok l) {t : Moment} (ht : t ∈ l.times) :
    t.offset.isSome := by
  obtain ⟨_, hfetched, hmodified⟩ := of_ofDocument h
  obtain ⟨_, -, hgenerated⟩ := (readFrom_of_ofDocument h).generatedAt
  rcases List.mem_cons.mp ht with rfl | ht
  · exact offset_of_toMoment hgenerated
  rcases List.mem_append.mp ht with ht | ht
  · obtain ⟨e, he, rfl⟩ := List.mem_map.mp ht
    exact hfetched e he
  · obtain ⟨e, he, rfl⟩ := List.mem_map.mp ht
    exact hmodified e he

/-! ## The second document -/

/-- **What was read is written in the form that is read and written as itself.**  A lockfile that
    was read has a document if and only if its times exist in universal time.  The document is read
    as a lockfile with the same fields, the same entries and the same instants, and that lockfile
    has the identical document.  If what was read is plain and the hit rate is a number, the two
    lockfiles are equal. -/
theorem ofDocument_rewritten (h : ofDocument v = .ok l) :
    ((∃ es, l.toDocument = .ok es) ↔ ∀ t ∈ l.times, ∃ u, t.toUtc = .ok u) ∧
    ∀ es, l.toDocument = .ok es →
      ∃ m, ofDocument (.map es none) = .ok m ∧ m.toDocument = .ok es ∧
        l.Rel SameTime (· = ·) m ∧
        (v.isPlain = true → l.statistics.cacheHitRate.isNumber = true → l.same m = true) := by
  refine ⟨exists_toDocument_iff, fun es hes => ?_⟩
  obtain ⟨hl, -⟩ := of_ofDocument h
  have hread : ∀ {T : Moment → Moment → Prop},
      (∀ t ∈ l.times, ∀ u, t.toUtc = .ok u → T t u) →
      ∃ m, ofDocument (.map es none) = .ok m ∧ l.Rel T (· = ·) m := fun hT =>
    exists_ofDocument readsBack_eq hl.schemaVersion hl.sources hl.files hl.dependencies hT hes rfl
  obtain ⟨m, hm, hsame⟩ : ∃ m, ofDocument (.map es none) = .ok m ∧ l.Rel SameTime (· = ·) m :=
    hread fun t ht u hu => equals_of_toUtc (offset_of_mem_times h ht) hu
  obtain ⟨m', hm', hinstant⟩ :
      ∃ m, ofDocument (.map es none) = .ok m ∧ l.Rel OneInstant (· = ·) m :=
    hread fun t _ u hu => (Moment.instant_of_toUtc hu).symm
  obtain rfl : m = m' := Except.ok.inj (hm.symm.trans hm')
  refine ⟨m, hm, ?_, hsame, fun hv hrate => ?_⟩
  · rw [← toDocument_congr hl.sources hl.files hl.dependencies hinstant, hes]
  · have hkeeps : ∀ w : Value, w.isPlain = true → KeepsContent (· = ·) w :=
      fun w hw _ heq => heq ▸ Value.same_self w hw
    refine same_of_rel hl hsame (fun w hw => hkeeps w (isPlain_of_mem_freeValues hv h w hw)) ?_
    exact hkeeps _ (by rw [Value.isPlain]; exact hrate)

/-- A document with a number for a name, a section that is null, notes given as pairs, and times
    without an offset and with one. -/
def liberal : Value := document [
  ("schema_version", .text "1.0"), ("generated_at", .time ⟨⟨2024, 6, 1⟩, 12, 0, 0, 0, none⟩ none),
  ("sources", .map [(.int 7, document [
    ("url", .text "repo"), ("ref", .bool true), ("fingerprint", .null),
    ("fetched_at", .text "2024-06-01T14:00:00+02:00"),
    ("metadata", .list [.tuple [.text "a", .int 1]] none)])] none),
  ("files", .null), ("dependencies", .map [(.int 7, .null)] none)]

theorem ofDocument_rewritten_of_liberal :
    ∃ l es m, ofDocument liberal = .ok l ∧ l.toDocument = .ok es ∧
      ofDocument (.map es none) = .ok m ∧ m.toDocument = .ok es ∧ l.same m = true := by
  have hcheck : (ofDocument liberal).toOption.any fun l =>
      l.statistics.cacheHitRate.isNumber && l.toDocument.isOk := by
    decide +kernel
  obtain ⟨l, hl, hfacts⟩ := exists_ok_of_any hcheck
  obtain ⟨hrate, hok⟩ := Bool.and_eq_true_iff.mp hfacts
  match hes : l.toDocument with
  | .error _ =>
    rw [hes] at hok
    cases hok
  | .ok es =>
    obtain ⟨m, hm, hagain, -, hsame⟩ := (ofDocument_rewritten hl).2 es hes
    exact ⟨l, es, m, hl, hes, hm, hagain, hsame (by decide +kernel) hrate⟩

/-- A document whose time is in the year before the first, once it is told in universal time. -/
def beforeFirstYear : Value := document [
  ("schema_version", .text "1.0"), ("generated_at", .text "0001-01-01T00:00:00+14:00")]

/-- Does writing fail because a time does not exist in universal time? -/
def missesYear (l : Lockfile) : Bool :=
  match l.toDocument with
  | .error .timeRange => true
  | _ => false

/-- **A time that does not exist in universal time is read and cannot be written.** -/
theorem toDocument_misses_year : beforeFirstYear.isPlain = true ∧
    ∃ l, ofDocument beforeFirstYear = .ok l ∧ l.toDocument = .error .timeRange := by
  have hcheck : (ofDocument beforeFirstYear).toOption.any missesYear := by decide +kernel
  obtain ⟨l, hl, hmisses⟩ := exists_ok_of_any hcheck
  refine ⟨by decide +kernel, l, hl, ?_⟩
  unfold missesYear at hmisses
  split at hmisses
  · assumption
  · cases hmisses

end Lockfile

end Regen
