import Regen.Proofs.Lockfile.AllOrNothing
import Regen.Proofs.Lockfile.Legible
import Regen.Proofs.Lockfile.Same
import Regen.Proofs.Value.Data

/-! # Round trips

    A lockfile that was saved is loaded as an equal one, if its free values are data and YAML gives
    its document back. -/

namespace Regen

namespace Lockfile

/-- **A lockfile is typed** if its free values are data, its hit rate is a number, and its times
    have offsets. -/
structure Typed (l : Lockfile) : Prop where
  metadata : ∀ e ∈ l.sources, Value.areDataEntries e.2.metadata = true
  fileType : ∀ e ∈ l.files, e.2.fileType.isData = true
  lineCount : ∀ e ∈ l.files, e.2.lineCount.isData = true
  cacheHitRate : l.statistics.cacheHitRate.isCanonical = true
  times : ∀ t ∈ l.times, t.offset.isSome

/-- Alike lockfiles are equal. -/
theorem Typed.same_of_rel {l m : Lockfile} (htyped : Typed l) (hl : WellFormed l)
    (h : Lockfile.Rel SameTime Value.Alike l m) : l.same m = true := by
  have hkeeps : ∀ v : Value, v.isData = true → KeepsContent Value.Alike v :=
    fun v hdata w halike => Value.same_of_alike hdata halike
  refine Lockfile.same_of_rel hl h (forall_freeValues.mpr ⟨fun e he => hkeeps _ ?_, fun e he =>
    ⟨hkeeps _ (htyped.fileType e he), hkeeps _ (htyped.lineCount e he)⟩⟩) (hkeeps _ ?_)
  · rw [Value.isData]
    exact htyped.metadata e he
  · rw [Value.isData]
    exact htyped.cacheHitRate

theorem IsLegible.typed {l : Lockfile} (h : l.IsLegible)
    (htimes : ∀ t ∈ l.times, t.offset.isSome) : Typed l where
  metadata e he := Value.areDataEntries_of_legible (h.sources e he).2.metadata fun _ hf =>
    Value.isData_of_legible (Value.of_mem_areLegibleEntries (h.sources e he).2.metadata hf).2
  fileType e he := Value.isData_of_legible (h.files e he).2.fileType
  lineCount e he := Value.isData_of_legible (h.files e he).2.lineCount
  cacheHitRate := h.statistics.cacheHitRate
  times := htimes

/-! ## Saving and loading -/

theorem Typed.next {l : Lockfile} (h : Typed l) : Typed l.next :=
  ⟨h.metadata, h.fileType, h.lineCount, h.cacheHitRate, h.times⟩

section saving
variable {d d' : Disk} {p : Path} {l l' : Lockfile} {force : Bool}

/-- What a save that succeeds leaves at a path with a free end. -/
theorem contentAt_of_save (hsave : save d p l force = (d', .ok l'))
    (hfree : ∀ d₁, d.makeFolders p.parent = (d₁, .ok ()) → d₁.HasFreeEnd p) :
    l' = l.next ∧ ∃ content, l.next.encode = .ok content ∧ contentAt d' p = some content := by
  have hend := saveWith_end noMishaps d p l force
  rw [← save, hsave] at hend
  cases hend with
  | done hnull hmade _ hencode hleads _ _ _ _ =>
    exact ⟨rfl, _, hencode,
      contentAt_of_holdsFile hnull (Disk.holdsFile_of_put hleads (hfree _ hmade))⟩

/-- What a lockfile was written as is read as an equal one, if YAML gives its document back. -/
theorem exists_same_of_encode (hl : WellFormed l) (htyped : Typed l) {content : Bytes}
    (hcontent : l.encode = .ok content) (hback : l.GivenBack Value.Alike) :
    ∃ m, l.same m = true ∧ ∀ {d p}, contentAt d p = some content → load d p = .ok m := by
  obtain ⟨es, hes, rfl⟩ := encode_eq_ok hcontent
  obtain ⟨v, hv, halike⟩ := hback es hes
  have htimes : ∀ t ∈ l.times, ∀ u, t.toUtc = .ok u → SameTime t u := fun t ht _ hu =>
    equals_of_toUtc (htyped.times t ht) hu
  obtain ⟨m, hm, hrel⟩ := exists_ofDocument Value.readsBack_alike hl.schemaVersion hl.sources
    hl.files hl.dependencies htimes hes halike
  refine ⟨m, htyped.same_of_rel hl hrel, fun hfile => ?_⟩
  obtain ⟨hexists, hyaml⟩ := exists_of_contentAt hfile
  rw [load, hexists, hyaml, hv]
  simp only [hm]

/-- **A lockfile that was saved is loaded as an equal one**, if YAML gives its document back. -/
theorem load_of_save (hl : WellFormed l) (htyped : Typed l)
    (hsave : save d p l force = (d', .ok l'))
    (hfree : ∀ d₁, d.makeFolders p.parent = (d₁, .ok ()) → d₁.HasFreeEnd p)
    (hback : l.next.GivenBack Value.Alike) :
    l' = { l with revision := l.revision + 1 } ∧ ∃ m, load d' p = .ok m ∧ l'.same m = true := by
  obtain ⟨rfl, content, hcontent, hfile⟩ := contentAt_of_save hsave hfree
  obtain ⟨m, hsame, hload⟩ := exists_same_of_encode hl.next htyped.next hcontent hback
  exact ⟨rfl, m, hload hfile, hsame⟩

/-- **A legible lockfile that was saved is loaded as an equal one.** -/
theorem load_of_save_legible (hl : WellFormed l) (hlegible : l.next.IsLegible)
    (htimes : ∀ t ∈ l.times, t.offset.isSome) (hsave : save d p l force = (d', .ok l'))
    (hfree : ∀ d₁, d.makeFolders p.parent = (d₁, .ok ()) → d₁.HasFreeEnd p) :
    l' = l.next ∧ ∃ m, load d' p = .ok m ∧ l'.same m = true := by
  obtain ⟨rfl, content, hcontent, hfile⟩ := contentAt_of_save hsave hfree
  obtain ⟨m, hsame, hload⟩ := exists_same_of_encode hl.next (hlegible.typed htimes) hcontent
    (hlegible.givenBack hl.next)
  exact ⟨rfl, m, hload hfile, hsame⟩

end saving

/-- A lockfile with one source. -/
def withRef (ref : String) : Lockfile :=
  blank.addSource "api" ⟨"https://a.b/c", ref, "x", blank.generatedAt, [], []⟩

/-- Where a path leads to a vacant place it has a free end. -/
theorem hasFreeEnd_of_vacant {d : Disk} {p : Path}
    (h : (d.locate p false).toOption.any (· matches .vacant _)) : d.HasFreeEnd p := by
  match hlocate : d.locate p false with
  | .ok (.vacant q) => exact Disk.IsVacant.hasFreeEnd ⟨q, Disk.leads_of_locate_vacant hlocate⟩
  | .ok (.found ..) | .error _ => simp [hlocate, Except.toOption] at h

/-- A disk without entries leaves the lockfile's path free. -/
theorem hasFreeEnd_of_empty {d₁ : Disk}
    (hmade : (⟨[], []⟩ : Disk).makeFolders lockPath.parent = (d₁, .ok ())) :
    d₁.HasFreeEnd lockPath := by
  obtain ⟨rfl, -⟩ := Prod.mk.inj hmade
  exact hasFreeEnd_of_vacant (by decide)

/-- A first save that succeeds. -/
theorem exists_save {l : Lockfile} (hok : (save ⟨[], []⟩ lockPath l false).2.isOk) :
    ∃ d' l', save ⟨[], []⟩ lockPath l false = (d', .ok l') := by
  match hsave : save ⟨[], []⟩ lockPath l false with
  | (_, .error _) =>
    rw [hsave] at hok
    cases hok
  | (d', .ok l') => exact ⟨d', l', rfl⟩

theorem load_of_save_of_one :
    ∃ d' l', save ⟨[], []⟩ lockPath (withRef "main") false = (d', .ok l') ∧
      l' = { withRef "main" with revision := 1 } ∧
      ∃ m, load d' lockPath = .ok m ∧ l'.same m = true := by
  obtain ⟨d', l', hsave⟩ := @exists_save (withRef "main") (by decide +kernel)
  have hl : WellFormed (withRef "main") := ⟨rfl, by decide, by decide, by decide⟩
  have hlegible : (withRef "main").next.IsLegible := by decide +kernel
  exact ⟨d', l', hsave, load_of_save hl ⟨by decide, by decide, by decide, by decide, by decide⟩
    hsave (fun _ => hasFreeEnd_of_empty) (hlegible.givenBack hl.next)⟩

/-- What is written of a source whose reference has a next-line mark. -/
def nextLineDocument : String := "schema_version: '1.0'
generated_at: '2024-06-01T12:00:00+00:00'
tool_version: 0.1.0
revision: 1
sources:
  api:
    url: https://a.b/c
    ref: 'a\u0085      b'
    fingerprint: x
    fetched_at: '2024-06-01T12:00:00+00:00'
    filters: []
    metadata: \x7b\x7d
files: \x7b\x7d
dependencies: \x7b\x7d
statistics:
  total_processing_time_ms: 0
  sources_processed: 0
  files_generated: 0
  error_count: 0
  warning_count: 0
  cache_hit_rate: 0.0
"

set_option maxRecDepth 3000 in
/-- **A reference with a next-line mark is not read back**: the mark is written as it is, and the
    reader folds it. -/
theorem load_misses_nextLine :
    ∃ d' l' m, save ⟨[], []⟩ lockPath (withRef "a\u0085b") false = (d', .ok l') ∧
      load d' lockPath = .ok m ∧ l'.same m = false := by
  have htext : nextLineDocument.toList = _ := Text.toList_eq rfl
  have hwritten : (withRef "a\u0085b").next.encode.toOption.any
      (· == Text.encodeUtf8 nextLineDocument.toList) := by
    rw [htext]
    decide +kernel
  have hread : isRead nextLineDocument.toList fun m => !(withRef "a\u0085b").next.same m := by
    rw [htext]
    decide +kernel
  obtain ⟨d', l', hsave⟩ := @exists_save (withRef "a\u0085b") (by decide +kernel)
  obtain ⟨rfl, content, hencode, hcontent⟩ :=
    contentAt_of_save hsave fun _ => hasFreeEnd_of_empty
  rw [hencode] at hwritten
  rw [eq_of_beq hwritten] at hcontent
  obtain ⟨m, hm, hother⟩ := exists_load_of_isRead hcontent hread
  exact ⟨d', _, m, hsave, hm, by simpa using hother⟩

end Lockfile

end Regen
