import Regen.Proofs.Lockfile.Document

/-! # The document of a lockfile is canonical

    A document has ledgers in the order of their names and times in universal time, so it depends
    neither on the order in which entries arrived nor on the offsets in which times were given.  It
    exists exactly if all times of the lockfile exist in universal time. -/

namespace Regen

open Time

/-! ## Times -/

/-- Moments of one instant are the same in universal time. -/
theorem timeText_congr {t u : Moment} (h : t.instant = u.instant) : timeText t = timeText u := by
  simp only [timeText, Moment.toUtc, h]

/-! ## Ledgers -/

section ledgers
variable {α : Type} {R : α → α → Prop} {write : α → Except Fault Value} {l m : Ledger α}

theorem mapM_congr_of_forall₂ {ε β γ : Type} {f : β → Except ε γ} {xs ys : List β}
    (h : List.Forall₂ (fun x y => f x = f y) xs ys) : xs.mapM f = ys.mapM f := by
  induction h with
  | nil => rfl
  | cons hxy _ ih => rw [List.mapM_cons, List.mapM_cons, hxy, ih]

/-- Ledgers whose entries are written alike are written alike. -/
theorem Ledger.toDocument_congr (hdistinct : l.names.Nodup) (h : Ledger.Rel R l m)
    (hwrite : ∀ x y, R x y → write x = write y) : l.toDocument write = m.toDocument write := by
  have hentries := mapM_congr_of_forall₂ (f := fun e => do pure (e.1, ← write e.2)) <|
    (h.forall₂_sorted hdistinct).imp fun e f ⟨hname, hR⟩ => by rw [hname, hwrite _ _ hR]
  rw [toDocument, toDocument, hentries]

/-- What a ledger is written from can be written. -/
theorem Ledger.of_toDocument {w : Value} (h : l.toDocument write = .ok w) :
    ∀ e ∈ l, ∃ w, write e.2 = .ok w := by
  intro e he
  obtain ⟨es, hes, -⟩ := bind_eq_ok.mp h
  obtain ⟨_, hp⟩ := ok_of_mapM hes (perm_sortBy.mem_iff.mpr he)
  obtain ⟨w, hw, -⟩ := bind_eq_ok.mp hp
  exact ⟨w, hw⟩

end ledgers

/-! ## Lockfiles -/

/-- Two times are one instant of universal time, whatever their offsets. -/
abbrev OneInstant (t u : Moment) : Prop := t.instant = u.instant

theorem SourceRecord.toDocument_congr {r s : SourceRecord}
    (h : SourceRecord.Rel OneInstant (· = ·) r s) : r.toDocument = s.toDocument := by
  simp only [toDocument, h.url, h.ref, h.fingerprint, h.filters, h.metadata,
    timeText_congr h.fetchedAt]

theorem FileRecord.toDocument_congr {r s : FileRecord}
    (h : FileRecord.Rel OneInstant (· = ·) r s) : r.toDocument = s.toDocument := by
  simp only [toDocument, h.sha256, h.size, h.owner, h.fileType, h.lineCount,
    timeText_congr h.modifiedAt]

namespace Lockfile

/-- **Lockfiles that are the same but for offsets and order have the same document.** -/
theorem toDocument_congr {l m : Lockfile} (hsources : l.sources.names.Nodup)
    (hfiles : l.files.names.Nodup) (hdependencies : l.dependencies.names.Nodup)
    (h : Lockfile.Rel OneInstant (· = ·) l m) : l.toDocument = m.toDocument := by
  have hstatistics : l.statistics.toDocument = m.statistics.toDocument := by
    have hrate := h.statistics.cacheHitRate
    simp only [Statistics.toDocument, h.statistics.totalMillis, h.statistics.sourcesProcessed,
      h.statistics.filesGenerated, h.statistics.errors, h.statistics.warnings, hrate]
  have hs := Ledger.toDocument_congr hsources h.sources fun _ _ => SourceRecord.toDocument_congr
  have hf := Ledger.toDocument_congr hfiles h.files fun _ _ => FileRecord.toDocument_congr
  have hd : l.dependencies.toDocument (fun names => .ok (textList names)) =
      m.dependencies.toDocument fun names => .ok (textList names) :=
    Ledger.toDocument_congr hdependencies h.dependencies fun _ _ heq => by rw [heq]
  simp only [toDocument, h.schemaVersion, h.toolVersion, h.revision, hstatistics, hs, hf, hd,
    timeText_congr h.generatedAt]

/-- **A lockfile can be written if and only if its times exist in universal time.** -/
theorem exists_toDocument_iff {l : Lockfile} :
    (∃ es, l.toDocument = .ok es) ↔ ∀ t ∈ l.times, ∃ u, t.toUtc = .ok u := by
  refine ⟨?_, exists_toDocument⟩
  rintro ⟨es, hes⟩ t ht
  have hutc : ∀ {t s}, timeText t = .ok s → ∃ u, t.toUtc = .ok u := fun hs =>
    have ⟨u, hu, _⟩ := timeText_eq_ok hs
    ⟨u, hu⟩
  obtain ⟨generated, hgenerated, hes⟩ := bind_eq_ok.mp hes
  obtain ⟨sources, hsources, hes⟩ := bind_eq_ok.mp hes
  obtain ⟨files, hfiles, -⟩ := bind_eq_ok.mp hes
  rcases List.mem_cons.mp ht with rfl | ht
  · exact hutc hgenerated
  rcases List.mem_append.mp ht with ht | ht
  · obtain ⟨e, he, rfl⟩ := List.mem_map.mp ht
    obtain ⟨_, hw⟩ := Ledger.of_toDocument hsources e he
    obtain ⟨_, hfetched, -⟩ := bind_eq_ok.mp hw
    exact hutc hfetched
  · obtain ⟨e, he, rfl⟩ := List.mem_map.mp ht
    obtain ⟨_, hw⟩ := Ledger.of_toDocument hfiles e he
    obtain ⟨_, hmodified, -⟩ := bind_eq_ok.mp hw
    exact hutc hmodified

end Lockfile

end Regen
