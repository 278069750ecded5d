import Regen.Proofs.Lockfile.Document
import Regen.Proofs.Lockfile.Save
import Regen.Proofs.Text.Utf8
import Regen.Proofs.Yaml.Built

/-! # Lockfiles that were read

    Whatever a lockfile's file says, the lockfile that is read is of the current format, its
    ledgers have each name once, and its times have offsets.  A lockfile that was written is read
    again if YAML gives back its document. -/

namespace Regen

/-! ## What a document can say -/

/-- A moment that is read has an offset. -/
theorem offset_of_toMoment {v : Value} {t : Time.Moment} (h : v.toMoment = .ok t) :
    t.offset.isSome := by
  unfold Value.toMoment at h
  split at h
  · obtain rfl := Except.ok.inj h
    rfl
  · obtain ⟨text, -, h⟩ := bind_eq_ok.mp h
    match hread : Time.Iso.moment? (String.ofList (Value.spellZulu text.toList)) with
    | .error _ =>
      rw [hread] at h
      cases h
    | .ok u =>
      rw [hread] at h
      obtain rfl := Except.ok.inj h
      rfl

/-- **A time that is read from a document** is as it is written. -/
theorem isWritten_of_toMoment {v : Value} {t : Time.Moment} (hread : v.IsRead)
    (h : v.toMoment = .ok t) : t.IsWritten := by
  unfold Value.toMoment at h
  split at h
  · obtain rfl := Except.ok.inj h
    exact hread.time.assumeUtc
  · obtain ⟨text, -, h⟩ := bind_eq_ok.mp h
    generalize hmoment : Time.Iso.moment? (String.ofList (Value.spellZulu text.toList)) = r at h
    cases r with
    | error f => cases h
    | ok u =>
      obtain rfl := Except.ok.inj h
      exact (Time.Moment.isWritten_of_moment? hmoment).assumeUtc

theorem SourceRecord.offset_of_ofDocument {v : Value} {r : SourceRecord}
    (h : SourceRecord.ofDocument v = .ok r) : r.fetchedAt.offset.isSome := by
  simp only [SourceRecord.ofDocument, bind_eq_ok] at h
  obtain ⟨_, -, _, -, _, -, _, -, fetchedAt, hfetched, _, -, _, -, _, -, _, -, hr⟩ := h
  obtain rfl := Except.ok.inj hr
  exact offset_of_toMoment hfetched

theorem FileRecord.offset_of_ofDocument {v : Value} {r : FileRecord}
    (h : FileRecord.ofDocument v = .ok r) : r.modifiedAt.offset.isSome := by
  simp only [FileRecord.ofDocument, bind_eq_ok] at h
  obtain ⟨_, -, _, -, _, -, _, -, modifiedAt, hmodified, _, -, _, -, _, -, _, -, hr⟩ := h
  obtain rfl := Except.ok.inj hr
  exact offset_of_toMoment hmodified

/-- A ledger that is read has each name once, and its entries were read from those of a mapping. -/
theorem Ledger.of_ofDocument {α : Type} {read : Value → Except Fault α} {v : Option Value}
    {l : Ledger α} (h : Ledger.ofDocument read v = .ok l) :
    l.names.Nodup ∧ ∃ items, (Value.orElse v (.map [] none)).items = .ok items ∧
      ∀ e ∈ l, ∃ item ∈ items, read item.2 = .ok e.2 := by
  obtain ⟨items, hitems, h⟩ := bind_eq_ok.mp h
  obtain ⟨entries, hentries, h⟩ := bind_eq_ok.mp h
  obtain rfl := Except.ok.inj h
  refine ⟨nodup_names_ofEntries _, items, hitems, fun e he => ?_⟩
  obtain ⟨item, hitem, hentry⟩ := exists_of_mem_mapM hentries (mem_of_mem_ofEntries he)
  obtain ⟨_, -, hentry⟩ := bind_eq_ok.mp hentry
  obtain ⟨x, hx, hentry⟩ := bind_eq_ok.mp hentry
  obtain rfl := Except.ok.inj hentry
  exact ⟨item, hitem, hx⟩

namespace Lockfile

/-! ## Well-formed lockfiles -/

/-- **A lockfile is well-formed** if it is of the current format and has each name once. -/
structure WellFormed (l : Lockfile) : Prop where
  schemaVersion : l.schemaVersion = currentSchema
  sources : l.sources.names.Nodup
  files : l.files.names.Nodup
  dependencies : l.dependencies.names.Nodup

/-- The times in the records of a lockfile have offsets. -/
structure HasOffsets (l : Lockfile) : Prop where
  fetchedAt : ∀ e ∈ l.sources, e.2.fetchedAt.offset.isSome
  modifiedAt : ∀ e ∈ l.files, e.2.modifiedAt.offset.isSome

theorem wellFormed_empty (now : Time.Moment) (tool : String) : WellFormed (empty now tool) :=
  ⟨rfl, List.nodup_nil, List.nodup_nil, List.nodup_nil⟩

theorem WellFormed.next {l : Lockfile} (h : WellFormed l) : WellFormed l.next :=
  ⟨h.schemaVersion, h.sources, h.files, h.dependencies⟩

theorem hasOffsets_empty (now : Time.Moment) (tool : String) : HasOffsets (empty now tool) :=
  ⟨fun _ h => absurd h List.not_mem_nil, fun _ h => absurd h List.not_mem_nil⟩

theorem of_ofDocument {v : Value} {l : Lockfile} (h : ofDocument v = .ok l) :
    WellFormed l ∧ HasOffsets l := by
  obtain ⟨hschema, ⟨_, -, hsources⟩, ⟨_, -, hfiles⟩, ⟨_, -, hdependencies⟩, -, -⟩ :=
    readFrom_of_ofDocument h
  obtain ⟨hsourceNames, _, -, hsources⟩ := Ledger.of_ofDocument hsources
  obtain ⟨hfileNames, _, -, hfiles⟩ := Ledger.of_ofDocument hfiles
  refine ⟨⟨hschema, hsourceNames, hfileNames, (Ledger.of_ofDocument hdependencies).1⟩, ?_, ?_⟩
  · intro e he
    obtain ⟨_, -, hread⟩ := hsources e he
    exact SourceRecord.offset_of_ofDocument hread
  · intro e he
    obtain ⟨_, -, hread⟩ := hfiles e he
    exact FileRecord.offset_of_ofDocument hread

variable {d : Disk} {p : Path}

/-- What a lockfile is read from. -/
theorem ofDocument_of_load {l : Lockfile} (h : load d p = .ok l) :
    ∃ v, Yaml.load d p = .ok v ∧ ofDocument v = .ok l := by
  unfold load at h
  split at h
  · cases h
  · cases h
  · split at h
    · cases h
    · cases h
    · next v hv =>
      split at h
      · next m hm => exact ⟨v, hv, Except.ok.inj h ▸ hm⟩
      · cases h

/-- A lockfile that is read is there. -/
theorem exists_of_load {l : Lockfile} (h : load d p = .ok l) : d.exists? p = .ok true := by
  unfold load at h
  split at h
  · cases h
  · cases h
  · next hexists => exact hexists

/-- The time of a lockfile that is read is as it is written, and it has an offset. -/
theorem generatedAt_of_load {l : Lockfile} (h : load d p = .ok l) :
    l.generatedAt.IsWritten ∧ l.generatedAt.offset.isSome := by
  obtain ⟨v, hv, hl⟩ := ofDocument_of_load h
  obtain ⟨w, hw, htime⟩ := (readFrom_of_ofDocument hl).generatedAt
  exact ⟨isWritten_of_toMoment ((Yaml.isRead_of_load hv).member hw) htime, offset_of_toMoment htime⟩

/-- **A lockfile that is read or begun is well-formed**, and its times have offsets. -/
theorem of_loadOrCreate {now : Time.Moment} {tool : String} {l : Lockfile}
    (h : loadOrCreate d p now tool = .ok l) : WellFormed l ∧ HasOffsets l := by
  unfold loadOrCreate at h
  split at h
  · obtain rfl := Except.ok.inj h
    exact ⟨wellFormed_empty now tool, hasOffsets_empty now tool⟩
  · obtain ⟨v, -, hl⟩ := ofDocument_of_load h
    exact of_ofDocument hl

/-! ## Reading again -/

/-- **YAML gives back a lockfile**: the text of its document is read as a value that `V` relates
    to what was written. -/
def GivenBack (V : Value → Value → Prop) (l : Lockfile) : Prop :=
  ∀ es, l.toDocument = .ok es →
    ∃ v, Yaml.ofBytes (Text.encodeUtf8 (Yaml.write es)) = .ok v ∧ V (.map es none) v

theorem encode_eq_ok {l : Lockfile} {content : Bytes} (h : l.encode = .ok content) :
    ∃ es, l.toDocument = .ok es ∧ content = Text.encodeUtf8 (Yaml.write es) := by
  unfold encode at h
  split at h
  · cases h
  · next es hes =>
    split at h
    · cases h
    · exact ⟨es, hes, (Except.ok.inj h).symm⟩

/-- The content of the file at a path decides what is read there. -/
theorem exists_of_contentAt {content : Bytes} (h : contentAt d p = some content) :
    d.exists? p = .ok true ∧ Yaml.load d p = Yaml.ofBytes content := by
  unfold contentAt at h
  split at h
  · cases h
  · next hnull =>
    match hfile : d.fileAt p with
    | .error _ =>
      rw [hfile] at h
      cases h
    | .ok (bytes, changed) =>
      rw [hfile] at h
      obtain rfl : bytes = content := Option.some.inj h
      refine ⟨?_, by rw [Yaml.load, if_neg hnull, hfile]⟩
      unfold Disk.fileAt at hfile
      split at hfile
      · next hlocate =>
        rw [Disk.exists?, Disk.lookUp, if_neg hnull, hlocate]
        rfl
      · cases hfile
      · cases hfile
      · cases hfile

/-- Is a text read as a lockfile that passes a check? -/
def isRead (text : List Char) (check : Lockfile → Bool) : Bool :=
  match Yaml.read (Text.unifyNewlines text) with
  | .ok v => (ofDocument v).toOption.any check
  | .error _ => false

/-- What a file is read as can be told from its text. -/
theorem exists_load_of_isRead {text : List Char} {check : Lockfile → Bool}
    (hcontent : contentAt d p = some (Text.encodeUtf8 text)) (hread : isRead text check) :
    ∃ l, load d p = .ok l ∧ check l := by
  obtain ⟨hexists, hyaml⟩ := exists_of_contentAt hcontent
  unfold isRead at hread
  split at hread
  · next v hv =>
    obtain ⟨l, hl, hcheck⟩ := exists_ok_of_any hread
    refine ⟨l, ?_, hcheck⟩
    rw [load, hexists, hyaml, Yaml.ofBytes, Text.decodeUtf8_encodeUtf8]
    simp only [hv, hl]
  · cases hread

/-- **A lockfile keeps its revision** if YAML gives it back. -/
theorem keepsRevision_of_givenBack {V : Value → Value → Prop} (hV : ReadsBack V) {l : Lockfile}
    (hl : WellFormed l) (hback : l.GivenBack V) : KeepsRevision l := by
  intro content hcontent
  obtain ⟨es, hes, rfl⟩ := encode_eq_ok hcontent
  obtain ⟨v, hv, hrelated⟩ := hback es hes
  obtain ⟨m, hm, hrel⟩ := exists_ofDocument hV hl.schemaVersion hl.sources hl.files
    hl.dependencies (T := fun _ _ => True) (fun _ _ _ _ => trivial) hes hrelated
  exact ⟨v, hv, hrel.revision ▸ revision_of_ofDocument hm⟩

/-- **A lockfile that was written is read again** if YAML gives it back. -/
theorem exists_load {V : Value → Value → Prop} (hV : ReadsBack V) {l : Lockfile} {content : Bytes}
    (hl : WellFormed l) (hcontent : l.encode = .ok content) (hback : l.GivenBack V) :
    ∃ m, Lockfile.Rel (fun t u => t.toUtc = .ok u) V l m ∧
      ∀ {d p}, contentAt d p = some content → load d p = .ok m := by
  obtain ⟨es, hes, rfl⟩ := encode_eq_ok hcontent
  obtain ⟨v, hv, hrelated⟩ := hback es hes
  obtain ⟨m, hm, hrel⟩ := exists_ofDocument hV hl.schemaVersion hl.sources hl.files
    hl.dependencies (fun _ _ _ hu => hu) hes hrelated
  refine ⟨m, hrel, fun hfile => ?_⟩
  obtain ⟨hexists, hyaml⟩ := exists_of_contentAt hfile
  rw [load, hexists, hyaml, hv]
  simp only [hm]

end Lockfile

end Regen
