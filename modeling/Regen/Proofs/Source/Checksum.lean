import Mathlib.Algebra.GroupWithZero.Nat
import Regen.Proofs.Hash.Pieces
import Regen.Proofs.Outcome
import Regen.Source.Record

/-! # Checksums of content

    A file is read in chunks, and checksum and line feeds are counted chunk by chunk.  What comes
    out is that of the whole content, wherever it is cut. -/

namespace Regen

/-! ## Chunks -/

/-- The chunks that are read make up the content. -/
theorem flatten_chunksOf {count : Nat} {content : Bytes} (h : content.length ≤ count) :
    (chunksOf count content).flatten = content := by
  induction count generalizing content with
  | zero => rw [List.length_eq_zero_iff.mp (Nat.le_zero.mp h)]; rfl
  | succ count ih =>
    cases content with
    | nil => rfl
    | cons byte content =>
      -- A chunk is never empty, so one less of them is enough for what is left.
      have hrest : ((byte :: content).drop chunkSize).length ≤ count := by
        rw [List.length_drop, chunkSize]
        omega
      rw [chunksOf, List.flatten_cons, ih hrest, List.take_append_drop]
      exact List.cons_ne_nil byte content

namespace Tally

theorem foldl_add (t : Tally) (chunks : List Bytes) :
    chunks.foldl add t =
      ⟨chunks.foldl Sha256.Hasher.update t.hasher, t.lineFeeds + chunks.flatten.count 0x0A⟩ := by
  induction chunks generalizing t with
  | nil => rfl
  | cons chunk chunks ih =>
    rw [List.foldl_cons, ih, List.foldl_cons, List.flatten_cons, List.count_append]
    congr 1
    exact Nat.add_assoc ..

/-- **Wherever content is cut**, its checksum and its line feeds are counted. -/
theorem of_chunks {chunks : List Bytes} {content : Bytes} (h : chunks.flatten = content) :
    Sha256.hexText (chunks.foldl add empty).hasher.digest = Sha256.hexDigest content ∧
      (chunks.foldl add empty).lineFeeds = content.count 0x0A := by
  subst h
  rw [foldl_add]
  constructor
  · exact congrArg Sha256.hexText (Sha256.Hasher.digest_foldl_update chunks)
  · exact Nat.zero_add _

theorem ofContent_spec (content : Bytes) :
    Sha256.hexText (ofContent content).hasher.digest = Sha256.hexDigest content ∧
      (ofContent content).lineFeeds = content.count 0x0A :=
  of_chunks (flatten_chunksOf (Nat.le_refl _))

end Tally

/-! ## Records -/

/-- **A record is of the whole content** of a file: its size, its checksum and its line feeds,
    with any cut into chunks coming to the same. -/
structure FileRecord.Of (r : FileRecord) (content : Bytes) (changed : Int) (p : Path)
    (owner : String) : Prop where
  size : r.size = content.length
  sha256 : r.sha256 = Sha256.hexDigest content
  lineCount : r.lineCount = .int (content.count 0x0A)
  chunks : ∀ chunks : List Bytes, chunks.flatten = content →
    r.size = (chunks.map List.length).sum ∧
    r.sha256 = Sha256.hexText (chunks.foldl Tally.add .empty).hasher.digest ∧
    r.lineCount = .int (chunks.foldl Tally.add .empty).lineFeeds
  modifiedAt : changeMoment changed = .ok r.modifiedAt
  owner : r.owner = owner
  fileType : r.fileType = (p.extension?.map Value.text).getD .null

section records
variable {content : Bytes} {changed : Int} {p : Path} {owner : String} {r r' : FileRecord}

theorem of_of_fileRecord (h : fileRecord content changed p owner none = .ok r) :
    r.Of content changed p owner := by
  obtain ⟨t, ht, h⟩ := bind_eq_ok.mp h
  obtain rfl := Except.ok.inj h
  obtain ⟨hdigest, hlines⟩ := Tally.ofContent_spec content
  refine ⟨rfl, hdigest, by rw [hlines], ?_, ht, rfl, ?_⟩
  · intro chunks hchunks
    obtain ⟨hdigest', hlines'⟩ := Tally.of_chunks hchunks
    refine ⟨?_, by rw [hdigest, hdigest'], by rw [hlines, hlines']⟩
    rw [← hchunks, List.length_flatten]
  · dsimp only
    rw [Option.none_or]
    cases p.extension? <;> rfl

/-- A file's record is fixed by its content, its time, its name and its owner. -/
theorem FileRecord.Of.unique (h : r.Of content changed p owner)
    (h' : r'.Of content changed p owner) : r = r' := by
  have hmodified : r.modifiedAt = r'.modifiedAt :=
    Except.ok.inj (h.modifiedAt.symm.trans h'.modifiedAt)
  obtain ⟨sha, size, modified, own, type, lines⟩ := r
  obtain ⟨sha', size', modified', own', type', lines'⟩ := r'
  obtain rfl : size = size' := h.size.trans h'.size.symm
  obtain rfl : sha = sha' := h.sha256.trans h'.sha256.symm
  obtain rfl : lines = lines' := h.lineCount.trans h'.lineCount.symm
  obtain rfl : own = own' := h.owner.trans h'.owner.symm
  obtain rfl : type = type' := h.fileType.trans h'.fileType.symm
  obtain rfl : modified = modified' := hmodified
  rfl

theorem exists_fileRecord_iff :
    (∃ r, fileRecord content changed p owner none = .ok r) ↔
      ∃ t, changeMoment changed = .ok t := by
  constructor
  · rintro ⟨r, h⟩
    exact ⟨_, (of_of_fileRecord h).modifiedAt⟩
  · rintro ⟨t, ht⟩
    exact ⟨_, bind_eq_ok.mpr ⟨t, ht, rfl⟩⟩

/-- The type is read off the last part of the path. -/
theorem FileRecord.Of.of_name {q : Path} (h : r.Of content changed p owner)
    (hname : p.name = q.name) : r.Of content changed q owner := by
  have hextension : p.extension? = q.extension? := by
    rw [Path.extension?, Path.extension?, hname]
  exact { h with fileType := by rw [← hextension]; exact h.fileType }

end records

end Regen
