import Regen.Proofs.Disk.Around
import Regen.Proofs.Lockfile.Holds
import Regen.Proofs.Lockfile.Load
import Regen.Proofs.Value.Faults

/-! # Saving over a file that is no lockfile

    Reading a lockfile judges all of its document, its format first.  The check before a save asks
    the document for its revision only, and takes zero where there is none.  So a file that cannot
    be read stops a save exactly if its revision does not read as the expected one; a file of
    another format without a revision is replaced by a lockfile that was just begun. -/

namespace Regen.Lockfile

/-- A file is there, but reading it says that it is no lockfile. -/
def IsCorrupt (d : Disk) (p : Path) : Prop :=
  ∃ name cause, load d p = .error (.corrupt name cause)

instance (d : Disk) (p : Path) : Decidable (IsCorrupt d p) :=
  match h : load d p with
  | .error (.corrupt name cause) => .isTrue ⟨name, cause, h⟩
  | .ok _ | .error (.settings _) | .error (.absent _) | .error (.conflict ..) | .error (.cycle _)
  | .error (.fingerprint _) | .error (.disk _) | .error (.value _) | .error .notYaml
  | .error (.linkCircle _) | .error (.markup _) =>
    .isFalse fun ⟨_, _, hload⟩ => nomatch h.symm.trans hload

/-- **Why a file stops a save** that expects a revision. -/
inductive Blocks (p : Path) (content : Bytes) (expected : Int) : Failure → Prop
  /-- The content has no revision. -/
  | hidden (h : ∀ n, ¬ReadsRevision content n) :
      Blocks p content expected (.corrupt p.text .revision)
  | other {n : Int} (h : ReadsRevision content n) (hne : n ≠ expected) :
      Blocks p content expected (revisionFailure p expected n)
  /-- The revision is infinite, which is not taken for corruption. -/
  | infinite {v : Value} (hv : Yaml.ofBytes content = .ok v)
      (hcount : counter v "revision" = .error .infinityToInt) :
      Blocks p content expected (.value .infinityToInt)

section check
variable {d : Disk} {p : Path} {content : Bytes}

/-- What is read as corrupt is no document, or one that is no lockfile. -/
theorem IsCorrupt.yaml (h : IsCorrupt d p) :
    Yaml.load d p = .error .malformed ∨ ∃ v, Yaml.load d p = .ok v := by
  obtain ⟨name, cause, h⟩ := h
  unfold load at h
  split at h
  · cases h
  · cases h
  · match hv : Yaml.load d p with
    | .error .malformed => exact .inl rfl
    | .error (.disk f) | .error (.value f) =>
      rw [hv] at h
      cases h
    | .ok v => exact .inr ⟨v, rfl⟩

/-- What the check makes of a fault of the revision. -/
theorem blocks_of_counter {v : Value} {f : Fault} {expected : Int}
    (hv : Yaml.ofBytes content = .ok v) (hcount : counter v "revision" = .error f) :
    Blocks p content expected
      (if hidesRevision f then .corrupt p.text .revision else .value f) := by
  have hnone : ∀ n, ¬ReadsRevision content n := by
    rintro n ⟨w, hw, hn⟩
    obtain rfl := Except.ok.inj (hv.symm.trans hw)
    rw [hcount] at hn
    cases hn
  rcases failsOnly_counter v "revision" f hcount with hplain | ⟨rfl, -⟩
  · have hhides : hidesRevision f = true := by
      unfold hidesRevision
      rcases hplain with h | h | h <;> rw [h]
    rw [if_pos hhides]
    exact .hidden hnone
  · exact .infinite hv hcount

/-- **The check of a file that is no lockfile** passes the revision that its content reads as, and
    is stopped by every other one. -/
theorem checkRevision_of_corrupt (hcontent : contentAt d p = some content)
    (hcorrupt : IsCorrupt d p) (expected : Int) :
    (ReadsRevision content expected → checkRevision d p expected = .ok ()) ∧
      (¬ReadsRevision content expected →
        ∃ f, checkRevision d p expected = .error f ∧ Blocks p content expected f) := by
  obtain ⟨hexists, hyaml⟩ := exists_of_contentAt hcontent
  rw [checkRevision, hexists, diskRevision]
  rcases hcorrupt.yaml with hv | ⟨v, hv⟩
  · -- No document has no revision.
    have hv' := hyaml.symm.trans hv
    have hnone : ∀ n, ¬ReadsRevision content n := by
      rintro n ⟨w, hw, -⟩
      rw [hv'] at hw
      cases hw
    rw [hv]
    exact ⟨fun hreads => absurd hreads (hnone expected), fun _ => ⟨_, rfl, .hidden hnone⟩⟩
  · have hv' := hyaml.symm.trans hv
    rw [hv]
    cases hcount : counter v "revision" with
    | error f =>
      have hnone : ¬ReadsRevision content expected := by
        rintro ⟨w, hw, hn⟩
        obtain rfl := Except.ok.inj (hv'.symm.trans hw)
        rw [hcount] at hn
        cases hn
      refine ⟨fun hreads => absurd hreads hnone, fun _ => ⟨_, ?_, blocks_of_counter hv' hcount⟩⟩
      simp only [hcount]
      rfl
    | ok n =>
      have hreads : ReadsRevision content n := ⟨v, hv', hcount⟩
      have honly : ReadsRevision content expected → n = expected := by
        rintro ⟨w, hw, hn⟩
        obtain rfl := Except.ok.inj (hv'.symm.trans hw)
        exact Except.ok.inj (hcount.symm.trans hn)
      simp only [hcount]
      refine ⟨fun hexpected => if_pos (honly hexpected), fun hnot => ?_⟩
      have hne : n ≠ expected := by
        rintro rfl
        exact hnot hreads
      exact ⟨_, if_neg hne, .other hreads hne⟩

end check

section saving
variable {d : Disk} {p : Path} {l : Lockfile}

/-- Where a file is, no folder has to be made. -/
theorem makeFolders_of_content (hd : d.Rooted) {content : Bytes}
    (hcontent : contentAt d p = some content) :
    Disk.holdsNull p.parent = false ∧ d.makeFolders p.parent = (d, .ok ()) := by
  obtain ⟨hnull, q, e, hlocate⟩ := Disk.exists?_ok_true (exists_of_contentAt hcontent).1
  have hnull := holdsNull_parent hnull
  exact ⟨hnull, Disk.makeFolders_of_isFolder (hd.isFolder?_parent hnull hlocate)⟩

/-- With the folders there, only the check tells a plain save from a forced one. -/
theorem save_eq (hnull : Disk.holdsNull p.parent = false)
    (hmade : d.makeFolders p.parent = (d, .ok ())) :
    save d p l false =
      match checkRevision d p l.revision with
      | .ok () => save d p l true
      | .error f => (d, .error f) := by
  have hnone : (List.range (p.parent.parts.length + 1)).findSome? (fun n =>
      (noMishaps (.makeFolders n)).map (n, ·)) = none :=
    List.findSome?_eq_none_iff.mpr fun _ _ => rfl
  have hmade : makeFoldersWith noMishaps d p.parent = (d, .ok ()) := by
    rw [makeFoldersWith]
    simp only [hnone, hmade]
    rfl
  rw [save, save, saveWith, saveWith, if_neg (Bool.eq_false_iff.mp hnull),
    if_neg (Bool.eq_false_iff.mp hnull), hmade]
  cases hcheck : checkRevision d p l.revision with
  | ok =>
    simp only [stepResult, noMishaps, hcheck]
    rfl
  | error f =>
    simp only [stepResult, noMishaps, hcheck]
    rfl

/-- **A save over a file that is no lockfile** goes on as if it were forced when the content reads
    at the expected revision, and otherwise it fails and the disk is as it was. -/
theorem save_of_corrupt (hd : d.Rooted) {content : Bytes} (hcontent : contentAt d p = some content)
    (hcorrupt : IsCorrupt d p) (l : Lockfile) :
    (ReadsRevision content l.revision → save d p l false = save d p l true) ∧
      (¬ReadsRevision content l.revision →
        ∃ f, save d p l false = (d, .error f) ∧ Blocks p content l.revision f) := by
  obtain ⟨hnull, hmade⟩ := makeFolders_of_content hd hcontent
  obtain ⟨hpasses, hstops⟩ := checkRevision_of_corrupt hcontent hcorrupt l.revision
  rw [save_eq hnull hmade]
  constructor
  · intro hreads
    rw [hpasses hreads]
  · intro hreads
    obtain ⟨f, hf, hblocks⟩ := hstops hreads
    exact ⟨f, by rw [hf], hblocks⟩

/-- A file of another format, without a revision. -/
def foreign : Bytes := Text.encodeUtf8 "schema_version: '2.0'".toList

/-- A disk with a file. -/
def holding (content : Bytes) : Disk := ⟨[(["lock"], .file content 0)], []⟩

/-- A lockfile that expects another revision does not replace the file. -/
theorem save_of_corrupt_of_foreign :
    ¬ReadsRevision foreign blank.next.revision ∧
      ∃ f, save (holding foreign) ⟨0, ["lock"]⟩ blank.next false = (holding foreign, .error f) ∧
        Blocks ⟨0, ["lock"]⟩ foreign blank.next.revision f :=
  have hother : ¬ReadsRevision foreign blank.next.revision := by decide +kernel
  ⟨hother, (save_of_corrupt (by decide +kernel) (by decide +kernel) (by decide +kernel)
    blank.next).2 hother⟩

/-- **A save replaces a file of another format**: without a revision the file passes for one at
    revision zero. -/
theorem save_misses_corrupt : ∃ (d : Disk) (p : Path) (content : Bytes) (l : Lockfile),
    d.Rooted ∧ contentAt d p = some content ∧ IsCorrupt d p ∧
      (save d p l false).2.isOk ∧ contentAt (save d p l false).1 p ≠ some content :=
  ⟨holding foreign, ⟨0, ["lock"]⟩, foreign, blank, by decide +kernel, by decide +kernel,
    by decide +kernel, by decide +kernel, by decide +kernel⟩

end saving

end Regen.Lockfile
