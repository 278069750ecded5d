import Regen.Proofs.Lockfile.AllOrNothing

/-! # What a path holds

    A path holds a file, or nothing: then nothing exists there however many of the folders on its
    way are made.  Making folders for the path changes neither, and a save that fails does nothing
    else.  A save that succeeds leaves its document there, or it has cut the path off by putting
    the document where a link was that the path runs through. -/

namespace Regen

namespace Disk

/-- Nothing exists at a path, however many of the folders on its way are made. -/
def StaysAbsent (d : Disk) (p : Path) : Prop :=
  ∀ d', FoldersMade p.parent d d' → d'.exists? p ≠ .ok true

section putting
variable {d d' : Disk} {content : Bytes} {changed : Int}

/-- Nothing can be followed along the names any more, however the disk grows. -/
def CutOff (d : Disk) (links : Nat) (p : Place) (names : List String) : Prop :=
  ∀ d', d.Grown d' → ∀ fuel spot, d'.follow true fuel links p names ≠ .ok spot

/-- A way is cut off if what follows its first step is. -/
theorem CutOff.before {links links' : Nat} {p p' : Place} {names names' : List String}
    (h : d.CutOff links' p' names')
    (hstep : ∀ d', d.Grown d' → ∀ fuel,
      d'.follow true (fuel + 1) links p names = d'.follow true fuel links' p' names') :
    d.CutOff links p names := by
  intro d' hgrown fuel spot hfollow
  cases fuel with
  | zero => cases hfollow
  | succ fuel =>
    rw [hstep d' hgrown fuel] at hfollow
    exact h d' hgrown fuel spot hfollow

/-- A file in the place of a link cuts off what ran through the link. -/
theorem cutOff_of_file {links : Nat} {p : Place} {name : String} {rest : List String}
    (hname : name ≠ "..") (hsize : name.utf8ByteSize ≤ maxName) (hrest : rest ≠ [])
    (hat : d.at? (p ++ [name]) = some (.file content changed)) :
    d.CutOff links p (name :: rest) := by
  intro d' hgrown fuel spot hfollow
  cases fuel with
  | zero => cases hfollow
  | succ fuel =>
    rw [follow, if_neg (Nat.not_lt.mpr hsize), hgrown.still _ _ hat] at hfollow
    · simp [hrest] at hfollow
    · exact hname

/-- **A file at the end of a way** leaves the way as it was, or nothing can be followed along it any
    more, since the file took the place of a link that the way runs through. -/
theorem Way.put_file {links : Nat} {p q : Place} {names : List String}
    (h : Way d links p names q) (hfolder : d.at? q ≠ some .folder) :
    Way (d.put q (.file content changed)) links p names q ∨
      (d.put q (.file content changed)).CutOff links p names := by
  have hq := h.place_ne_nil
  induction h with
  | last hname hsize => exact .inl (.last hname hsize)
  | up _ ih =>
    rcases ih hfolder hq with hway | hcut
    · exact .inl (.up hway)
    · exact .inr (hcut.before fun _ _ _ => follow_up ..)
  | @folder links p name rest q hname hsize hat _ ih =>
    have hne : p ++ [name] ≠ q := by
      rintro rfl
      exact hfolder hat
    have hat' : (d.put q (.file content changed)).at? (p ++ [name]) = some .folder := by
      rw [at?_put_ne d hne, hat]
    rcases ih hfolder hq with hway | hcut
    · exact .inl (.folder hname hsize hat' hway)
    · exact .inr (hcut.before fun _ hgrown _ =>
        follow_folder hname hsize (hgrown.still _ _ hat'))
  | @link links p name target rest q hname hsize hat hrest _ ih =>
    by_cases hne : p ++ [name] = q
    · -- The file stands where the way went on.
      subst hne
      exact .inr (cutOff_of_file hname hsize hrest (at?_put_self d hq _))
    · have hat' : (d.put q (.file content changed)).at? (p ++ [name]) = some (.link target) := by
        rw [at?_put_ne d hne, hat]
      rcases ih hfolder hq with hway | hcut
      · exact .inl (.link hname hsize hat' hrest hway)
      · exact .inr (hcut.before fun _ hgrown _ =>
          follow_link hname hsize (hgrown.still _ _ hat') (.inl hrest))

theorem exists?_ok_true {p : Path} (h : d.exists? p = .ok true) :
    holdsNull p = false ∧ ∃ q e, d.locate p true = .ok (.found q e) := by
  unfold Disk.exists? lookUp at h
  split at h
  · cases h
  · next hnull =>
    refine ⟨Bool.eq_false_iff.mpr hnull, ?_⟩
    match hlocate : d.locate p true with
    | .ok (.found q e) => exact ⟨q, e, rfl⟩
    | .ok (.vacant _) =>
      rw [hlocate] at h
      cases h
    | .error f =>
      rw [hlocate] at h
      dsimp only at h
      split at h <;> cases h

theorem StaysAbsent.not_exists {p : Path} (h : d.StaysAbsent p) : d.exists? p ≠ .ok true :=
  h d .none

theorem StaysAbsent.made {p : Path} (h : d.StaysAbsent p) (hmade : FoldersMade p.parent d d') :
    d'.StaysAbsent p :=
  fun d'' hmade' => h d'' (hmade.trans hmade')

/-- **A file that is put where a path leads is what the path holds**, or the path is cut off. -/
theorem holdsFile_or_staysAbsent {p : Path} {q : Place} (hleads : d.Leads p q)
    (hfolder : d.at? q ≠ some .folder) :
    (d.put q (.file content changed)).HoldsFile p content ∨
      (d.put q (.file content changed)).StaysAbsent p := by
  rcases hleads.2.put_file hfolder with hway | hcut
  · exact .inl ⟨q, changed, ⟨hleads.1, hway⟩, at?_put_self d hleads.place_ne_nil _⟩
  · refine .inr fun d' hmade hexists => ?_
    obtain ⟨-, r, e, hlocate⟩ := exists?_ok_true hexists
    have hbase : d'.base p = d.base p := by rw [base, base, hmade.grown.workFolder]; rfl
    rw [locate, if_neg (Nat.not_lt.mpr hleads.1), hbase] at hlocate
    exact hcut d' hmade.grown _ _ hlocate

end putting

end Disk

namespace Lockfile

/-- **What a path holds**: a file with a content, or nothing, and that for good. -/
def Holds (d : Disk) (p : Path) : Option Bytes → Prop
  | some content => Disk.holdsNull p = false ∧ d.HoldsFile p content
  | none => d.StaysAbsent p

section holds
variable {d d' d₁ : Disk} {p : Path} {c : Option Bytes} {content : Bytes} {l l' : Lockfile}
  {force : Bool}

theorem Holds.made (h : Holds d p c) (hmade : Disk.FoldersMade p.parent d d') : Holds d' p c := by
  match c with
  | some content => exact ⟨h.1, h.2.grown hmade.grown⟩
  | none => exact Disk.StaysAbsent.made h hmade

theorem Holds.contentAt (h : Holds d p c) : contentAt d p = c := by
  match c with
  | some content => exact contentAt_of_holdsFile h.1 h.2
  | none =>
    match hcontent : Lockfile.contentAt d p with
    | none => rfl
    | some content =>
      -- What has a content exists.
      unfold Lockfile.contentAt at hcontent
      split at hcontent
      · cases hcontent
      · next hnull =>
        refine absurd ?_ (Disk.StaysAbsent.not_exists h)
        rw [Disk.exists?, Disk.lookUp, if_neg hnull]
        unfold Disk.fileAt at hcontent
        split at hcontent
        · next hlocate => rw [hlocate]; rfl
        · cases hcontent
        · cases hcontent
        · cases hcontent

/-- The revision that a check of the file lets pass is the one that the file reads as. -/
theorem Holds.reads_of_check (h : Holds d p (some content)) {n : Int}
    (hcheck : checkRevision d p n = .ok ()) : ReadsRevision content n := by
  rw [checkRevision, h.2.exists? h.1] at hcheck
  obtain ⟨found, hfound, hsame⟩ := bind_eq_ok.mp hcheck
  split at hsame
  · next heq =>
    subst heq
    unfold diskRevision at hfound
    rw [load_yaml_of_holdsFile h.1 h.2] at hfound
    dsimp only at hfound
    split at hfound
    · cases hfound
    · cases hfound
    · cases hfound
    · next v hv =>
      refine ⟨v, hv, ?_⟩
      cases hcount : counter v "revision" with
      | ok m =>
        rw [hcount] at hfound
        exact congrArg Except.ok (Except.ok.inj hfound)
      | error f =>
        rw [hcount] at hfound
        cases hfound
  · cases hsame

/-- **A save that fails leaves what the path holds.** -/
theorem Holds.save_error {f : Failure} (h : Holds d p c)
    (hsave : save d p l force = (d', .error f)) : Holds d' p c := by
  have hend := saveWith_end noMishaps d p l force
  rw [← save, hsave] at hend
  cases hend with
  | stopped hmade _ => exact h.made hmade
  | refused _ hmade _ => exact h.made (foldersMade_of_makeFolders hmade)
  | leftBehind _ _ hdiscard _ _ => cases hdiscard

/-- **A save that succeeds leaves its document**, if the path is not cut off, which cannot happen
    to a file.  Unless it was forced, the check of the revision let it pass. -/
theorem Holds.save_ok (h : Holds d p c) (hsave : save d p l force = (d', .ok l')) :
    l' = l.next ∧ ∃ content, l.next.encode = .ok content ∧
      (Holds d' p (some content) ∨ c = none ∧ Holds d' p none) ∧
      (force = false → ∃ d₁, Holds d₁ p c ∧ checkRevision d₁ p l.revision = .ok ()) := by
  have hend := saveWith_end noMishaps d p l force
  rw [← save, hsave] at hend
  cases hend with
  | @done d₁ q content hnull hmade hcheck hencode hleads hfolder _ _ _ =>
    have hthere := h.made (foldersMade_of_makeFolders hmade)
    refine ⟨rfl, content, hencode, ?_, fun hplain => ⟨d₁, hthere, hcheck hplain⟩⟩
    cases c with
    | some old => exact .inl ⟨hnull, Disk.holdsFile_of_put hleads hthere.2.hasFreeEnd⟩
    | none =>
      rcases Disk.holdsFile_or_staysAbsent hleads hfolder with hfile | hcut
      · exact .inl ⟨hnull, hfile⟩
      · exact .inr ⟨rfl, hcut⟩

/-- A save over a file leaves a document at the next revision. -/
theorem Holds.saved {old : Bytes} (h : Holds d p (some old)) (hkeeps : KeepsRevision l.next)
    (hok : (save d p l force).2.isOk) :
    ∃ content, Holds (save d p l force).1 p (some content) ∧
      ReadsRevision content l.next.revision := by
  have hsave : save d p l force = (_, .ok l.next) := Prod.ext rfl (next_of_save hok)
  obtain ⟨-, content, hencode, hheld | ⟨hnone, -⟩, -⟩ := h.save_ok hsave
  · exact ⟨content, hheld, hkeeps content hencode⟩
  · cases hnone

/-- At the revision of the file a save does what a forced one does that succeeds. -/
theorem Holds.save_eq_forced {content : Bytes} (h : Holds d p (some content))
    (hreads : ReadsRevision content l.revision) (hok : (save d p l true).2.isOk) :
    save d p l false = save d p l true := by
  obtain ⟨d₁, hmade⟩ := made_of_save hok
  have hfile := (h.made (foldersMade_of_makeFolders hmade)).2
  refine Lockfile.save_eq_forced (holdsNull_parent h.1) hmade ?_
  rw [checkRevision_of_reads h.1 hfile hreads, if_pos rfl]

/-- A lockfile that is loaded is at the revision of the file. -/
theorem Holds.reads_of_load (h : Holds d p c) (hload : load d p = .ok l) :
    ∃ content, c = some content ∧ ReadsRevision content l.revision := by
  match c with
  | some content =>
    refine ⟨content, rfl, ?_⟩
    rw [load, h.2.exists? h.1, load_yaml_of_holdsFile h.1 h.2] at hload
    dsimp only at hload
    split at hload
    · cases hload
    · cases hload
    · next v hv =>
      split at hload
      · next m hm =>
        obtain rfl := Except.ok.inj hload
        exact ⟨v, hv, revision_of_ofDocument hm⟩
      · cases hload
  | none =>
    have habsent := Disk.StaysAbsent.not_exists h
    unfold load at hload
    split at hload
    · cases hload
    · cases hload
    · next hexists => exact absurd hexists habsent

end holds

end Lockfile

end Regen
