import Regen.Proofs.Disk.Folders
import Regen.Proofs.Lockfile.Session

/-! # A save is all or nothing

    Whatever fails in a save, and at whatever step, what was on the disk is still there: at most
    folders for the lockfile are new, and the new file if it could not be removed.  A save that
    succeeds has put the document of the next revision where its path led, and nothing else has
    changed. -/

namespace Regen.Lockfile

/-! ## What a save leaves -/

/-- At most folders were added, each where an initial part of the path to the lockfile leads. -/
structure FoldersAdded (d d' : Disk) (p : Path) : Prop where
  workFolder : d'.workFolder = d.workFolder
  places : ∀ q, d'.at? q = d.at? q ∨ d.at? q = none ∧ d'.at? q = some .folder ∧
    ∃ a : Path, a.IsInitial p.parent ∧ d'.Leads a q

/-- **What a failed save leaves**: folders may have been added, and nothing else, except the new
    file when its removal met a mishap too.  The path holds what it held, unless it steps out of
    a folder that was missing, or is a link to the very file that was left behind. -/
inductive Undone (mishaps : Mishaps) (d : Disk) (p : Path) : Disk → Prop
  | clean {d₁ : Disk} (hfolders : FoldersAdded d d₁ p)
      (hcontent : ¬d.StepsOutOfMissing p → contentAt d₁ p = contentAt d p) :
      Undone mishaps d p d₁
  | leftBehind {d₁ : Disk} {t : Place} {filled : Bytes} (hfolders : FoldersAdded d d₁ p)
      (hdiscard : (mishaps .discard).isSome) (hnew : d₁.Leads (temporaryFor d₁ p) t)
      (hvacant : d₁.at? t = none)
      (hcontent : ¬d.StepsOutOfMissing p → d₁.locate p true ≠ .ok (.vacant t) →
        contentAt (withNewFile d₁ t filled) p = contentAt d p) :
      Undone mishaps d p (withNewFile d₁ t filled)

/-- **What a save that succeeds leaves**: where the path led when its folders were there is the
    lockfile's document, and at most these folders are new beside it.  The document is what the
    path holds now, if it does not run through a link that stands at its own end. -/
structure Done (d d' : Disk) (p : Path) (l : Lockfile) : Prop where
  workFolder : d'.workFolder = d.workFolder
  document : ∃ d₁ q content, FoldersAdded d d₁ p ∧ l.encode = .ok content ∧
    d₁.Leads p q ∧ d₁.at? q ≠ some .folder ∧ d'.at? q = some (.file content Disk.writtenAt) ∧
    (∀ r, r ≠ q → d'.at? r = d₁.at? r) ∧ (d₁.HasFreeEnd p → contentAt d' p = some content)

/-- No step of a save met a mishap. -/
structure NoneMet (mishaps : Mishaps) (p : Path) (force : Bool) : Prop where
  folders : ∀ n ≤ p.parent.parts.length, mishaps (.makeFolders n) = none
  readRevision : force = false → mishaps .readRevision = none
  others : ∀ step ∈ [SaveStep.encode, .createTemporary, .write, .flush, .sync, .rename],
    mishaps step = none

/-- The lockfile in memory after a save. -/
def afterSave (l : Lockfile) : Except Failure Lockfile → Lockfile
  | .ok l' => l'
  | .error _ => l

section ends
variable {mishaps : Mishaps} {d d₁ : Disk} {p : Path}

theorem foldersAdded_of_made (h : Disk.FoldersMade p.parent d d₁) : FoldersAdded d d₁ p :=
  ⟨h.grown.workFolder, h.at?⟩

theorem contentAt_of_made (hd : d.Rooted) (h : Disk.FoldersMade p.parent d d₁)
    (hup : ¬d.StepsOutOfMissing p) : contentAt d₁ p = contentAt d p := by
  rw [contentAt, contentAt]
  by_cases hparts : p.parts = []
  · rw [h.eq_of_nil (by rw [Path.parent, hparts]; rfl)]
  · have hproper : p.parent.parts ≠ p.parts := fun heq => by
      have hlength : p.parts.length - 1 = p.parts.length := by
        rw [← List.length_dropLast]
        exact congrArg List.length heq
      have := List.length_pos_iff.mpr hparts
      omega
    rw [h.fileAt hd p.parent_isInitial hproper hup]

theorem foldersMade_of_makeFolders (hmade : d.makeFolders p.parent = (d₁, .ok ())) :
    Disk.FoldersMade p.parent d d₁ := by
  have hfolders := Disk.foldersMade_makeFolders d p.parent
  rw [hmade] at hfolders
  exact hfolders

/-- **A save is all or nothing**, whatever mishaps it meets.  If it fails, the lockfile in memory
    is as it was, and so is what is on the disk.  If it succeeds, no step met a mishap, the
    lockfile in memory is at the next revision and otherwise as it was, and the path's place holds
    its document. -/
theorem save_all_or_nothing (mishaps : Mishaps) {d : Disk} (hd : d.Rooted) (p : Path)
    (l : Lockfile) (force : Bool) :
    match saveWith mishaps d p l force with
    | (d', .error f) => afterSave l (.error f) = l ∧ Undone mishaps d p d'
    | (d', .ok l') => NoneMet mishaps p force ∧
        afterSave l (.ok l') = { l with revision := l.revision + 1 } ∧ Done d d' p l' := by
  have hend := saveWith_end mishaps d p l force
  generalize saveWith mishaps d p l force = r at hend
  cases hend with
  | stopped hmade _ =>
    exact ⟨rfl, .clean (foldersAdded_of_made hmade) (contentAt_of_made hd hmade)⟩
  | refused _ hmade _ =>
    have hmade := foldersMade_of_makeFolders hmade
    exact ⟨rfl, .clean (foldersAdded_of_made hmade) (contentAt_of_made hd hmade)⟩
  | leftBehind hmade _ hdiscard hleads hvacant =>
    refine ⟨rfl, .leftBehind (foldersAdded_of_made hmade) hdiscard hleads hvacant ?_⟩
    intro hup hother
    rw [← contentAt_of_made hd hmade hup, contentAt, contentAt,
      Disk.fileAt_put_file (hmade.rooted hd) hleads.place_ne_nil hvacant hother]
  | @done d₁ q content hnull hmade _ hencode hleads hfile hfolders hread hsteps =>
    have hmade := foldersMade_of_makeFolders hmade
    refine ⟨⟨hfolders, hread, hsteps⟩, rfl, hmade.grown.workFolder, d₁, q, content,
      foldersAdded_of_made hmade, hencode, hleads, hfile, ?_, ?_, ?_⟩
    · exact Disk.at?_put_self d₁ hleads.place_ne_nil _
    · exact fun r hr => Disk.at?_put_ne d₁ hr _
    · exact fun hfree => contentAt_of_holdsFile hnull (Disk.holdsFile_of_put hleads hfree)

end ends

/-- The new file cannot take the lockfile's place. -/
def renameFails : Mishaps
  | .rename => some (.disk .denied)
  | _ => none

/-- A lockfile that cannot be replaced stays, and the one in memory keeps its revision. -/
theorem save_all_or_nothing_of_rename :
    match saveWith renameFails aside ⟨0, ["lock"]⟩ blank.next false with
    | (d', .error f) => afterSave blank.next (.error f) = blank.next ∧
        Undone renameFails aside ⟨0, ["lock"]⟩ d'
    | (d', .ok l') => NoneMet renameFails ⟨0, ["lock"]⟩ false ∧
        afterSave blank.next (.ok l') = { blank.next with revision := 2 } ∧
        Done aside d' ⟨0, ["lock"]⟩ l' :=
  save_all_or_nothing renameFails (by decide) ⟨0, ["lock"]⟩ blank.next false

/-- A disk with a folder and a link to it. -/
def linked : Disk := ⟨[(["l"], .link "sub"), (["sub"], .folder)], []⟩

/-- A path through a link that stands at its own end. -/
def loop : Path := ⟨0, ["l", "..", "l"]⟩

/-- **A save may change what its path holds though it fails, and it may succeed without its path
    holding the document**: when a folder on the path was missing, and when the path runs through
    the link that the document replaces. -/
theorem save_misses_path :
    (∃ (d : Disk) (p : Path) (l : Lockfile), d.Rooted ∧
      ¬(saveWith noMishaps d p l false).2.isOk ∧
      contentAt (saveWith noMishaps d p l false).1 p ≠ contentAt d p) ∧
    ∃ (d : Disk) (p : Path) (l : Lockfile), d.Rooted ∧
      (saveWith noMishaps d p l true).2.isOk ∧
      contentAt (saveWith noMishaps d p l true).1 p ≠ l.next.encode.toOption :=
  ⟨⟨aside, detour, blank, by decide, by decide +kernel, by decide +kernel⟩,
    ⟨linked, loop, blank, by decide, by decide +kernel, by decide +kernel⟩⟩

end Regen.Lockfile
