import Regen.Proofs.Disk.Ways

/-! # Changes of the disk

    What the operations of the disk leave as it was.  Making folders only adds folders, and what
    was made need not be made again.  A file that takes the place of another one, or a place where
    nothing was, stands at the end of the same path afterwards. -/

namespace Regen

/-- The path of the first parts of another one. -/
structure Path.IsInitial (a p : Path) : Prop where
  slashes : a.slashes = p.slashes
  parts : a.parts <+: p.parts

theorem Path.IsInitial.refl (p : Path) : p.IsInitial p := ⟨rfl, List.prefix_rfl⟩

theorem Path.IsInitial.trans {a b p : Path} (h : a.IsInitial b) (h' : b.IsInitial p) :
    a.IsInitial p := ⟨h.slashes.trans h'.slashes, h.parts.trans h'.parts⟩

theorem Path.parent_isInitial (p : Path) : p.parent.IsInitial p := ⟨rfl, List.dropLast_prefix _⟩

namespace Disk

/-! ## Growing -/

/-- A disk has grown if everything is still where it was. -/
structure Grown (d d' : Disk) : Prop where
  workFolder : d'.workFolder = d.workFolder
  still : ∀ q e, d.at? q = some e → d'.at? q = some e

section grown
variable {d d' : Disk} {p : Path}

theorem Grown.refl (d : Disk) : d.Grown d := ⟨rfl, fun _ _ h => h⟩

theorem Grown.trans {d'' : Disk} (h : d.Grown d') (h' : d'.Grown d'') : d.Grown d'' :=
  ⟨h'.workFolder.trans h.workFolder, fun q e hat => h'.still q e (h.still q e hat)⟩

theorem Grown.keepsWays (h : d.Grown d') : d.KeepsWays d' :=
  ⟨h.workFolder, fun q hat => h.still q _ hat, fun q _ hat => h.still q _ hat⟩

theorem Grown.put {q : Place} (hvacant : d.at? q = none) (e : Entry) : d.Grown (d.put q e) := by
  refine ⟨rfl, fun r e' hat => ?_⟩
  have hne : r ≠ q := by
    rintro rfl
    rw [hvacant] at hat
    cases hat
  rw [at?_put_ne d hne]
  exact hat

/-! ## Making folders -/

theorem makeFolder_cases {made : Except DiskFault Disk} (h : d.makeFolder p = made) :
    (∃ q, d.Leads p q ∧ d.at? q = none ∧ made = .ok (d.put q .folder)) ∨
      ∃ f, made = .error f := by
  unfold makeFolder at h
  split at h
  · exact .inr ⟨_, h.symm⟩
  · next q hlocate =>
    obtain ⟨hleads, hat⟩ := leads_of_locate_vacant hlocate
    exact .inl ⟨q, hleads, hat, h.symm⟩
  · exact .inr ⟨_, h.symm⟩

/-- **Folders made for a path**, one after the other: each is made where an initial part of the
    path leads and nothing was. -/
inductive FoldersMade (p : Path) (d : Disk) : Disk → Prop
  | none : FoldersMade p d d
  | step {d₁ : Disk} {a : Path} {q : Place} (h : FoldersMade p d d₁) (ha : a.IsInitial p)
      (hleads : d₁.Leads a q) (hvacant : d₁.at? q = Option.none) :
      FoldersMade p d (d₁.put q .folder)

theorem FoldersMade.trans {d'' : Disk} (h : FoldersMade p d d') (h' : FoldersMade p d' d'') :
    FoldersMade p d d'' := by
  induction h' with
  | none => exact h
  | step _ ha hleads hvacant ih => exact .step ih ha hleads hvacant

theorem FoldersMade.of_initial {a : Path} (ha : a.IsInitial p) (h : FoldersMade a d d') :
    FoldersMade p d d' := by
  induction h with
  | none => exact .none
  | step _ hb hleads hvacant ih => exact .step ih (hb.trans ha) hleads hvacant

theorem FoldersMade.grown (h : FoldersMade p d d') : d.Grown d' := by
  induction h with
  | none => exact .refl d
  | step _ _ _ hvacant ih => exact ih.trans (.put hvacant _)

theorem foldersMade_ensureFolder (d : Disk) (p : Path) : FoldersMade p d (d.ensureFolder p).1 := by
  unfold ensureFolder
  split
  · next made hmade =>
    rcases makeFolder_cases hmade with ⟨q, hleads, hvacant, hput⟩ | ⟨f, hf⟩
    · obtain rfl := Except.ok.inj hput
      exact .step .none (.refl p) hleads hvacant
    · cases hf
  · exact .none
  · exact .none

theorem foldersMade_of_ensureFolder {r : Except DiskFault Unit} (h : d.ensureFolder p = (d', r)) :
    FoldersMade p d d' := by
  have hmade := foldersMade_ensureFolder d p
  rw [h] at hmade
  exact hmade

theorem foldersMade_makeFoldersFrom (fuel : Nat) (d : Disk) (p : Path) :
    FoldersMade p d (makeFoldersFrom fuel d p).1 := by
  fun_induction makeFoldersFrom fuel d p with
  | case1 d p => exact foldersMade_ensureFolder d p
  | case2 fuel d p d₁ hensure _ => exact foldersMade_of_ensureFolder hensure
  | case3 fuel d p d₁ hensure _ d₂ hparent ih =>
    -- The folder was tried, its parents were made, and it is tried again.
    rw [hparent] at ih
    exact ((foldersMade_of_ensureFolder hensure).trans (.of_initial p.parent_isInitial ih)).trans
      (foldersMade_ensureFolder d₂ p)
  | case4 fuel d p d₁ hensure _ _ ih =>
    exact (foldersMade_of_ensureFolder hensure).trans (.of_initial p.parent_isInitial ih)
  | case5 fuel d p _ => exact foldersMade_ensureFolder d p

/-- Whether it succeeds or not, making folders only makes folders for the path. -/
theorem foldersMade_makeFolders (d : Disk) (p : Path) : FoldersMade p d (d.makeFolders p).1 :=
  foldersMade_makeFoldersFrom _ d p

/-- **Making folders only adds to the disk**, whether it succeeds or not. -/
theorem grown_makeFolders (d : Disk) (p : Path) : d.Grown (d.makeFolders p).1 :=
  (foldersMade_makeFolders d p).grown

theorem isFolder?_iff : d.isFolder? p = .ok true ↔
    holdsNull p = false ∧ ∃ q, d.locate p true = .ok (.found q .folder) := by
  unfold isFolder? lookUp
  constructor
  · intro h
    split at h
    · cases h
    · next hnull =>
      refine ⟨Bool.eq_false_iff.mpr hnull, ?_⟩
      split at h
      · next q e hlocate =>
        match e with
        | .folder => exact ⟨q, hlocate⟩
        | .file .. | .link _ => cases h
      · cases h
      · split at h <;> cases h
  · rintro ⟨hnull, q, hlocate⟩
    rw [if_neg (Bool.eq_false_iff.mp hnull), hlocate]
    rfl

/-- After a folder was made it is there. -/
theorem isFolder?_of_ensureFolder (hnull : holdsNull p = false)
    (h : d.ensureFolder p = (d', .ok ())) : d'.isFolder? p = .ok true := by
  unfold ensureFolder at h
  split at h
  · next made hmade =>
    obtain rfl := (Prod.mk.inj h).1
    rcases makeFolder_cases hmade with ⟨q, hleads, hvacant, hput⟩ | ⟨f, hf⟩
    · obtain rfl := Except.ok.inj hput
      have hthere := at?_put_self d hleads.place_ne_nil .folder
      have hleads' := hleads.mono (Grown.put hvacant .folder).keepsWays
      exact isFolder?_iff.mpr ⟨hnull, q, hleads'.locate_found hthere nofun true⟩
    · cases hf
  · cases (Prod.mk.inj h).2
  -- Something was there already, and the folder is good only if it is one.
  · obtain ⟨rfl, hfolder⟩ := Prod.mk.inj h
    split at hfolder
    · next hthere =>
      match hr : d.isFolder? p with
      | .ok true => rfl
      | .ok false | .error _ =>
        rw [hr] at hthere
        cases hthere
    · cases hfolder

theorem ensureFolder_of_makeFoldersFrom {fuel : Nat}
    (h : makeFoldersFrom fuel d p = (d', .ok ())) : ∃ d₁, ensureFolder d₁ p = (d', .ok ()) := by
  fun_induction makeFoldersFrom fuel d p with
  | case1 d p => exact ⟨d, h⟩
  | case2 => cases (Prod.mk.inj h).2
  | case3 fuel d p d₁ _ _ d₂ _ _ => exact ⟨d₂, h⟩
  | case4 fuel d p d₁ _ _ hfailed _ => exact absurd h (hfailed d')
  | case5 fuel d p _ => exact ⟨d, h⟩

/-- A folder that is there need not be made. -/
theorem makeFolders_of_isFolder (h : d.isFolder? p = .ok true) :
    d.makeFolders p = (d, .ok ()) := by
  obtain ⟨_, q, hlocate⟩ := isFolder?_iff.mp h
  obtain ⟨q', e', hfound⟩ := locate_found_of_last hlocate
  have hensure : d.ensureFolder p = (d, .ok ()) := by
    have hmade : d.makeFolder p = .error .exists := by rw [makeFolder, hfound]
    rw [ensureFolder, hmade]
    simp [h, Except.toOption]
  rw [makeFolders, makeFoldersFrom, hensure]

/-- **What was made need not be made again.** -/
theorem makeFolders_again (hnull : holdsNull p = false)
    (h : d.makeFolders p = (d', .ok ())) : d'.makeFolders p = (d', .ok ()) := by
  obtain ⟨d₁, hensure⟩ := ensureFolder_of_makeFoldersFrom h
  exact makeFolders_of_isFolder (isFolder?_of_ensureFolder hnull hensure)

end grown

/-! ## Files at the ends of paths -/

/-- A path leads to a file with a content; the file itself is there, not a link to it. -/
def HoldsFile (d : Disk) (p : Path) (content : Bytes) : Prop :=
  ∃ q changed, d.Leads p q ∧ d.at? q = some (.file content changed)

/-- A path leads to a place where nothing is, not even a link. -/
def IsVacant (d : Disk) (p : Path) : Prop := ∃ q, d.Leads p q ∧ d.at? q = none

section files
variable {d d' : Disk} {p : Path} {content : Bytes}

/-- A file that is located where the path's last name is held there. -/
theorem HoldsFile.of_locate {q : Place} {changed : Int} {name : String}
    (h : d.locate p false = .ok (.found q (.file content changed)))
    (hlast : p.parts.getLast? = some name) (hname : name ≠ "..") : d.HoldsFile p content := by
  obtain ⟨q', hleads, hspot⟩ := leads_of_locate h (.inr ⟨name, hlast, hname⟩)
  match hat : d.at? q' with
  | none =>
    rw [spotAt_of_none hat] at hspot
    cases hspot
  | some e =>
    rw [spotAt_of_some hat] at hspot
    obtain ⟨rfl, rfl⟩ := Spot.found.inj hspot
    exact ⟨q, changed, hleads, hat⟩

theorem HoldsFile.locate (h : d.HoldsFile p content) :
    ∃ q changed, ∀ last, d.locate p last = .ok (.found q (.file content changed)) := by
  obtain ⟨q, changed, hleads, hat⟩ := h
  exact ⟨q, changed, hleads.locate_found hat nofun⟩

theorem HoldsFile.exists? (h : d.HoldsFile p content) (hnull : holdsNull p = false) :
    d.exists? p = .ok true := by
  obtain ⟨q, changed, hlocate⟩ := h.locate
  rw [Disk.exists?, lookUp, if_neg (Bool.eq_false_iff.mp hnull), hlocate true]
  rfl

theorem HoldsFile.fileAt (h : d.HoldsFile p content) :
    ∃ changed, d.fileAt p = .ok (content, changed) := by
  obtain ⟨q, changed, hlocate⟩ := h.locate
  exact ⟨changed, by rw [Disk.fileAt, hlocate true]⟩

theorem HoldsFile.grown (h : d.HoldsFile p content) (hgrown : d.Grown d') :
    d'.HoldsFile p content := by
  obtain ⟨q, changed, hleads, hat⟩ := h
  exact ⟨q, changed, hleads.mono hgrown.keepsWays, hgrown.still q _ hat⟩

theorem IsVacant.locate (h : d.IsVacant p) : ∃ q, ∀ last, d.locate p last = .ok (.vacant q) := by
  obtain ⟨q, hleads, hat⟩ := h
  exact ⟨q, hleads.locate_vacant hat⟩

theorem IsVacant.exists? (h : d.IsVacant p) : d.exists? p = .ok false := by
  obtain ⟨q, hlocate⟩ := h.locate
  rw [Disk.exists?, lookUp]
  split
  · rfl
  · rw [hlocate true]
    rfl

/-- What does not exist has no content. -/
theorem fileAt_of_not_exists (hnull : holdsNull p = false) (h : d.exists? p = .ok false) :
    ∃ f, d.fileAt p = .error f := by
  rw [Disk.exists?, lookUp, if_neg (Bool.eq_false_iff.mp hnull)] at h
  unfold Disk.fileAt
  match hlocate : d.locate p true with
  | .ok (.found q e) =>
    rw [hlocate] at h
    cases h
  | .ok (.vacant q) => exact ⟨_, rfl⟩
  | .error f => exact ⟨_, rfl⟩

/-- A path that leads freely to its end, so that a file may be put there. -/
def HasFreeEnd (d : Disk) (p : Path) : Prop := ∃ q, d.LeadsFreely p q

theorem HoldsFile.hasFreeEnd (h : d.HoldsFile p content) : d.HasFreeEnd p := by
  obtain ⟨q, changed, hleads, hat⟩ := h
  exact ⟨q, hleads.freely (.of_file hat)⟩

theorem IsVacant.hasFreeEnd (h : d.IsVacant p) : d.HasFreeEnd p := by
  obtain ⟨q, hleads, hat⟩ := h
  exact ⟨q, hleads.freely (.of_vacant hat)⟩

/-- A file that was created where nothing was is there, and everything else still is. -/
theorem createFile_ok (h : d.createFile p content = .ok d') :
    ∃ q, d.Leads p q ∧ d.at? q = none ∧ d' = d.put q (.file content writtenAt) := by
  unfold createFile at h
  split at h
  · cases h
  · next q hlocate =>
    obtain ⟨hleads, hat⟩ := leads_of_locate_vacant hlocate
    exact ⟨q, hleads, hat, (Except.ok.inj h).symm⟩
  · cases h

/-- Writing a file in place changes nothing but its content. -/
theorem writeFile_ok {old : Bytes} {q : Place} {changed : Int} (hleads : d.Leads p q)
    (hat : d.at? q = some (.file old changed)) (h : d.writeFile p content = .ok d') :
    d' = d.put q (.file content writtenAt) := by
  rw [writeFile, putFile, hleads.locate_found hat nofun] at h
  exact (Except.ok.inj h).symm

/-- Moving a file to a path puts it where the path leads. -/
theorem moveFile_ok {source target : Path} {r : Place} {changed : Int}
    (hleads : d.Leads source r) (hat : d.at? r = some (.file content changed))
    (h : d.moveFile source target = .ok d') :
    ∃ q, d.Leads target q ∧ d.at? q ≠ some .folder ∧
      d' = (d.remove r).put q (.file content changed) := by
  rw [moveFile, hleads.locate_found hat nofun] at h
  dsimp only at h
  split at h
  · cases h
  · cases h
  · next name hname hlast =>
    split at h
    · cases h
    · next q e hfile hlocate =>
      obtain ⟨q', hq, hspot⟩ := leads_of_locate hlocate (.inr ⟨name, hlast, hname⟩)
      match hat : d.at? q' with
      | none =>
        rw [spotAt_of_none hat] at hspot
        cases hspot
      | some e' =>
        rw [spotAt_of_some hat] at hspot
        obtain ⟨rfl, rfl⟩ := Spot.found.inj hspot
        refine ⟨q, hq, ?_, (Except.ok.inj h).symm⟩
        rw [hat]
        exact fun he => hfile (Option.some.inj he)
    · next q hlocate =>
      obtain ⟨hq, hat⟩ := leads_of_locate_vacant hlocate
      exact ⟨q, hq, by rw [hat]; exact nofun, (Except.ok.inj h).symm⟩
    · cases h

theorem unlink_of_file {q : Place} {changed : Int} (hleads : d.Leads p q)
    (hat : d.at? q = some (.file content changed)) : d.unlink p = .ok (d.remove q) := by
  rw [unlink, hleads.locate_found hat nofun]

/-- What is put at a place takes the place of what was put there before. -/
theorem put_put (d : Disk) (q : Place) (e e' : Entry) : (d.put q e).put q e' = d.put q e' := by
  simp [put, List.filter_filter]

/-- No entry is for a place where nothing is. -/
theorem filter_of_vacant {q : Place} (hq : q ≠ []) (hvacant : d.at? q = none) :
    d.entries.filter (fun x => x.1 != q) = d.entries := by
  rw [at?, if_neg (by simpa using hq), Option.map_eq_none_iff] at hvacant
  exact List.filter_eq_self.mpr fun x hx => by simpa using List.find?_eq_none.mp hvacant x hx

/-- What was put where nothing was can be removed again. -/
theorem remove_put {q : Place} {e : Entry} (hq : q ≠ []) (hvacant : d.at? q = none) :
    (d.put q e).remove q = d := by
  simp only [put, remove, List.filter_cons, bne_self_eq_false, Bool.false_eq_true, if_false,
    filter_of_vacant hq hvacant]

/-- **A file that is put at the free end of a path is there.** -/
theorem holdsFile_of_put {q : Place} {changed : Int} (hleads : d.Leads p q)
    (hfree : d.HasFreeEnd p) :
    (d.put q (.file content changed)).HoldsFile p content := by
  obtain ⟨q', hfree⟩ := hfree
  obtain rfl := hleads.unique hfree.leads
  exact ⟨q, changed, hfree _ (.put d q _), at?_put_self d hleads.place_ne_nil _⟩

end files

end Disk

end Regen
