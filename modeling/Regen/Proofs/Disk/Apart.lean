import Regen.Proofs.Disk.Folders
import Regen.Proofs.Lockfile.Holds

/-! # Files apart

    A file that is written where another path does not lead leaves what that path holds: a file
    there is still there, and where nothing was nothing is, however many of the folders on the way
    are made. -/

namespace Regen

/-- The place that a spot is at. -/
def Spot.place : Spot → Place
  | .found q _ | .vacant q => q

namespace Disk

/-! ## What following ends at -/

section following
variable {d d' : Disk} {last : Bool} {fuel links : Nat} {p q r : Place} {names : List String}
  {spot : Spot} {e : Entry}

/-- Following says what is at the place that it ends at. -/
theorem spotAt_of_follow (h : d.follow last fuel links p names = .ok spot) :
    d.spotAt spot.place = spot := by
  fun_induction follow d last fuel links p names with
  | case1 | case3 | case5 | case7 | case10 | case12 => cases h
  | case2 _ _ p e hat => exact Except.ok.inj h ▸ spotAt_of_some hat
  | case4 _ _ _ _ ih => exact ih h
  | case6 _ _ _ _ _ _ next _ hat => exact Except.ok.inj h ▸ spotAt_of_none hat
  | case8 _ _ _ _ _ _ next _ hat ih => exact ih h
  | case9 _ _ _ _ _ _ next _ c t hat => exact Except.ok.inj h ▸ spotAt_of_some hat
  | case11 _ _ _ _ _ _ next _ target hat => exact Except.ok.inj h ▸ spotAt_of_some hat
  | case13 _ _ _ _ _ _ _ _ _ _ _ _ ih => exact ih h

theorem at?_of_spotAt_found (h : d.spotAt q = .found r e) : d.at? q = some e := by
  unfold spotAt at h
  split at h
  · next hat => exact hat.trans (congrArg some (Spot.found.inj h).2)
  · cases h

theorem at?_of_spotAt_vacant (h : d.spotAt q = .vacant r) : d.at? q = none := by
  unfold spotAt at h
  split at h
  · cases h
  · next hat => exact hat

theorem spotAt_of_locate {a : Path} (h : d.locate a last = .ok spot) :
    d.spotAt spot.place = spot := by
  unfold locate at h
  split at h
  · cases h
  · exact spotAt_of_follow h

/-- **A disk with one more file**: a file is at the place, and nothing else is different. -/
structure WithFile (d : Disk) (q : Place) (d' : Disk) : Prop where
  workFolder : d'.workFolder = d.workFolder
  file : ∃ content changed, d'.at? q = some (.file content changed)
  other : ∀ r, r ≠ q → d'.at? r = d.at? r
  longestTarget : d'.longestTarget ≤ d.longestTarget

/-- Following that ends elsewhere does not come by the file, so it ends there without it, and also
    with more steps. -/
theorem WithFile.follow (hfile : d.WithFile q d') (extra : Nat)
    (h : d'.follow true fuel links p names = .ok (.found r e)) (hne : r ≠ q) :
    d.follow true (fuel + extra) links p names = .ok (.found r e) := by
  have hother : ∀ {s : Place} {e : Entry}, d'.at? s = some e →
      (∀ content changed, e ≠ .file content changed) → d.at? s = some e := by
    intro s e hat hplain
    rw [← hfile.other s, hat]
    rintro rfl
    obtain ⟨content, changed, hq⟩ := hfile.file
    rw [hat] at hq
    exact hplain content changed (Option.some.inj hq)
  have hfolder : ∀ {s : Place}, d'.at? s = some .folder → d.at? s = some .folder := fun hat =>
    hother hat fun _ _ heq => Entry.noConfusion heq
  have hlink : ∀ {s : Place} {target : String}, d'.at? s = some (.link target) →
      d.at? s = some (.link target) := fun hat => hother hat fun _ _ heq => Entry.noConfusion heq
  fun_induction Disk.follow d' true fuel links p names with
  | case1 | case3 | case5 | case6 | case7 | case10 | case12 => cases h
  | case2 fuel links p e' hat hfuel =>
    obtain ⟨rfl, rfl⟩ := Spot.found.inj (Except.ok.inj h)
    obtain ⟨n, rfl⟩ := Nat.exists_eq_succ_of_ne_zero hfuel
    rw [Nat.succ_add, follow_nil, ← hfile.other _ hne, hat]
  | case4 fuel links p rest ih =>
    rw [Nat.succ_add, follow_up]
    exact ih h
  | case8 fuel links p name rest hname next hsize hat ih =>
    rw [Nat.succ_add, follow_folder hname (Nat.le_of_not_lt hsize) (hfolder hat)]
    exact ih h
  | case9 fuel links p name rest hname next hsize c t hat hrest =>
    obtain ⟨rfl, rfl⟩ := Spot.found.inj (Except.ok.inj h)
    rw [Nat.succ_add, Disk.follow, if_neg hsize, ← hfile.other _ hne, hat]
    · exact if_pos hrest
    · exact hname
  | case11 fuel links p name rest hname next hsize target hat hrest => simp at hrest
  | case13 fuel p name rest hname next hsize target hat hrest links t ih =>
    rw [Nat.succ_add, follow_link hname (Nat.le_of_not_lt hsize) (hlink hat) (.inr rfl)]
    exact ih h

theorem WithFile.locate (hfile : d.WithFile q d') {a : Path}
    (h : d'.locate a true = .ok (.found r e)) (hne : r ≠ q) :
    d.locate a true = .ok (.found r e) := by
  have hbase : d'.base a = d.base a := by rw [base, base, hfile.workFolder]
  have hsteps : d'.steps a.parts.length ≤ d.steps a.parts.length :=
    Nat.add_le_add_left (Nat.mul_le_mul_left _ (Nat.succ_le_succ hfile.longestTarget)) _
  unfold Disk.locate at h ⊢
  split at h
  · cases h
  · next hsize =>
    -- The walk without the file has at least as many steps to go.
    obtain ⟨extra, hextra⟩ := Nat.le.dest hsteps
    rw [if_neg hsize, ← hbase, ← hextra]
    exact hfile.follow extra h hne

/-- The file is on no way. -/
theorem WithFile.keepsWays (hfile : d.WithFile q d') : d'.KeepsWays d := by
  obtain ⟨content, changed, hq⟩ := hfile.file
  have hne : ∀ {s : Place} {e : Entry}, d'.at? s = some e →
      (∀ content changed, e ≠ .file content changed) → s ≠ q := fun hat hplain =>
    (NoWayThrough.of_file hq).ne hat hplain
  refine ⟨hfile.workFolder.symm, fun s hat => ?_, fun s target hat => ?_⟩
  · rw [← hfile.other s (hne hat nofun)]
    exact hat
  · rw [← hfile.other s (hne hat nofun)]
    exact hat

theorem longestTarget_put (d : Disk) (q : Place) {e : Entry} (he : ∀ target, e ≠ .link target) :
    (d.put q e).longestTarget ≤ d.longestTarget := by
  -- Only links count, so that what is put adds nothing to those that stay.
  have hput : (d.put q e).longestTarget =
      { d with entries := d.entries.filter fun x => x.1 != q }.longestTarget := by
    cases e with
    | link target => exact absurd rfl (he target)
    | file | folder => rfl
  rw [hput, Disk.longestTarget, Disk.longestTarget]
  dsimp only
  generalize d.entries = entries
  induction entries with
  | nil => exact Nat.le_refl _
  | cons x rest ih =>
    rw [List.filter_cons, List.foldr_cons]
    split
    · rw [List.foldr_cons]
      split
      · exact Nat.max_le.mpr ⟨Nat.le_max_left _ _, Nat.le_trans ih (Nat.le_max_right _ _)⟩
      · exact ih
    · refine Nat.le_trans ih ?_
      split
      · exact Nat.le_max_right _ _
      · exact Nat.le_refl _

theorem longestTarget_put_folder (hq : q ≠ []) (hvacant : d.at? q = none) :
    (d.put q .folder).longestTarget = d.longestTarget := by
  rw [Disk.longestTarget, Disk.longestTarget, put]
  dsimp only
  rw [List.foldr_cons, filter_of_vacant hq hvacant]

theorem WithFile.put (d : Disk) (hq : q ≠ []) (content : Bytes) (changed : Int) :
    d.WithFile q (d.put q (.file content changed)) where
  workFolder := rfl
  file := ⟨content, changed, at?_put_self d hq _⟩
  other _ hr := at?_put_ne d hr _
  longestTarget := longestTarget_put d q nofun

/-- A folder that is made beside the file can be made without it. -/
theorem WithFile.put_folder (hfile : d.WithFile q d') (hr : r ≠ []) (hvacant : d'.at? r = none) :
    d.at? r = none ∧ (d.put r .folder).WithFile q (d'.put r .folder) := by
  obtain ⟨content, changed, hq⟩ := hfile.file
  have hne : r ≠ q := by
    rintro rfl
    rw [hvacant] at hq
    cases hq
  have hvacant' : d.at? r = none := by
    rw [← hfile.other r hne]
    exact hvacant
  refine ⟨hvacant', hfile.workFolder, ⟨content, changed, ?_⟩, fun s hs => ?_, ?_⟩
  · rw [at?_put_ne _ hne.symm]
    exact hq
  · by_cases hsr : s = r
    · rw [hsr, at?_put_self _ hr, at?_put_self _ hr]
    · rw [at?_put_ne _ hsr, at?_put_ne _ hsr]
      exact hfile.other s hs
  · rw [longestTarget_put_folder hr hvacant, longestTarget_put_folder hr hvacant']
    exact hfile.longestTarget

theorem WithFile.foldersMade (hfile : d.WithFile q d') {a : Path} {d'' : Disk}
    (hmade : FoldersMade a d' d'') : ∃ d₁, FoldersMade a d d₁ ∧ d₁.WithFile q d'' := by
  induction hmade with
  | none => exact ⟨d, .none, hfile⟩
  | step _ ha hleads hvacant ih =>
    obtain ⟨d₁, hmade, hfile⟩ := ih
    obtain ⟨hvacant', hfile'⟩ := hfile.put_folder hleads.place_ne_nil hvacant
    exact ⟨_, .step hmade ha (hleads.mono hfile.keepsWays) hvacant', hfile'⟩

end following

/-! ## Other files -/

/-- **Another file**: a file at the place that `t` leads to is not what `p` leads to, however many
    of the folders on the way of `p` are made. -/
def Apart (d : Disk) (p t : Path) : Prop :=
  ∀ spot content changed d' e, d.locate t true = .ok spot →
    FoldersMade p.parent (d.put spot.place (.file content changed)) d' →
    d'.locate p true ≠ .ok (.found spot.place e)

/-- A file is written at a place where a file is or nothing. -/
theorem writeFile_cases {d d' : Disk} {t : Path} {content : Bytes}
    (h : d.writeFile t content = .ok d') :
    ∃ spot, d.locate t true = .ok spot ∧ spot.place ≠ [] ∧ d.NoWayThrough spot.place ∧
      d' = d.put spot.place (.file content writtenAt) := by
  have hroot : ∀ {spot : Spot}, d.NoWayThrough spot.place → spot.place ≠ [] := by
    intro spot hplain hroot
    obtain ⟨_, _, he⟩ := hplain .folder (by rw [hroot]; rfl)
    cases he
  unfold writeFile putFile at h
  split at h
  · next q c t hlocate =>
    have hplain : d.NoWayThrough q := .of_file (at?_of_spotAt_found (spotAt_of_locate hlocate))
    exact ⟨.found q (.file c t), hlocate, hroot hplain, hplain, (Except.ok.inj h).symm⟩
  · next q hlocate =>
    have hplain : d.NoWayThrough q := .of_vacant (at?_of_spotAt_vacant (spotAt_of_locate hlocate))
    exact ⟨.vacant q, hlocate, hroot hplain, hplain, (Except.ok.inj h).symm⟩
  · cases h
  · cases h

end Disk

namespace Lockfile

/-- **Writing another file leaves what a path holds.** -/
theorem Holds.writeFile {d d' : Disk} {p t : Path} {c : Option Bytes} {content : Bytes}
    (h : Holds d p c) (hapart : d.Apart p t) (hwrite : d.writeFile t content = .ok d') :
    Holds d' p c := by
  obtain ⟨spot, hlocate, hroot, hplain, rfl⟩ := Disk.writeFile_cases hwrite
  match c with
  | some old =>
    obtain ⟨hnull, q, changed, hleads, hat⟩ := h
    have hleads' := hleads.mono (Disk.KeepsWays.put hplain (.file content Disk.writtenAt))
    refine ⟨hnull, q, changed, hleads', ?_⟩
    have hne : q ≠ spot.place := by
      rintro rfl
      have hthere := Disk.at?_put_self d hroot (.file content Disk.writtenAt)
      exact hapart spot content _ _ _ hlocate .none (hleads'.locate_found hthere nofun true)
    rw [Disk.at?_put_ne d hne]
    exact hat
  | none =>
    -- What exists with the file there would have existed without it.
    intro d'' hmade hexists
    obtain ⟨hnull, r, e, hfound⟩ := Disk.exists?_ok_true hexists
    have hne : r ≠ spot.place := by
      rintro rfl
      exact hapart spot content _ _ e hlocate hmade hfound
    obtain ⟨d₁, hmade', hfile⟩ :=
      (Disk.WithFile.put d hroot content Disk.writtenAt).foldersMade hmade
    refine h d₁ hmade' ?_
    rw [Disk.exists?, Disk.lookUp, if_neg (Bool.eq_false_iff.mp hnull), hfile.locate hfound hne]
    rfl

end Lockfile

end Regen
