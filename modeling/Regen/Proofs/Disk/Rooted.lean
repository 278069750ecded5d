import Mathlib.Data.List.Induction
import Regen.Proofs.Disk.Apart
import Regen.Proofs.Disk.Around

/-! # Rooted disks

    Whatever is put on a rooted disk, it stays rooted, since every path leads into a folder.  The
    folders around one that exists exist too, so a path with its folder there does not step out
    of a missing one.  A file that is put beside them hides nothing: what was found is found. -/

namespace Regen

namespace Disk

section rooted
variable {d d' : Disk} {last : Bool} {fuel links : Nat} {p q r : Place} {names : List String}
  {spot : Spot} {e : Entry} {content : Bytes} {changed : Int}

/-- Names that are followed from a folder lead into one. -/
theorem Rooted.folder_of_follow (hd : d.Rooted) (hp : d.at? p = some .folder)
    (h : d.follow last fuel links p names = .ok spot) :
    d.at? spot.place.dropLast = some .folder := by
  fun_induction follow d last fuel links p names with
  | case1 | case3 | case5 | case7 | case10 | case12 => cases h
  | case2 => exact Except.ok.inj h ▸ hd.folder_around hp
  | case4 _ _ _ _ ih => exact ih (hd.folder_around hp) h
  | case6 | case9 | case11 =>
    rw [← Except.ok.inj h, Spot.place, List.dropLast_concat]
    exact hp
  | case8 _ _ _ _ _ _ next _ hat ih => exact ih hat h
  | case13 _ _ _ _ _ _ _ _ _ _ _ _ ih =>
    refine ih ?_ h
    split
    · rfl
    · exact hp

theorem Rooted.folder_of_locate (hd : d.Rooted) {a : Path} (h : d.locate a last = .ok spot) :
    d.at? spot.place.dropLast = some .folder := by
  unfold locate at h
  split at h
  · cases h
  · exact hd.folder_of_follow (hd.base_folder a) h

/-- What is put in a folder, where no way leads through, leaves the disk rooted. -/
theorem Rooted.put_plain (hd : d.Rooted) (hplain : d.NoWayThrough q)
    (hfolder : d.at? q.dropLast = some .folder) : (d.put q e).Rooted := by
  have hkeeps := KeepsWays.put hplain e
  refine ⟨fun x hx => ?_, hkeeps.folder _ hd.workFolder⟩
  rcases List.mem_cons.mp hx with rfl | hx
  · exact hkeeps.folder _ hfolder
  · exact hkeeps.folder _ (hd.parent x (List.mem_filter.mp hx).1)

theorem Rooted.putFile (hd : d.Rooted) {a : Path} (h : d.putFile a content changed = .ok d') :
    d'.Rooted := by
  unfold Disk.putFile at h
  split at h
  · next q c t hlocate =>
    obtain rfl := Except.ok.inj h
    exact hd.put_plain (.of_file (at?_of_spotAt_found (spotAt_of_locate hlocate)))
      (hd.folder_of_locate hlocate)
  · next q hlocate =>
    obtain rfl := Except.ok.inj h
    exact hd.put (at?_of_spotAt_vacant (spotAt_of_locate hlocate)) (hd.folder_of_locate hlocate)
  · cases h
  · cases h

theorem Rooted.makeLink (hd : d.Rooted) {a : Path} {target : String}
    (h : d.makeLink a target = .ok d') : d'.Rooted := by
  unfold Disk.makeLink at h
  split at h
  · cases h
  · next q hlocate =>
    obtain rfl := Except.ok.inj h
    exact hd.put (at?_of_spotAt_vacant (spotAt_of_locate hlocate)) (hd.folder_of_locate hlocate)
  · cases h

theorem Rooted.makeFolders (hd : d.Rooted) (a : Path) : (d.makeFolders a).1.Rooted :=
  (foldersMade_makeFolders d a).rooted hd

/-- **Whatever is put on a rooted disk**, with the folders around it, it stays rooted. -/
theorem Rooted.install (hd : d.Rooted) (a : Path) (e : Entry) : (d.install a e).1.Rooted := by
  have hmade := hd.makeFolders a.parent
  cases e with
  | folder => exact hd.makeFolders a
  | file content changed =>
    unfold Disk.install
    dsimp only
    split
    · next d₁ hfolders =>
      rw [hfolders] at hmade
      split
      · next d₂ hput => exact hmade.putFile hput
      · exact hmade
    · exact hmade
  | link target =>
    unfold Disk.install
    dsimp only
    split
    · next d₁ hfolders =>
      rw [hfolders] at hmade
      split
      · next d₂ hput => exact hmade.makeLink hput
      · exact hmade
    · exact hmade

/-! ## Folders around a folder -/

/-- **What is found is still found** when a file is put where no way leads through. -/
theorem follow_put_found (hplain : d.NoWayThrough q) (hq : q ≠ [])
    (h : d.follow true fuel links p names = .ok (.found r e)) :
    (d.put q (.file content changed)).follow true fuel links p names =
      .ok (.found r (if r = q then .file content changed else e)) := by
  have hput := at?_put_self d hq (.file content changed)
  have hkeeps := KeepsWays.put hplain (.file content changed)
  fun_induction follow d true fuel links p names with
  | case1 | case3 | case5 | case6 | case7 | case10 | case12 => cases h
  | case2 fuel links p e' hat hfuel =>
    obtain ⟨rfl, rfl⟩ := Spot.found.inj (Except.ok.inj h)
    obtain ⟨n, rfl⟩ := Nat.exists_eq_succ_of_ne_zero hfuel
    rw [follow_nil]
    by_cases hpq : p = q
    · subst hpq
      rw [hput, if_pos rfl]
    · rw [at?_put_ne d hpq, hat, if_neg hpq]
  | case4 fuel links p rest ih =>
    rw [follow_up]
    exact ih h
  | case8 fuel links p name rest hname next hsize hat ih =>
    rw [follow_folder hname (Nat.le_of_not_lt hsize) (hkeeps.folder _ hat)]
    exact ih h
  | case9 fuel links p name rest hname next hsize c t hat hrest =>
    obtain ⟨rfl, rfl⟩ := Spot.found.inj (Except.ok.inj h)
    rw [follow, if_neg hsize]
    · by_cases hnext : next = q
      · subst hnext
        rw [hput, if_pos rfl]
        exact if_pos hrest
      · rw [at?_put_ne d hnext, hat, if_neg hnext]
        exact if_pos hrest
    · exact hname
  | case11 fuel links p name rest hname next hsize target hat hrest => simp at hrest
  | case13 fuel p name rest hname next hsize target hat hrest links t ih =>
    rw [follow_link hname (Nat.le_of_not_lt hsize) (hkeeps.link _ _ hat) (.inr rfl)]
    exact ih h

theorem locate_put_found (hplain : d.NoWayThrough q) (hq : q ≠ []) {a : Path}
    (h : d.locate a true = .ok (.found r e)) :
    (d.put q (.file content changed)).locate a true =
      .ok (.found r (if r = q then .file content changed else e)) := by
  unfold locate at h ⊢
  split at h
  · cases h
  · next hsize =>
    rw [if_neg hsize]
    refine follow_enough (follow_put_found hplain hq h) ?_
    rw [steps, Nat.succ_mul]
    omega

/-- A folder is still there. -/
theorem isFolder?_put (hplain : d.NoWayThrough q) (hq : q ≠ []) {a : Path}
    (h : d.isFolder? a = .ok true) :
    (d.put q (.file content changed)).isFolder? a = .ok true := by
  obtain ⟨hnull, r, hlocate⟩ := isFolder?_iff.mp h
  have hne : r ≠ q := hplain.ne (at?_of_spotAt_found (spotAt_of_locate hlocate)) nofun
  refine isFolder?_iff.mpr ⟨hnull, r, ?_⟩
  rw [locate_put_found hplain hq hlocate, if_neg hne]

end rooted

end Disk

end Regen
