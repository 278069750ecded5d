import Regen.Proofs.Disk.Folders

/-! # The folder around a file

    On a rooted disk the names before the last one of a path lead to a folder if anything is found
    at the path itself.  So what exists needs no folders to be made for it. -/

namespace Regen

namespace Disk

section following
variable {d : Disk} {fuel links : Nat} {p q : Place} {names init rest : List String} {spot : Spot}
  {e : Entry}

/-- What is followed at all is followed with as many steps as a way may need. -/
theorem follow_enough (h : d.follow true fuel links p names = .ok spot) {steps : Nat}
    (hsteps : names.length + 1 + links * (d.longestTarget + 1) ≤ steps) :
    d.follow true steps links p names = .ok spot := by
  have hpositive : ∃ k, steps = k + 1 := ⟨steps - 1, by omega⟩
  fun_induction follow d true fuel links p names generalizing steps with
  | case1 | case3 | case5 | case7 | case10 | case12 => cases h
  | case2 _ links p e hat =>
    obtain ⟨steps, rfl⟩ := hpositive
    rw [follow_nil, hat]
    exact h
  | case4 _ links p rest ih =>
    obtain ⟨steps, rfl⟩ := hpositive
    simp only [List.length_cons] at hsteps
    rw [follow_up]
    exact ih h (by omega) ⟨steps - 1, by omega⟩
  | case6 _ links p name rest hname next hsize hat hrest =>
    obtain ⟨steps, rfl⟩ := hpositive
    rw [follow, if_neg hsize, hat]
    · exact (if_pos hrest).trans h
    · exact hname
  | case8 _ links p name rest hname next hsize hat ih =>
    obtain ⟨steps, rfl⟩ := hpositive
    simp only [List.length_cons] at hsteps
    rw [follow_folder hname (Nat.le_of_not_lt hsize) hat]
    exact ih h (by omega) ⟨steps - 1, by omega⟩
  | case9 _ links p name rest hname next hsize c t hat hrest =>
    obtain ⟨steps, rfl⟩ := hpositive
    rw [follow, if_neg hsize, hat]
    · exact (if_pos hrest).trans h
    · exact hname
  | case11 _ _ _ _ _ _ _ _ _ _ hrest => simp at hrest
  | case13 _ p name rest hname next hsize target hat hrest links t =>
    rename_i ih
    -- The link that is used up pays for the names of its target.
    have hparts := length_parts_le target
    have htarget := length_le_longestTarget hat
    obtain ⟨steps, rfl⟩ := hpositive
    simp only [List.length_cons, Nat.succ_mul] at hsteps
    have henough : ((Path.ofText target).parts ++ rest).length + 1 +
        links * (d.longestTarget + 1) ≤ steps := by
      rw [List.length_append]
      omega
    rw [follow_link hname (Nat.le_of_not_lt hsize) hat (.inr rfl)]
    exact ih h henough ⟨steps - 1, by omega⟩

/-- **The names before others lead to a folder** if all of them together lead to something. -/
theorem Rooted.follow_initial (hd : d.Rooted) (hp : d.at? p = some .folder) (hrest : rest ≠ [])
    (h : d.follow true fuel links p (init ++ rest) = .ok (.found q e)) :
    ∃ r, d.follow true fuel links p init = .ok (.found r .folder) := by
  induction fuel generalizing links p init with
  | zero => cases h
  | succ fuel ih =>
    cases init with
    | nil => exact ⟨p, by rw [follow_nil, hp]⟩
    | cons name more =>
      have hempty : (more ++ rest).isEmpty = false := by simp [hrest]
      rw [List.cons_append] at h
      by_cases hname : name = ".."
      · subst hname
        rw [follow_up] at h ⊢
        exact ih (hd.folder_around hp) h
      by_cases hsize : maxName < name.utf8ByteSize
      · rw [follow, if_pos hsize] at h
        · cases h
        · exact hname
      have hsize' := Nat.le_of_not_lt hsize
      -- Behind a file, or where nothing is, nothing is found.
      rcases hat : d.at? (p ++ [name]) with - | ⟨content, changed⟩ | - | target
      · rw [follow, if_neg hsize, hat] at h
        · simp [hempty] at h
        · exact hname
      · rw [follow, if_neg hsize, hat] at h
        · simp [hempty] at h
        · exact hname
      · rw [follow_folder hname hsize' hat] at h ⊢
        exact ih hat h
      · cases links with
        | zero =>
          rw [follow, if_neg hsize, hat] at h
          · simp [hempty] at h
          · exact hname
        | succ links =>
          rw [follow_link hname hsize' hat (.inr rfl)] at h ⊢
          rw [← List.append_assoc] at h
          refine ih ?_ h
          split
          · rfl
          · exact hp

end following

end Disk

/-! ## Paths -/

/-- A path without its last part is no longer than the path, up to the dot for no parts. -/
theorem Path.size_text_parent (p : Path) :
    p.parent.text.utf8ByteSize ≤ max 1 p.text.utf8ByteSize := by
  obtain ⟨slashes, parts⟩ := p
  have hbody : ("/".intercalate parts.dropLast).utf8ByteSize ≤
      ("/".intercalate parts).utf8ByteSize := by
    rcases List.eq_nil_or_concat parts with rfl | ⟨init, name, rfl⟩
    · simp
    · rw [List.concat_eq_append, List.dropLast_concat]
      by_cases hinit : init = []
      · simp [hinit]
      · rw [String.intercalate_append_of_ne_nil hinit (by simp), String.utf8ByteSize_append,
          String.utf8ByteSize_append]
        omega
  unfold Path.parent Path.text
  split
  · exact Nat.le_max_left _ _
  · next hparent =>
    have hparts : ¬(decide (slashes = 0) && parts.isEmpty) = true := by
      intro hempty
      simp_all
    rw [if_neg hparts, String.utf8ByteSize_append, String.utf8ByteSize_append]
    dsimp only
    omega

namespace Disk

variable {d : Disk} {p : Path}

/-- **The folder around what exists is there.** -/
theorem Rooted.isFolder?_parent (hd : d.Rooted) (hnull : holdsNull p.parent = false) {q : Place}
    {e : Entry} (h : d.locate p true = .ok (.found q e)) : d.isFolder? p.parent = .ok true := by
  refine isFolder?_iff.mpr ⟨hnull, ?_⟩
  have hsize := p.size_text_parent
  unfold locate at h ⊢
  split at h
  · cases h
  · next hlong =>
    have hshort : ¬maxPath < p.parent.text.utf8ByteSize := by
      unfold maxPath at *
      omega
    have henough : p.parent.parts.length + 1 + maxLinks * (d.longestTarget + 1) ≤
        d.steps p.parent.parts.length := by
      rw [steps, Nat.succ_mul]
      omega
    rw [if_neg hshort]
    have hbase := hd.base_folder p
    rcases List.eq_nil_or_concat p.parts with hnil | ⟨init, name, hparts⟩
    · have hparent : p.parent = p := by
        rw [Path.parent, hnil]
        exact congrArg (Path.mk p.slashes) hnil.symm
      rw [hparent, hnil] at henough ⊢
      have hstay : d.follow true 1 maxLinks (d.base p) [] = .ok (.found (d.base p) .folder) := by
        rw [follow_nil, hbase]
      exact ⟨d.base p, follow_enough hstay henough⟩
    · have hinit : p.parent.parts = init := by
        rw [Path.parent, hparts, List.concat_eq_append, List.dropLast_concat]
      rw [hparts, List.concat_eq_append] at h
      obtain ⟨r, hr⟩ := hd.follow_initial hbase (by simp) h
      rw [hinit] at henough ⊢
      exact ⟨r, follow_enough hr henough⟩

end Disk

end Regen
