import Regen.Disk.Path

/-! # Texts of paths

    A path that was read has only parts that name something and hold no slash.  Such a path is
    read back from its text, so two of them with one text are one path. -/

namespace Regen

/-- Cutting at every separator, as the library has it. -/
theorem Text.splitAt_eq_splitOnP (p : Char → Bool) (cs : List Char) :
    Text.splitAt p cs = cs.splitOnP p := by
  induction cs with
  | nil => rfl
  | cons c rest ih =>
    rw [Text.splitAt, List.splitOnP_cons_eq_if_modifyHead, ← ih]
    split
    · rfl
    · have hne := Text.splitAt_ne_nil p rest
      cases hpieces : Text.splitAt p rest with
      | nil => exact absurd hpieces hne
      | cons piece pieces => rfl

namespace Path

/-- **A part of a path** names something and holds no slash. -/
structure IsPart (s : String) : Prop where
  ne_empty : s ≠ ""
  ne_dot : s ≠ "."
  noSlash : '/' ∉ s.toList

section texts
variable {parts : List String} {p q : Path}

/-- Slashes in front of a text are no parts of it. -/
theorem namedParts_slashes (n : Nat) (cs : List Char) :
    namedParts (List.replicate n '/' ++ cs) = namedParts cs := by
  induction n with
  | zero => rfl
  | succ n ih => exact ih

theorem namedParts_intercalate (hparts : ∀ s ∈ parts, IsPart s) :
    namedParts ("/".intercalate parts).toList = parts := by
  by_cases hnil : parts = []
  · subst hnil
    rfl
  · have hcut : ((parts.map String.toList).map String.ofList) = parts := by
      rw [List.map_map]
      exact List.map_id'' (fun s => String.ofList_toList) parts
    have hno : ∀ cs ∈ parts.map String.toList, '/' ∉ cs := by
      intro cs hcs
      obtain ⟨s, hs, rfl⟩ := List.mem_map.mp hcs
      exact (hparts s hs).noSlash
    have hsplit : Text.splitAt (· == '/') ("/".intercalate parts).toList =
        parts.map String.toList := by
      rw [Text.splitAt_eq_splitOnP, String.toList_intercalate]
      exact List.splitOn_intercalate '/' hno (by simpa using hnil)
    rw [namedParts, hsplit, hcut]
    apply List.filter_eq_self.mpr
    intro s hs
    simp [(hparts s hs).ne_empty, (hparts s hs).ne_dot]

/-- No slash is in front of parts. -/
theorem takeWhile_intercalate (hparts : ∀ s ∈ parts, IsPart s) :
    ("/".intercalate parts).toList.takeWhile (· == '/') = [] := by
  cases parts with
  | nil => rfl
  | cons s rest =>
    have hs := hparts s List.mem_cons_self
    obtain ⟨c, cs, hcs⟩ : ∃ c cs, s.toList = c :: cs := by
      apply List.exists_cons_of_ne_nil
      intro hnil
      exact hs.ne_empty (String.toList_eq_nil_iff.mp hnil)
    have hc : c ≠ '/' := by
      rintro rfl
      exact hs.noSlash (hcs ▸ List.mem_cons_self)
    have hfront : ∃ more, ("/".intercalate (s :: rest)).toList = c :: more := by
      cases rest with
      | nil => exact ⟨cs, by rw [String.intercalate_singleton, hcs]⟩
      | cons t rest => exact ⟨_, by simp [String.intercalate_cons_cons, hcs]; rfl⟩
    obtain ⟨more, hmore⟩ := hfront
    rw [hmore, List.takeWhile_cons, if_neg (by simpa using hc)]

/-- **A path is read back from its text.** -/
theorem ofText_text (hslashes : p.slashes ≤ 2) (hparts : ∀ s ∈ p.parts, IsPart s) :
    ofText p.text = p := by
  obtain ⟨n, parts⟩ := p
  dsimp only at hslashes hparts
  have htext : ∀ cs, cs = List.replicate n '/' ++ ("/".intercalate parts).toList →
      ofText (String.ofList cs) = ⟨n, parts⟩ := by
    rintro _ rfl
    have hcount : ((List.replicate n '/' ++ ("/".intercalate parts).toList).takeWhile
        (· == '/')).length = n := by
      rw [List.takeWhile_append_of_pos (by simp), takeWhile_intercalate hparts]
      simp
    rw [ofText, String.toList_ofList, hcount, namedParts_slashes, namedParts_intercalate hparts]
    congr 1
    split <;> omega
  rw [text]
  split
  · next hhere =>
    obtain ⟨rfl, rfl⟩ : n = 0 ∧ parts = [] := by simpa using hhere
    rfl
  · have hread := htext _ rfl
    rwa [String.ofList_append, String.ofList_toList] at hread

/-- **Paths with one text are one path.** -/
theorem eq_of_text (hp : p.slashes ≤ 2) (hpparts : ∀ s ∈ p.parts, IsPart s) (hq : q.slashes ≤ 2)
    (hqparts : ∀ s ∈ q.parts, IsPart s) (h : p.text = q.text) : p = q := by
  rw [← ofText_text hp hpparts, h, ofText_text hq hqparts]

end texts

end Path

end Regen
