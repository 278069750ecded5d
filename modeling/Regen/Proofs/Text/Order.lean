import Mathlib.Data.List.Basic
import Regen.Text.Order

/-! # Ordered texts are distinct

    Characters stand for different code points, so that the order of texts is a total order and
    `sortedDistinct` lists every text once, in strictly ascending order. -/

namespace Regen.Text

/-! ## Code points tell texts apart -/

/-- Different characters stand for different code points: a stand-in takes the place of a half
    of a pair, which is the code point of no character. -/
theorem codeOf_injective : Function.Injective codeOf := by
  intro c d h
  have hc := c.valid
  have hd := d.valid
  apply Char.ext
  apply UInt32.toNat_inj.mp
  simp only [codeOf, isStandIn, firstStandIn, halfCount, firstHalf, UInt32.isValidChar,
    Nat.isValidChar, Char.toNat, Bool.and_eq_true] at *
  grind

theorem codes_injective : Function.Injective codes := by
  intro s t h
  apply String.toList_inj.mp
  exact Function.Injective.list_map codeOf_injective h

/-! ## The order of texts -/

theorem atMost_iff {s t : String} : atMost s t = true ↔ ¬codes t < codes s := by
  simp [atMost]

theorem atMost_trans (s t u : String) (hst : atMost s t = true) (htu : atMost t u = true) :
    atMost s u = true := by
  rw [atMost_iff] at *
  exact List.le_trans (α := Nat) hst htu

theorem atMost_total (s t : String) : (atMost s t || atMost t s) = true := by
  rw [Bool.or_eq_true, atMost_iff, atMost_iff]
  exact List.le_total (α := Nat) (codes s) (codes t)

/-- A text that comes at most at another one comes before it or equals it. -/
theorem lt_or_eq_of_atMost {s t : String} (h : atMost s t = true) : codes s < codes t ∨ s = t := by
  rcases (List.le_iff_lt_or_eq (α := Nat)).mp (atMost_iff.mp h) with hlt | heq
  · exact .inl hlt
  · exact .inr (codes_injective heq)

theorem pairwise_sorted (names : List String) : (sorted names).Pairwise (atMost · ·) :=
  pairwise_sortBy atMost_trans atMost_total

/-- Without its repeats an ordered list ascends strictly. -/
theorem pairwise_dropRepeats {names : List String} (h : names.Pairwise (atMost · ·)) :
    (dropRepeats names).Pairwise (codes · < codes ·) := by
  fun_induction dropRepeats names with
  | case1 => exact .nil
  | case2 s => exact List.pairwise_singleton _ _
  | case3 s t rest _ ih => exact ih h.tail
  | case4 s t rest hst ih =>
    have hne : s ≠ t := by simpa using hst
    refine List.pairwise_cons.mpr ⟨fun u hu => ?_, ih h.tail⟩
    have hu : u ∈ t :: rest := mem_dropRepeats.mp hu
    rcases lt_or_eq_of_atMost ((List.pairwise_cons.mp h).1 u hu) with hlt | rfl
    · exact hlt
    -- If `s` came again behind `t`, then `t` would stand between equals.
    · have hst : codes s < codes t :=
        (lt_or_eq_of_atMost ((List.pairwise_cons.mp h).1 t List.mem_cons_self)).resolve_right hne
      rcases List.mem_cons.mp hu with rfl | hu
      · exact absurd rfl hne
      · have hts : atMost t s = true := (List.pairwise_cons.mp h.tail).1 s hu
        exact absurd hst (atMost_iff.mp hts)

/-- The distinct texts in order ascend strictly. -/
theorem pairwise_sortedDistinct (names : List String) :
    (sortedDistinct names).Pairwise (codes · < codes ·) :=
  pairwise_dropRepeats (pairwise_sorted names)

/-- Texts that ascend strictly are distinct. -/
theorem nodup_of_ascending {names : List String} (h : names.Pairwise (codes · < codes ·)) :
    names.Nodup := by
  refine h.imp fun {s t} hlt heq => ?_
  rw [heq] at hlt
  exact List.lt_irrefl (α := Nat) _ hlt

theorem nodup_sortedDistinct (names : List String) : (sortedDistinct names).Nodup :=
  nodup_of_ascending (pairwise_sortedDistinct names)

/-- Lists that ascend strictly and hold the same texts are equal. -/
theorem eq_of_ascending {names others : List String} (hn : names.Pairwise (codes · < codes ·))
    (ho : others.Pairwise (codes · < codes ·)) (hmem : ∀ x, x ∈ names ↔ x ∈ others) :
    names = others := by
  have hperm : names.Perm others :=
    (List.perm_ext_iff_of_nodup (nodup_of_ascending hn) (nodup_of_ascending ho)).mpr hmem
  refine hperm.eq_of_pairwise (fun s t _ _ hst hts => ?_) hn ho
  exact absurd hts (List.lt_asymm (α := Nat) hst)

/-! ## Sorting forgets the order before -/

theorem sorted_congr {names others : List String} (h : names.Perm others) :
    sorted names = sorted others := by
  have hperm : (sorted names).Perm (sorted others) := perm_sortBy.trans (h.trans perm_sortBy.symm)
  refine hperm.eq_of_pairwise (fun s t _ _ hst hts => ?_) (pairwise_sorted _) (pairwise_sorted _)
  rcases lt_or_eq_of_atMost hst with hlt | heq
  · exact absurd hlt (atMost_iff.mp hts)
  · exact heq

/-- Nor does it matter how often a text is given. -/
theorem sortedDistinct_congr {names others : List String} (h : ∀ x, x ∈ names ↔ x ∈ others) :
    sortedDistinct names = sortedDistinct others := by
  refine eq_of_ascending (pairwise_sortedDistinct _) (pairwise_sortedDistinct _) fun x => ?_
  rw [mem_sortedDistinct, mem_sortedDistinct, h]

/-- Distinct texts in order ascend strictly. -/
theorem pairwise_sorted_of_nodup {names : List String} (h : names.Nodup) :
    (sorted names).Pairwise (codes · < codes ·) := by
  have hdistinct : (sorted names).Nodup := perm_sortBy.nodup_iff.mpr h
  exact (pairwise_sorted names).imp₂ (fun s t hst hne => (lt_or_eq_of_atMost hst).resolve_right hne)
    hdistinct

end Regen.Text
