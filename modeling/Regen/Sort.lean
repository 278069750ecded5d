/-! # Sorting

    Insertion sort.  The recursion follows the list, so that sorting computes; elements that equal
    each other keep their order. -/

namespace Regen

variable {α : Type} {le : α → α → Bool} {x y : α} {xs : List α}

/-- Put an element into an ordered list, before the first that it may precede. -/
def insertBy (le : α → α → Bool) (x : α) : List α → List α
  | [] => [x]
  | y :: rest => if le x y then x :: y :: rest else y :: insertBy le x rest

theorem insertBy_cons :
    insertBy le x (y :: xs) = if le x y then x :: y :: xs else y :: insertBy le x xs := rfl

/-- The elements in order. -/
def sortBy (le : α → α → Bool) (xs : List α) : List α := xs.foldr (insertBy le) []

theorem perm_insertBy : (insertBy le x xs).Perm (x :: xs) := by
  induction xs with
  | nil => exact .refl _
  | cons y rest ih =>
    rw [insertBy_cons]
    split
    · exact .refl _
    · exact (ih.cons y).trans (.swap x y rest)

/-- Sorting neither loses nor adds an element. -/
theorem perm_sortBy : (sortBy le xs).Perm xs := by
  induction xs with
  | nil => exact .refl _
  | cons x rest ih => exact List.Perm.trans perm_insertBy (ih.cons x)

/-- The order is kept by inserting, where it is total. -/
theorem pairwise_insertBy (htrans : ∀ x y z, le x y = true → le y z = true → le x z = true)
    (htotal : ∀ x y, (le x y || le y x) = true) (h : xs.Pairwise (le · ·)) :
    (insertBy le x xs).Pairwise (le · ·) := by
  induction xs with
  | nil => exact List.pairwise_singleton _ _
  | cons y rest ih =>
    obtain ⟨hy, hrest⟩ := List.pairwise_cons.mp h
    rw [insertBy_cons]
    split
    · next hxy =>
      refine List.pairwise_cons.mpr ⟨fun z hz => ?_, h⟩
      rcases List.mem_cons.mp hz with rfl | hz
      · exact hxy
      · exact htrans x y z hxy (hy z hz)
    · next hxy =>
      have hyx : le y x = true := by
        have hone := htotal x y
        rwa [Bool.eq_false_iff.mpr hxy, Bool.false_or] at hone
      refine List.pairwise_cons.mpr ⟨fun z hz => ?_, ih hrest⟩
      rcases List.mem_cons.mp (perm_insertBy.mem_iff.mp hz) with rfl | hz
      · exact hyx
      · exact hy z hz

/-- Sorting orders the elements, where the order is total. -/
theorem pairwise_sortBy (htrans : ∀ x y z, le x y = true → le y z = true → le x z = true)
    (htotal : ∀ x y, (le x y || le y x) = true) : (sortBy le xs).Pairwise (le · ·) := by
  induction xs with
  | nil => exact .nil
  | cons x rest ih => exact pairwise_insertBy htrans htotal ih

/-- Sorting by a part of the elements sorts the parts. -/
theorem map_sortBy {β : Type} (f : β → α) (ys : List β) :
    (sortBy (fun a b => le (f a) (f b)) ys).map f = sortBy le (ys.map f) := by
  have hinsert : ∀ (b : β) (zs : List β),
      (insertBy (fun a b => le (f a) (f b)) b zs).map f = insertBy le (f b) (zs.map f) := by
    intro b zs
    induction zs with
    | nil => rfl
    | cons z rest ih =>
      rw [insertBy_cons, List.map_cons, insertBy_cons]
      split
      · rfl
      · rw [List.map_cons, ih]
  induction ys with
  | nil => rfl
  | cons b rest ih => exact (hinsert b _).trans (congrArg _ ih)

@[simp] theorem mem_sortBy : x ∈ sortBy le xs ↔ x ∈ xs := List.Perm.mem_iff perm_sortBy

end Regen
