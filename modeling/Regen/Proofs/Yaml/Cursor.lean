import Mathlib.Data.List.TakeWhile
import Regen.Yaml.Cursor

/-! # Moving a cursor

    Where a cursor stands after it has moved past a text: what is left to read, and in which line
    and column.  Byte order marks take no column, so the columns are those of texts without any. -/

namespace Regen.Yaml

/-- The column behind a text that starts in a column. -/
def columnBehind (column : Nat) : List Char → Nat
  | [] => column
  | c :: cs => columnBehind (if isBreak c then 0 else column + 1) cs

theorem columnBehind_append (column : Nat) (cs ds : List Char) :
    columnBehind column (cs ++ ds) = columnBehind (columnBehind column cs) ds := by
  induction cs generalizing column with
  | nil => rfl
  | cons c cs ih => exact ih _

theorem columnBehind_of_no_break {cs : List Char} (h : ∀ c ∈ cs, isBreak c = false)
    (column : Nat) : columnBehind column cs = column + cs.length := by
  induction cs generalizing column with
  | nil => rfl
  | cons c cs ih =>
    have hrest := ih (fun d hd => h d (List.mem_cons_of_mem _ hd)) (column + 1)
    rw [columnBehind, h c List.mem_cons_self]
    simp only [Bool.false_eq_true, if_false, hrest, List.length_cons]
    omega

namespace Cursor

variable {c : Cursor} {t r : List Char}

theorem skip_add (m n : Nat) (c : Cursor) : c.skip (m + n) = (c.skip m).skip n := by
  induction m generalizing c with
  | zero => rw [Nat.zero_add]; rfl
  | succ m ih => rw [Nat.add_right_comm]; exact ih c.next

theorem skip_append (t u : List Char) (c : Cursor) :
    c.skip (t ++ u).length = (c.skip t.length).skip u.length := by
  rw [List.length_append, skip_add]

theorem rest_skip_of (h : c.rest = t ++ r) : (c.skip t.length).rest = r := by
  rw [rest_skip, h, List.drop_left]

theorem remaining_skip_of (h : c.rest = t ++ r) :
    c.remaining = t.length + (c.skip t.length).remaining := by
  rw [remaining_eq, remaining_eq, rest_skip_of h, h, List.length_append]

section next
variable {ch : Char} {rest : List Char}

theorem rest_next_of (h : c.rest = ch :: rest) : c.next.rest = rest := by
  rw [rest_next, h, List.drop_one, List.tail_cons]

theorem next_fields (h : c.rest = ch :: rest) :
    c.next.index = c.index + 1 ∧
      (ch ≠ '\uFEFF' → c.next.column = if isBreak ch then 0 else c.column + 1) ∧
      c.next.line = if isBreak ch then c.line + 1 else c.line := by
  unfold next
  split
  · next hnil =>
    rw [h] at hnil
    cases hnil
  · next x xs hx =>
    obtain ⟨rfl, rfl⟩ := List.cons.inj (h.symm.trans hx)
    split
    · simp
    · next hbreak =>
      split
      · next hmark => simp_all
      · simp

end next

theorem index_skip_of (h : c.rest = t ++ r) : (c.skip t.length).index = c.index + t.length := by
  induction t generalizing c with
  | nil => rfl
  | cons ch t ih =>
    have hnext := rest_next_of (h : c.rest = ch :: (t ++ r))
    have hindex := (next_fields (h : c.rest = ch :: (t ++ r))).1
    show (c.next.skip t.length).index = _
    rw [ih hnext, hindex, List.length_cons]
    omega

theorem column_skip_of (h : c.rest = t ++ r) (hmarks : '\uFEFF' ∉ t) :
    (c.skip t.length).column = columnBehind c.column t := by
  induction t generalizing c with
  | nil => rfl
  | cons ch t ih =>
    rw [List.mem_cons, not_or] at hmarks
    have hnext := rest_next_of (h : c.rest = ch :: (t ++ r))
    have hcolumn := (next_fields (h : c.rest = ch :: (t ++ r))).2.1 (Ne.symm hmarks.1)
    show (c.next.skip t.length).column = _
    rw [ih hnext hmarks.2, hcolumn, columnBehind]

/-- Lines are counted by their ends. -/
theorem line_skip_of (h : c.rest = t ++ r) :
    (c.skip t.length).line = c.line + t.countP isBreak := by
  induction t generalizing c with
  | nil => rfl
  | cons ch t ih =>
    have hnext := rest_next_of (h : c.rest = ch :: (t ++ r))
    have hline := (next_fields (h : c.rest = ch :: (t ++ r))).2.2
    show (c.next.skip t.length).line = _
    rw [ih hnext, hline, List.countP_cons]
    split
    · omega
    · omega

theorem line_le_next (c : Cursor) : c.line ≤ c.next.line := by
  unfold next
  split
  · exact Nat.le_refl _
  · split
    · exact Nat.le_succ _
    · split <;> exact Nat.le_refl _

theorem line_le_skip (m : Nat) (c : Cursor) : c.line ≤ (c.skip m).line := by
  induction m generalizing c with
  | zero => exact Nat.le_refl _
  | succ m ih => exact (line_le_next c).trans (ih c.next)

/-- The characters in front are all those that satisfy `p`. -/
theorem span_of {p : Char → Bool} (h : c.rest = t ++ r) (ht : ∀ x ∈ t, p x = true)
    (hr : ∀ x ∈ r.head?, p x = false) : c.span p = (t, c.skip t.length) := by
  have htake : c.rest.takeWhile p = t := by
    rw [h, List.takeWhile_append_of_pos ht]
    match r with
    | [] => simp
    | x :: r => simp [hr x rfl]
  simp only [span, htake]

theorem lineBreak?_of_break {ch : Char} (h : c.rest = ch :: r) (hbreak : isBreak ch = true) :
    c.lineBreak? = some (if ch == '\u0085' then '\n' else ch, c.next) := by
  simp [lineBreak?, h, hbreak]

theorem lineBreak?_eq_none (h : ∀ x ∈ c.rest.head?, isBreak x = false) : c.lineBreak? = none := by
  unfold lineBreak?
  split
  · next ch _ hrest => simp [h ch (by simp [hrest])]
  · rfl

end Cursor

end Regen.Yaml
