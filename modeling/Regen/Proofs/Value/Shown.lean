import Regen.Value.Shown

/-! # Texts of values

    Only the empty text is shown as nothing.  Whatever else a value is, its text has a character:
    a digit, a word or a bracket. -/

namespace Regen

open Number Time

theorem Text.ne_empty_of_toList {s : String} (h : s.toList ≠ []) : s ≠ "" := by
  intro hs
  exact h (by rw [hs]; rfl)

theorem Number.int_text_ne_empty (n : Int) : toString n ≠ "" := by
  match n with
  | .ofNat m => exact Nat.repr_ne_empty
  | .negSucc m => 
    show "-" ++ Nat.repr (m + 1) ≠ ""
    simp

theorem Number.placePoint_ne_nil (digits : List Char) (p : Int) : placePoint digits p ≠ [] := by
  unfold placePoint
  split
  · split
    · simp
    · dsimp only
      split <;> simp
  · simp

theorem Number.Binary64.text_ne_empty (x : Binary64) : x.text ≠ "" := by
  match x with
  | .nan _ => simp [text]
  | .infinite s => cases s <;> simp [text]
  | .finite s 0 _ => cases s <;> simp [text]
  | .finite s (m + 1) e =>
    apply Text.ne_empty_of_toList
    simp [text, placePoint_ne_nil]

theorem Time.Date.text_ne_empty (d : Date) : d.text ≠ "" := by
  apply Text.ne_empty_of_toList
  simp [Date.text, toString]

theorem Time.Moment.text_ne_empty (separator : String) (t : Moment) : t.text separator ≠ "" := by
  apply Text.ne_empty_of_toList
  simp [Moment.text, Date.text_ne_empty]

namespace Value

/-- **Only the empty text is shown as nothing.** -/
theorem display_eq_empty_iff {v : Value} : v.display = "" ↔ v = text "" := by
  constructor
  · intro h
    cases v with
    | text s => rw [← h]; rfl
    | null => exact absurd h (by decide)
    | bool b => cases b <;> exact absurd h (by decide)
    | int n => exact absurd h (Number.int_text_ne_empty n)
    | real x => exact absurd h x.text_ne_empty
    | bytes bs =>
      refine absurd h (Text.ne_empty_of_toList ?_)
      simp [display, shown, Text.quotedBytes]
    | date d _ => exact absurd h d.text_ne_empty
    | time t _ => exact absurd h (t.text_ne_empty " ")
    | list xs _ => exact absurd h (by simp [display, shown])
    | tuple xs => rcases xs with _ | ⟨x, _ | ⟨y, xs⟩⟩ <;> simp [display, shown] at h
    | set xs _ => cases xs <;> simp [display, shown] at h
    | map es _ => exact absurd h (by simp [display, shown])
  · rintro rfl
    rfl

end Value

end Regen
