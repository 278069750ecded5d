import Mathlib.Data.List.Basic

/-! # A line feed at the end

    A rule that looks at a text without the line feed at its end accepts the texts that keep the
    rule, and each of them with one line feed behind it. -/

namespace Regen

/-- A text keeps a rule up to one line feed at its end. -/
def OverlooksNewline (rule : String → Prop) (s : String) : Prop :=
  rule s ∨ ∃ bare, rule bare ∧ s = bare ++ "\n"

section newline
variable {rule : String → Prop} {check : List Char → Bool}

/-- **A check behind which one line feed is dropped** overlooks it, where no text by the rule holds
    a line feed. -/
theorem check_drop_newline_iff (hcheck : ∀ cs, check cs ↔ rule (String.ofList cs))
    (hplain : ∀ s, rule s → '\n' ∉ s.toList) (s : String) :
    check (if s.toList.getLast? == some '\n' then s.toList.dropLast else s.toList) ↔
      OverlooksNewline rule s := by
  rw [hcheck]
  by_cases hlast : s.toList.getLast? = some '\n'
  · rw [if_pos (by simp [hlast])]
    constructor
    · intro h
      refine .inr ⟨_, h, String.toList_inj.mp ?_⟩
      simpa using (List.dropLast_append_getLast? _ hlast).symm
    · intro h
      cases h with
      | inl hrule => exact absurd (List.mem_of_getLast? hlast) (hplain s hrule)
      | inr hbehind =>
        obtain ⟨bare, hbare, heq⟩ := hbehind
        subst heq
        simpa using hbare
  · rw [if_neg (by simpa using hlast), String.ofList_toList]
    constructor
    · exact .inl
    · intro h
      cases h with
      | inl hrule => exact hrule
      | inr hbehind =>
        obtain ⟨bare, -, heq⟩ := hbehind
        subst heq
        exact absurd (by simp) hlast

/-- Where a text ends otherwise, nothing is overlooked. -/
theorem overlooksNewline_iff {s : String} (h : s.toList.getLast? ≠ some '\n') :
    OverlooksNewline rule s ↔ rule s := by
  constructor
  · intro hrule
    cases hrule with
    | inl hstrict => exact hstrict
    | inr hbehind =>
      obtain ⟨bare, -, heq⟩ := hbehind
      exact absurd (by simp [heq]) h
  · exact .inl

end newline

end Regen
