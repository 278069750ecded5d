/-! # White space

    The characters that trimming removes: the ASCII blanks and controls that separate text, and
    the space and line separators of other scripts. -/

namespace Regen.Text

/-- Is the character white space? -/
def isBlank (c : Char) : Bool :=
  let n := c.toNat
  (0x09 ≤ n && n ≤ 0x0D) || (0x1C ≤ n && n ≤ 0x20) || n == 0x85 || n == 0xA0 || n == 0x1680 ||
    (0x2000 ≤ n && n ≤ 0x200A) || n == 0x2028 || n == 0x2029 || n == 0x202F || n == 0x205F ||
    n == 0x3000

/-- Is the character one of the six ASCII blanks: tab, line feed, vertical tab, form feed,
    carriage return or space? -/
def isAsciiBlank (c : Char) : Bool :=
  c == ' ' || (0x09 ≤ c.toNat && c.toNat ≤ 0x0D)

/-- Remove from both ends the characters that satisfy `p`. -/
def trimBoth (p : Char → Bool) (cs : List Char) : List Char :=
  ((cs.dropWhile p).reverse.dropWhile p).reverse

/-- Remove white space from both ends. -/
def trim (s : String) : String :=
  String.ofList (trimBoth isBlank s.toList)

theorem isBlank_of_isAsciiBlank {c : Char} (h : isAsciiBlank c) : isBlank c := by
  simp only [isAsciiBlank, isBlank, Bool.or_eq_true, Bool.and_eq_true, decide_eq_true_eq,
    beq_iff_eq] at h ⊢
  rcases h with rfl | h
  · simp
  · simp [h]

/-- Trimming leaves no removable character in front. -/
theorem trimBoth_nil (p : Char → Bool) : trimBoth p [] = [] := rfl

end Regen.Text
