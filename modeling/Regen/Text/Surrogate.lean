/-! # Halves of surrogate pairs

    The code points from U+D800 to U+DFFF are halves of pairs and no characters.  A document can
    name one by an escape all the same, and a text keeps it as a stand-in: a private character at
    a fixed distance.  Whatever shows, orders or writes text by code point goes by the half that a
    stand-in stands for. -/

namespace Regen.Text

/-- The first half of a pair. -/
def firstHalf : Nat := 0xD800

/-- How many halves there are. -/
def halfCount : Nat := 0x800

/-- The stand-in for the first half. -/
def firstStandIn : Nat := 0x10F000

/-- Is the number a half of a pair? -/
def isHalf (n : Nat) : Bool := firstHalf ≤ n && n < firstHalf + halfCount

/-- Does the character stand for a half of a pair? -/
def isStandIn (c : Char) : Bool := firstStandIn ≤ c.toNat && c.toNat < firstStandIn + halfCount

/-- The character for a code point, a stand-in for a half of a pair. -/
def ofCode (n : Nat) : Char :=
  Char.ofNat (if isHalf n then n - firstHalf + firstStandIn else n)

/-- The code point that a character stands for. -/
def codeOf (c : Char) : Nat :=
  if isStandIn c then c.toNat - firstStandIn + firstHalf else c.toNat

/-- A half of a pair comes back from its stand-in. -/
theorem codeOf_ofCode_of_isHalf {n : Nat} (h : isHalf n = true) : codeOf (ofCode n) = n := by
  have hb : 0xD800 ≤ n ∧ n < 0xE000 := by
    unfold isHalf firstHalf halfCount at h
    rw [Bool.and_eq_true, decide_eq_true_iff, decide_eq_true_iff] at h
    omega
  have hv : (n - 0xD800 + 0x10F000).isValidChar := by right; omega
  have ht : (Char.ofNat (n - 0xD800 + 0x10F000)).toNat = n - 0xD800 + 0x10F000 := by
    unfold Char.ofNat
    rw [dif_pos hv]
    rfl
  have hs : isStandIn (Char.ofNat (n - 0xD800 + 0x10F000)) = true := by
    unfold isStandIn firstStandIn halfCount
    rw [ht, Bool.and_eq_true, decide_eq_true_iff, decide_eq_true_iff]
    omega
  have ho : ofCode n = Char.ofNat (n - 0xD800 + 0x10F000) := by
    unfold ofCode firstHalf firstStandIn
    rw [if_pos h]
  rw [ho, codeOf, if_pos hs, ht]
  unfold firstHalf firstStandIn
  omega

end Regen.Text
