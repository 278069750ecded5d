import Regen.Fault

/-! # Long integers

    An integer of any length can be reckoned with, but only one of at most 4300 decimal digits is
    read from decimal text or shown. -/

namespace Regen.Number

/-- The greatest number of decimal digits that is converted. -/
def maxDigits : Nat := 4300

/-- Does an integer have too many digits to be shown? -/
def isLong (n : Int) : Bool := Nat.pow 10 maxDigits ≤ n.natAbs

/-- An integer in decimal digits. -/
def intText (n : Int) : Except Fault String :=
  if isLong n then .error .intTooLong else .ok (toString n)

end Regen.Number
