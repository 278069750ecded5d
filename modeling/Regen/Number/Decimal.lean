import Regen.Number.Binary64

/-! # Decimal text of binary64 numbers

    Two ways to write a number.  The shortest form has the fewest digits that read back as the
    same number and, among those, the digits nearest to it.  The fixed form has a given number
    of places and rounds the exact value. -/

namespace Regen.Number

/-- The power of ten `p` with `10 ^ (p - 1) ≤ num / den < 10 ^ p`, for a positive quotient. -/
def decimalExponent (num den : Nat) : Int :=
  if den ≤ num then digitCount (num / den)
  else 1 - (digitCount ((den + num - 1) / num - 1) : Int)

/-- The interval of the reals that round to `m * 2 ^ e`, as numerators over one denominator;
    the number itself lies between them. -/
structure RoundingInterval where
  low : Nat
  value : Nat
  high : Nat
  den : Nat
  /-- Do the ends round to the number too? -/
  closed : Bool

/-- The rounding interval of a positive number.  Below a power of two the spacing is half. -/
def roundingInterval (m : Nat) (e : Int) : RoundingInterval :=
  let wide := m != Nat.pow 2 52 || e == -1074
  let (num, den) := Binary64.magnitude 1 (e - 2)
  { low := (if wide then 4 * m - 2 else 4 * m - 1) * num
    value := 4 * m * num
    high := (4 * m + 2) * num
    den := den
    closed := m % 2 == 0 }

/-- Does `num / den` lie in the interval? -/
def RoundingInterval.holds (i : RoundingInterval) (num den : Nat) : Bool :=
  let x := num * i.den
  if i.closed then i.low * den ≤ x && x ≤ i.high * den
  else i.low * den < x && x < i.high * den

/-- The digits on the grid of `count` digits that lie in the interval, nearest to the number:
    its lower or its upper neighbour.  `p` is the number's decimal exponent. -/
def gridDigits? (i : RoundingInterval) (p : Int) (count : Nat) : Option Nat :=
  let (unit, unitDen) := -- the grid's unit, 10 ^ (p - count)
    if 0 ≤ p - count then (Nat.pow 10 (p - count).toNat, 1)
    else (1, Nat.pow 10 (count - p).toNat)
  let below := (i.value * unitDen) / (i.den * unit)
  let holds (d : Nat) : Bool := i.holds (d * unit) unitDen
  match holds below, holds (below + 1) with
  | true, true => some (roundHalfEven (i.value * unitDen) (i.den * unit))
  | true, false => some below
  | false, true => some (below + 1)
  | false, false => none

/-- The fewest digits for a number, from `count` on; seventeen always suffice. -/
def shortestFrom (i : RoundingInterval) (p : Int) : Nat → Nat → Nat × Nat
  | 0, count => (0, count)
  | fuel + 1, count =>
    match gridDigits? i p count with
    | some d => (d, count)
    | none => shortestFrom i p fuel (count + 1)

/-- The shortest digits `d` and the exponent `p` of a positive number, read as `0.d * 10 ^ p`. -/
def shortestDigits (m : Nat) (e : Int) : List Char × Int :=
  let i := roundingInterval m e
  let p := decimalExponent i.value i.den
  let (d, count) := shortestFrom i p 17 1
  let digits := Nat.toDigits 10 d
  -- a carry out of the grid's first digit raises the exponent
  let p := p + ((digits.length : Int) - count)
  ((digits.reverse.dropWhile (· == '0')).reverse, p)

/-- An exponent with its sign and at least two digits. -/
def exponentText (x : Int) : List Char :=
  let digits := Nat.toDigits 10 x.natAbs
  (if x < 0 then '-' else '+') :: (if digits.length < 2 then '0' :: digits else digits)

/-- Digits with the point after the first `p`: positional from 0.0001 up to, but not including,
    ten to the sixteenth, and with a power of ten outside. -/
def placePoint (digits : List Char) (p : Int) : List Char :=
  if -4 < p && p ≤ 16 then
    if p ≤ 0 then '0' :: '.' :: List.replicate (-p).toNat '0' ++ digits
    else
      let k := p.toNat
      if digits.length ≤ k then
        digits ++ List.replicate (k - digits.length) '0' ++ ['.', '0']
      else digits.take k ++ '.' :: digits.drop k
  else
    let tail := match digits.drop 1 with
      | [] => []
      | more => '.' :: more
    digits.take 1 ++ tail ++ 'e' :: exponentText (p - 1)

/-- The shortest text of a number. -/
def Binary64.text : Binary64 → String
  | .nan _ => "nan"
  | .infinite s => if s then "-inf" else "inf"
  | .finite s 0 _ => if s then "-0.0" else "0.0"
  | .finite s m e =>
    let (digits, p) := shortestDigits m e
    String.ofList ((if s then ['-'] else []) ++ placePoint digits p)

/-- The text of a number with one decimal place; a tie goes to the even digit. -/
def Binary64.textOnePlace : Binary64 → String
  | .nan _ => "nan"
  | .infinite s => if s then "-inf" else "inf"
  | .finite s m e =>
    let (num, den) := Binary64.magnitude m e
    let tenths := roundHalfEven (num * 10) den
    (if s then "-" else "") ++ s!"{tenths / 10}.{tenths % 10}"

end Regen.Number
