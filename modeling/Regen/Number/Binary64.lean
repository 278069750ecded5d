import Regen.Fault
import Regen.Number.Round

/-! # Binary64 numbers

    The numbers of the binary64 format with exact, correctly rounded arithmetic on natural
    numbers.  A finite number is a sign, a mantissa and a power of two in canonical form: zero
    has mantissa and exponent zero; other numbers have a mantissa below 2^53, and at least 2^52
    unless the exponent is the least one, -1074. -/

namespace Regen.Number

/-- A number of the binary64 format. -/
inductive Binary64 where
  /-- No number.  `constant` marks the one that documents share: it is the same object wherever
      it was read, while every other one is the same as nothing. -/
  | nan (constant : Bool)
  | infinite (negative : Bool)
  /-- `mantissa * 2 ^ exponent`, negated if `negative`. -/
  | finite (negative : Bool) (mantissa : Nat) (exponent : Int)
  deriving DecidableEq, Repr

namespace Binary64

def zero : Binary64 := finite false 0 0

instance : Inhabited Binary64 := ⟨zero⟩

/-- A quotient `num / den` times `2 ^ -e`, as a quotient. -/
def scaleRatio (num den : Nat) (e : Int) : Nat × Nat :=
  if 0 ≤ e then (num, den * Nat.pow 2 e.toNat) else (num * Nat.pow 2 (-e).toNat, den)

/-- The greatest `k` with `2 ^ k ≤ num / den`, for a positive quotient. -/
def binaryExponent (num den : Nat) : Int :=
  let k : Int := (num.log2 : Int) - den.log2
  let (a, b) := scaleRatio num den k
  if b ≤ a then k else k - 1

/-- The number nearest to `num / den`, negated if asked; a tie goes to the even mantissa and
    what is too large becomes infinite. -/
def ofRatio (negative : Bool) (num den : Nat) : Binary64 :=
  if num = 0 then finite negative 0 0
  else
    let e := max (binaryExponent num den - 52) (-1074)
    let (a, b) := scaleRatio num den e
    let m := roundHalfEven a b
    let (m, e) := if m = Nat.pow 2 53 then (Nat.pow 2 52, e + 1) else (m, e)
    if m = 0 then finite negative 0 0
    else if 971 < e then infinite negative
    else finite negative m e

/-- The number nearest to a decimal `digits * 10 ^ exponent`.  Far outside the format's range
    the power is not computed. -/
def ofDecimal (negative : Bool) (digits : Nat) (exponent : Int) : Binary64 :=
  let places := (digitCount digits : Int) + exponent
  if digits = 0 then finite negative 0 0
  else if 400 < places then infinite negative
  else if places < -400 then finite negative 0 0
  else if 0 ≤ exponent then ofRatio negative (digits * Nat.pow 10 exponent.toNat) 1
  else ofRatio negative digits (Nat.pow 10 (-exponent).toNat)

/-- The quotient of two integers, the divisor positive. -/
def ofIntRatio? (num : Int) (den : Nat) : Except Fault Binary64 :=
  match ofRatio (num < 0) num.natAbs den with
  | infinite _ => .error .quotientTooLarge
  | x => .ok x

/-- The number nearest to an integer. -/
def ofInt? (n : Int) : Except Fault Binary64 :=
  match ofRatio (n < 0) n.natAbs 1 with
  | infinite _ => .error .intTooLarge
  | x => .ok x

/-- The magnitude of a finite number as a quotient. -/
def magnitude (m : Nat) (e : Int) : Nat × Nat :=
  if 0 ≤ e then (m * Nat.pow 2 e.toNat, 1) else (m, Nat.pow 2 (-e).toNat)

/-- The exact value of a finite number as a quotient. -/
def ratio? : Binary64 → Option (Int × Nat)
  | finite negative m e =>
    let (num, den) := magnitude m e
    some (if negative then -(num : Int) else num, den)
  | _ => none

def neg : Binary64 → Binary64
  | nan _ => nan false
  | infinite s => infinite !s
  | finite s m e => finite (!s) m e

instance : Neg Binary64 := ⟨neg⟩

def add : Binary64 → Binary64 → Binary64
  | nan _, _ | _, nan _ => nan false
  | infinite s, infinite t => if s = t then infinite s else nan false
  | infinite s, _ | _, infinite s => infinite s
  | finite s m e, finite t n f =>
    let (a, b) := magnitude m e
    let (c, d) := magnitude n f
    let x : Int := if s then -(a * d : Nat) else (a * d : Nat)
    let y : Int := if t then -(c * b : Nat) else (c * b : Nat)
    if x + y = 0 then finite (s && t) 0 0
    else ofRatio (x + y < 0) (x + y).natAbs (b * d)

instance : Add Binary64 := ⟨add⟩
instance : Sub Binary64 := ⟨fun x y => x + -y⟩

def mul : Binary64 → Binary64 → Binary64
  | nan _, _ | _, nan _ => nan false
  | infinite s, infinite t => infinite (s != t)
  | infinite s, finite t n _ | finite t n _, infinite s =>
    if n = 0 then nan false else infinite (s != t)
  | finite s m e, finite t n f =>
    let (a, b) := magnitude m e
    let (c, d) := magnitude n f
    ofRatio (s != t) (a * c) (b * d)

instance : Mul Binary64 := ⟨mul⟩

/-- The quotient by a positive natural number. -/
def divNat (x : Binary64) (den : Nat) : Binary64 :=
  match x with
  | nan _ => nan false
  | infinite s => infinite s
  | finite s m e =>
    let (a, b) := magnitude m e
    ofRatio s a (b * den)

/-- Equality of numbers: both zeros are equal, and what is no number equals nothing. -/
def equals : Binary64 → Binary64 → Bool
  | infinite s, infinite t => s == t
  | finite s m e, finite t n f => (m == 0 && n == 0) || (s == t && m == n && e == f)
  | _, _ => false

/-- Is the number the integer? -/
def equalsInt (x : Binary64) (n : Int) : Bool :=
  match x.ratio? with
  | some (num, den) => num == n * den
  | none => false

/-- Strict order; what is no number is comparable with nothing. -/
def less : Binary64 → Binary64 → Bool
  | nan _, _ | _, nan _ => false
  | infinite s, infinite t => s && !t
  | infinite s, finite .. => s
  | finite .., infinite t => !t
  | x, y =>
    match x.ratio?, y.ratio? with
    | some (a, b), some (c, d) => a * d < c * b
    | _, _ => false

def isZero : Binary64 → Bool
  | finite _ 0 _ => true
  | _ => false

def isNegative : Binary64 → Bool
  | infinite s | finite s .. => s
  | nan _ => false

/-- The integer part, towards zero. -/
def truncate : Binary64 → Except Fault Int
  | nan _ => .error .nanToInt
  | infinite _ => .error .infinityToInt
  | finite s m e =>
    let (num, den) := magnitude m e
    let n : Int := (num / den : Nat)
    .ok (if s then -n else n)

end Binary64

end Regen.Number
