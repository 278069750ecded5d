import Mathlib.Algebra.Order.Field.Power
import Mathlib.Algebra.Order.Field.Rat
import Mathlib.Tactic.Linarith
import Regen.Proofs.Value.Plain

/-! # Equality of keys

    A key is a scalar or a tuple of keys.  What equality compares of a key is its content: flags,
    integers and reals have their exact rational value, moments with offsets their instant.  Two
    keys are equal exactly if they have the same content, so equality of keys is symmetric and
    transitive.  A number that is none has no content unless it is the shared one, and such a key
    does not even equal itself. -/

namespace Regen

/-! ## Values of numbers -/

namespace Number.Binary64

/-- The exact value of a finite number. -/
def rational? (x : Binary64) : Option ℚ := x.ratio?.map fun r => r.1 / r.2

/-- A finite number without its sign. -/
def size (m : Nat) (e : Int) : ℚ := m * 2 ^ e

section size
variable {m n : Nat} {e f : Int}

theorem magnitude_den_pos (m : Nat) (e : Int) : 0 < (magnitude m e).2 := by
  unfold magnitude
  split
  · exact Nat.one_pos
  · exact Nat.two_pow_pos _

theorem magnitude_size (m : Nat) (e : Int) :
    ((magnitude m e).1 : ℚ) / (magnitude m e).2 = size m e := by
  unfold magnitude size
  split
  · next he =>
    obtain ⟨k, rfl⟩ := Int.eq_ofNat_of_zero_le he
    simp
  · next he =>
    obtain ⟨k, hk⟩ := Int.eq_ofNat_of_zero_le (show 0 ≤ -e by omega)
    obtain rfl : e = -k := by omega
    simp [div_eq_mul_inv]

theorem rational?_finite (s : Bool) (m : Nat) (e : Int) :
    (finite s m e).rational? = some (if s then -size m e else size m e) := by
  cases s <;> simp [rational?, ratio?, ← magnitude_size, neg_div]

/-- A number is equal to an integer if that is its value. -/
theorem equalsInt_finite {s : Bool} {n : Int} :
    (finite s m e).equalsInt n = true ↔ (finite s m e).rational? = some (n : ℚ) := by
  have hden : ((magnitude m e).2 : ℚ) ≠ 0 := Nat.cast_ne_zero.mpr (magnitude_den_pos m e).ne'
  simp only [equalsInt, rational?, ratio?, Option.map_some, Option.some.injEq, beq_iff_eq,
    div_eq_iff hden]
  norm_cast

theorem size_eq_zero : size m e = 0 ↔ m = 0 := by
  have hpow : (2 : ℚ) ^ e ≠ 0 := zpow_ne_zero e two_ne_zero
  simp [size, hpow]

theorem size_nonneg (m : Nat) (e : Int) : 0 ≤ size m e :=
  mul_nonneg (Nat.cast_nonneg m) (zpow_nonneg zero_le_two e)

theorem isCanonical_zero (s : Bool) (h : (finite s m e).isCanonical = true) (hm : m = 0) :
    e = 0 := by
  simp only [isCanonical, hm, Bool.or_eq_true, Bool.and_eq_true, beq_iff_eq,
    decide_eq_true_eq] at h
  omega

/-- Of two mantissas for one value the one with the lesser exponent is a multiple of the other. -/
theorem mantissa_of_size (h : size m e = size n f) (hef : e ≤ f) :
    m = n * 2 ^ (f - e).toNat := by
  obtain ⟨k, hk⟩ := Int.eq_ofNat_of_zero_le (show 0 ≤ f - e by omega)
  obtain rfl : f = e + k := by omega
  have hpow : (2 : ℚ) ^ e ≠ 0 := zpow_ne_zero e two_ne_zero
  rw [size, size, zpow_add₀ two_ne_zero, zpow_natCast, mul_left_comm, mul_comm] at h
  have := mul_left_cancel₀ hpow h
  rw [hk, Int.toNat_natCast]
  exact_mod_cast this

/-- The canonical form with the lesser exponent is the only one. -/
theorem exponent_of_size {s t : Bool} (hx : (finite s m e).isCanonical = true)
    (hy : (finite t n f).isCanonical = true) (hm : m ≠ 0) (h : size m e = size n f) :
    f ≤ e := by
  by_contra hlt
  have hmul := mantissa_of_size h (by omega)
  obtain ⟨k, hk⟩ : ∃ k, (f - e).toNat = k + 1 := ⟨(f - e).toNat - 1, by omega⟩
  rw [hk, Nat.pow_succ, ← Nat.mul_assoc] at hmul
  have hzero : n ≠ 0 := by
    rintro rfl
    exact hm (by simpa using hmul)
  have hn : n ≤ n * 2 ^ k := Nat.le_mul_of_pos_right n (Nat.two_pow_pos k)
  generalize n * 2 ^ k = half at hmul hn
  -- The greater exponent is not the least one, so its mantissa has all its bits.
  simp only [isCanonical, Bool.or_eq_true, Bool.and_eq_true, beq_iff_eq,
    decide_eq_true_eq] at hx hy
  omega

/-- **A canonical form is determined by its value.** -/
theorem eq_of_size {s t : Bool} (hx : (finite s m e).isCanonical = true)
    (hy : (finite t n f).isCanonical = true) (h : size m e = size n f) : m = n ∧ e = f := by
  by_cases hm : m = 0
  · have hn : n = 0 := size_eq_zero.mp (h ▸ size_eq_zero.mpr hm)
    exact ⟨by rw [hm, hn], by rw [isCanonical_zero s hx hm, isCanonical_zero t hy hn]⟩
  · have hn : n ≠ 0 := fun hn => hm (size_eq_zero.mp (h ▸ size_eq_zero.mpr hn))
    obtain rfl : e = f :=
      le_antisymm (exponent_of_size hy hx hn h.symm) (exponent_of_size hx hy hm h)
    exact ⟨by simpa using mantissa_of_size h le_rfl, rfl⟩

/-- Finite numbers in canonical form are equal if their values are. -/
theorem equals_finite {s t : Bool} (hx : (finite s m e).isCanonical = true)
    (hy : (finite t n f).isCanonical = true) :
    (finite s m e).equals (finite t n f) = true ↔
      (finite s m e).rational? = (finite t n f).rational? := by
  have hm := @size_eq_zero m e
  have hn := @size_eq_zero n f
  simp only [equals, rational?_finite, Option.some.injEq, Bool.or_eq_true, Bool.and_eq_true,
    beq_iff_eq]
  constructor
  · rintro (⟨rfl, rfl⟩ | ⟨⟨rfl, rfl⟩, rfl⟩)
    · simp [hm.mpr rfl, hn.mpr rfl]
    · rfl
  · intro h
    have hpos := size_nonneg m e
    have hpos' := size_nonneg n f
    by_cases hst : s = t
    · subst hst
      have hsize : size m e = size n f := by
        cases s
        · exact h
        · exact neg_injective h
      obtain ⟨rfl, rfl⟩ := eq_of_size hx hy hsize
      exact .inr ⟨⟨rfl, rfl⟩, rfl⟩
    · -- Numbers of different signs have the same value only if both are zero.
      have hzero : size m e = 0 ∧ size n f = 0 := by
        cases s <;> cases t <;> simp at hst h <;> constructor <;> linarith
      exact .inl ⟨hm.mp hzero.1, hn.mp hzero.2⟩

end size

end Number.Binary64

namespace Value

/-! ## Keys and their contents -/

mutual

/-- Is the value a key: a scalar with numbers in canonical form, or a tuple of keys? -/
def isKey : Value → Bool
  | null | bool _ | int _ | text _ | bytes _ | date .. | time .. => true
  | real x => x.isCanonical || !x.isNumber
  | tuple xs => areKeys xs
  | list .. | set .. | map .. => false

def areKeys : List Value → Bool
  | [] => true
  | x :: xs => isKey x && areKeys xs

end

/-- What equality compares of a key. -/
inductive Content where
  | null
  | number (q : ℚ)
  | infinite (negative : Bool)
  /-- The shared number that is none. -/
  | constant
  | text (s : String)
  | bytes (bs : List UInt8)
  | date (d : Time.Date)
  | time (hasOffset : Bool) (instant : Int)
  | tuple (cs : List Content)

/-- The content of a real. -/
def realContent? : Number.Binary64 → Option Content
  | .nan constant => if constant then some .constant else none
  | .infinite negative => some (.infinite negative)
  | .finite negative m e => (Number.Binary64.finite negative m e).rational?.map .number

mutual

/-- **The content of a key**, unless it equals nothing. -/
def content? : Value → Option Content
  | null => some .null
  | bool b => some (.number ((if b then 1 else 0 : Int)))
  | int n => some (.number n)
  | real x => realContent? x
  | text s => some (.text s)
  | bytes bs => some (.bytes bs)
  | date d _ => some (.date d)
  | time t _ => some (.time t.offset.isSome t.instant)
  | tuple xs => (contents? xs).map .tuple
  | list .. | set .. | map .. => none

def contents? : List Value → Option (List Content)
  | [] => some []
  | x :: xs => (content? x).bind fun c => (contents? xs).map (c :: ·)

end

/-- Have two values the same content? -/
def SameContent (v w : Value) : Prop := v.content?.isSome ∧ v.content? = w.content?

section scalars

open Number.Binary64

attribute [local simp] same sameScalar asInt? SameContent content? realContent? isKey

/-- Two reals are equal if they have the same content. -/
theorem same_real_iff {x y : Number.Binary64} (hx : (real x).isKey = true)
    (hy : (real y).isKey = true) :
    (real x).same (real y) = true ↔ SameContent (real x) (real y) := by
  match x, y with
  | .finite s m e, .finite t n f =>
    simp only [isKey, isNumber, Bool.not_true, Bool.or_false] at hx hy
    have hequals := equals_finite hx hy
    simp only [rational?_finite] at hequals
    simp [hequals, rational?_finite]
  | .nan a, .nan b => cases a <;> cases b <;> simp
  | .infinite s, .infinite t => simp [equals]
  | .nan a, .infinite _ | .infinite _, .nan a | .nan a, .finite .. | .finite .., .nan a =>
    cases a <;> simp [equals, rational?_finite]
  | .infinite _, .finite .. | .finite .., .infinite _ => simp [equals, rational?_finite]

/-- A real is equal to an integer if that is its content. -/
theorem equalsInt_iff {x : Number.Binary64} {n : Int} :
    x.equalsInt n = true ↔ realContent? x = some (.number n) := by
  match x with
  | .finite s m e => simp [equalsInt_finite, rational?_finite]
  | .nan a => cases a <;> simp [equalsInt, ratio?]
  | .infinite _ => simp [equalsInt, ratio?]

theorem content?_of_asInt? {v : Value} {n : Int} (h : v.asInt? = some n) :
    v.content? = some (.number n) := by
  cases v <;> cases h <;> rw [content?]

/-- Flags and integers are equal if they have the same content. -/
theorem same_int_iff {v w : Value} {m n : Int} (hv : v.asInt? = some m) (hw : w.asInt? = some n) :
    v.same w = true ↔ SameContent v w := by
  have hsame : v.same w = (m == n) := by
    cases v <;> cases hv <;> cases w <;> cases hw <;> simp only [same, sameScalar, asInt?]
  rw [hsame, SameContent, content?_of_asInt? hv, content?_of_asInt? hw]
  simp

/-- A real and a flag or an integer are equal if they have the same content. -/
theorem same_real_int_iff {x : Number.Binary64} {v : Value} {n : Int} (hv : v.asInt? = some n) :
    ((real x).same v = true ↔ SameContent (real x) v) ∧
      (v.same (real x) = true ↔ SameContent v (real x)) := by
  have hsame : (real x).same v = x.equalsInt n ∧ v.same (real x) = x.equalsInt n := by
    cases v <;> cases hv <;> constructor <;> simp only [same, sameScalar, asInt?]
  rw [hsame.1, hsame.2, equalsInt_iff, SameContent, SameContent, content?_of_asInt? hv]
  constructor
  · constructor
    · intro h
      exact ⟨Option.isSome_of_eq_some h, h⟩
    · exact fun h => h.2
  · exact ⟨fun h => ⟨rfl, h.symm⟩, fun h => h.2.symm⟩

/-- A real is equal to nothing that is neither a number nor a flag. -/
theorem same_real_other_iff {x : Number.Binary64} {v : Value} (hkey : v.isKey = true)
    (hint : v.asInt? = none) (hreal : ∀ y, v ≠ real y) :
    ((real x).same v = true ↔ SameContent (real x) v) ∧
      (v.same (real x) = true ↔ SameContent v (real x)) := by
  have hsame : (real x).same v = false ∧ v.same (real x) = false := by
    cases v <;> simp at hint hkey hreal ⊢
  have hcontent : ∀ c, v.content? = some c → realContent? x ≠ some c := by
    rcases x with a | s | ⟨s, m, e⟩ <;> cases v <;> simp at hint hkey hreal ⊢
  simp only [hsame, SameContent, content?, Bool.false_eq_true, false_iff, not_and,
    Option.isSome_iff_exists]
  constructor
  · rintro ⟨c, hc⟩ heq
    exact hcontent c (heq ▸ hc) hc
  · rintro ⟨c, hc⟩ heq
    exact hcontent c hc (heq ▸ hc)

/-- Keys are equal if they have the same content, unless there are two tuples, two numbers, or a
    number that is a real. -/
theorem same_other_iff {v w : Value} (hv : v.isKey = true) (hw : w.isKey = true)
    (hreal : ∀ x, v ≠ real x) (hreal' : ∀ x, w ≠ real x)
    (hint : v.asInt? = none ∨ w.asInt? = none)
    (htuple : ∀ xs ys, v = tuple xs → w ≠ tuple ys) : v.same w = true ↔ SameContent v w := by
  cases v <;> simp at hv hreal <;> cases w <;>
    simp [Time.Moment.equals] at hw hreal' hint htuple ⊢

/-- Keys are equal if they have the same content, unless both are tuples. -/
theorem same_iff_of_not_tuples {v w : Value} (hv : v.isKey = true) (hw : w.isKey = true)
    (htuple : ∀ xs ys, v = tuple xs → w ≠ tuple ys) : v.same w = true ↔ SameContent v w := by
  by_cases hx : ∃ x, v = real x
  · obtain ⟨x, rfl⟩ := hx
    by_cases hy : ∃ y, w = real y
    · obtain ⟨y, rfl⟩ := hy
      exact same_real_iff hv hw
    · cases hint : w.asInt? with
      | some n => exact (same_real_int_iff hint).1
      | none => exact (same_real_other_iff hw hint fun y h => hy ⟨y, h⟩).1
  · by_cases hy : ∃ y, w = real y
    · obtain ⟨y, rfl⟩ := hy
      cases hint : v.asInt? with
      | some n => exact (same_real_int_iff hint).2
      | none => exact (same_real_other_iff hv hint fun x h => hx ⟨x, h⟩).2
    · have hreal : ∀ x, v ≠ real x := fun x h => hx ⟨x, h⟩
      have hreal' : ∀ y, w ≠ real y := fun y h => hy ⟨y, h⟩
      cases hm : v.asInt? with
      | none => exact same_other_iff hv hw hreal hreal' (.inl hm) htuple
      | some m =>
        cases hn : w.asInt? with
        | none => exact same_other_iff hv hw hreal hreal' (.inr hn) htuple
        | some n => exact same_int_iff hm hn

end scalars

/-! ## Equality of keys -/

mutual

/-- **Keys are equal exactly if they have the same content.** -/
theorem same_iff (v w : Value) (hv : v.isKey = true) (hw : w.isKey = true) :
    v.same w = true ↔ SameContent v w := by
  by_cases htuples : ∃ xs ys, v = tuple xs ∧ w = tuple ys
  · obtain ⟨xs, ys, rfl, rfl⟩ := htuples
    have hinjective : Function.Injective Content.tuple := fun _ _ h => by injection h
    rw [same, sameLists_iff xs ys hv hw, SameContent, content?, content?, Option.isSome_map,
      (Option.map_injective hinjective).eq_iff]
  · exact same_iff_of_not_tuples hv hw fun xs ys hxs hys => htuples ⟨xs, ys, hxs, hys⟩
termination_by sizeOf v

theorem sameLists_iff (xs ys : List Value) (hxs : areKeys xs = true) (hys : areKeys ys = true) :
    sameLists xs ys = true ↔ (contents? xs).isSome ∧ contents? xs = contents? ys := by
  match xs, ys with
  | [], [] => simp [sameLists, contents?]
  | [], y :: ys => cases hy : content? y <;> simp [sameLists, contents?, hy]
  | x :: xs, [] => cases hx : content? x <;> simp [sameLists, contents?, hx]
  | x :: xs, y :: ys =>
    rw [areKeys, Bool.and_eq_true] at hxs hys
    rw [sameLists, Bool.and_eq_true, same_iff x y hxs.1 hys.1, sameLists_iff xs ys hxs.2 hys.2]
    -- A tuple with a key that equals nothing has no content.
    cases hx : content? x <;> cases hy : content? y <;>
      cases hxs : contents? xs <;> cases hys : contents? ys <;>
      simp [contents?, SameContent, hx, hy, hxs, hys]
termination_by sizeOf xs

end

section keys
variable {k l q : Value}

theorem same_comm (hk : k.isKey = true) (hl : l.isKey = true) : k.same l = l.same k := by
  rw [Bool.eq_iff_iff, same_iff k l hk hl, same_iff l k hl hk]
  constructor
  · intro h
    exact ⟨h.2 ▸ h.1, h.2.symm⟩
  · intro h
    exact ⟨h.2 ▸ h.1, h.2.symm⟩

/-- Equal keys are equal to the same keys. -/
theorem same_congr (hq : q.isKey = true) (hk : k.isKey = true) (hl : l.isKey = true)
    (h : k.same l = true) : q.same k = q.same l := by
  have hkl : k.content? = l.content? := ((same_iff k l hk hl).mp h).2
  rw [Bool.eq_iff_iff, same_iff q k hq hk, same_iff q l hq hl, SameContent, SameContent, hkl]

/-- A key that equals another one equals itself. -/
theorem same_self_of_same (hk : k.isKey = true) (hl : l.isKey = true) (h : k.same l = true) :
    k.same k = true :=
  (same_iff k k hk hk).mpr ⟨((same_iff k l hk hl).mp h).1, rfl⟩

end keys

end Value

end Regen
