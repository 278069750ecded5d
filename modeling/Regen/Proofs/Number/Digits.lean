import Regen.Number.Read

/-! # Decimal digits

    The decimal text of an integer is read back as the integer, unless it is too long. -/

namespace Regen.Number

section digits
variable {ds : List Char}

theorem digitRun_eq (ds : List Char) : digitRun ds = Nat.ofDigitChars 10 ds 0 := by
  rw [digitRun, Nat.ofDigitChars]
  congr
  funext n c
  rw [Nat.mul_comm]
  rfl

theorem digitRun_toDigits (n : Nat) : digitRun (Nat.toDigits 10 n) = n := by
  rw [digitRun_eq, Nat.ofDigitChars_ten_toDigits]

theorem isDigit_toDigits (n : Nat) : ∀ c ∈ Nat.toDigits 10 n, c.isDigit = true :=
  fun _ hc => Nat.isDigit_of_mem_toDigits (by decide) (by decide) hc

/-- Only zero has a zero in front. -/
theorem head?_toDigits {n : Nat} (h : n ≠ 0) : (Nat.toDigits 10 n).head? ≠ some '0' := by
  induction n using Nat.strongRecOn with
  | ind n ih =>
    by_cases hless : n < 10
    · rw [Nat.toDigits_of_lt_base hless]
      simpa using h
    · obtain ⟨c, cs, hcs⟩ := List.exists_cons_of_ne_nil (Nat.toDigits_ne_nil (n := n / 10) (b := 10))
      have hfront := ih (n / 10) (by omega) (by omega)
      rw [hcs] at hfront
      rw [Nat.toDigits_of_base_le (by decide) (by omega), hcs]
      exact hfront

theorem toNat_of_isDigit {c : Char} (h : c.isDigit = true) : 48 ≤ c.toNat ∧ c.toNat ≤ 57 := by
  rw [Char.isDigit, Bool.and_eq_true, decide_eq_true_iff, decide_eq_true_iff] at h
  exact ⟨h.1, h.2⟩

theorem ne_of_isDigit {c d : Char} (h : c.isDigit = true) (hd : d.isDigit = false) : c ≠ d := by
  rintro rfl
  rw [h] at hd
  cases hd

/-- What is true of the ten digits is true of every digit. -/
theorem forall_isDigit {P : Char → Prop} (h : ∀ n : Fin 10, P (Char.ofNat (48 + n))) :
    ∀ c : Char, c.isDigit = true → P c := by
  intro c hc
  obtain ⟨hlow, hhigh⟩ := toNat_of_isDigit hc
  have := h ⟨c.toNat - 48, by omega⟩
  rwa [Nat.add_sub_of_le hlow, Char.ofNat_toNat] at this

/-! ## Reading -/

/-- A text of ASCII characters is no other one in ASCII. -/
theorem toAsciiNumeral_of_ascii {cs : List Char} (h : ∀ c ∈ cs, c.toNat < 0x80) :
    toAsciiNumeral cs = cs := by
  exact (List.map_congr_left fun c hc => if_pos (h c hc)).trans (List.map_id' cs)

/-- A text without blanks at its ends is not trimmed. -/
theorem trimBoth_of_all {p : Char → Bool} {cs : List Char} (h : ∀ c ∈ cs, p c = false) :
    Text.trimBoth p cs = cs := by
  have hkeep : ∀ {cs : List Char}, (∀ c ∈ cs, p c = false) → cs.dropWhile p = cs := by
    intro cs h
    cases cs with
    | nil => rfl
    | cons c cs => rw [List.dropWhile_cons_of_neg (by simp [h c List.mem_cons_self])]
  rw [Text.trimBoth, hkeep h, hkeep fun c hc => h c (List.mem_reverse.mp hc), List.reverse_reverse]

theorem digitsValue?_digits (h : ∀ c ∈ ds, c.isDigit = true) (acc : Nat) (afterDigit : Bool)
    (hend : ds ≠ [] ∨ afterDigit = true) :
    digitsValue? 10 acc afterDigit ds = some (Nat.ofDigitChars 10 ds acc) := by
  induction ds generalizing acc afterDigit with
  | nil =>
    rw [digitsValue?, if_pos (hend.resolve_left fun h => h rfl)]
    rfl
  | cons c ds ih =>
    rw [List.forall_mem_cons] at h
    obtain ⟨hlow, hhigh⟩ := toNat_of_isDigit h.1
    have hdigit : baseDigit? c = some (c.toNat - 0x30) := if_pos h.1
    rw [digitsValue?, hdigit]
    · dsimp only
      rw [if_pos (by omega : c.toNat - 0x30 < 10), ih h.2 _ true (.inr rfl), Nat.ofDigitChars_cons, Nat.mul_comm]
      rfl
    · exact ne_of_isDigit h.1 rfl

theorem afterBaseMark_ten (cs : List Char) : afterBaseMark 10 cs = cs := by
  unfold afterBaseMark
  split
  · exact if_neg (by simp [baseLetter?])
  · rfl

theorem int?_digits (hne : ds ≠ []) (h : ∀ c ∈ ds, c.isDigit = true) :
    int? 10 ds = some ((Nat.ofDigitChars 10 ds 0 : Nat) : Int) := by
  have hsign : ∀ {c : Char} {rest : List Char}, c.isDigit = false → ds ≠ c :: rest := by
    rintro c rest hc rfl
    exact ne_of_isDigit (h c List.mem_cons_self) hc rfl
  have hplain : Text.trimBoth Text.isAsciiBlank (toAsciiNumeral ds) = ds := by
    rw [toAsciiNumeral_of_ascii fun c hc => by have := toNat_of_isDigit (h c hc); omega]
    refine trimBoth_of_all fun c hc => ?_
    have := toNat_of_isDigit (h c hc)
    simp only [Text.isAsciiBlank, Bool.or_eq_false_iff, Bool.and_eq_false_iff,
      decide_eq_false_iff_not, beq_eq_false_iff_ne]
    exact ⟨ne_of_isDigit (h c hc) rfl, by omega⟩
  rw [int?, hplain]
  split
  next heq =>
    split at heq
    · exact absurd rfl (hsign rfl)
    · exact absurd rfl (hsign rfl)
    · obtain ⟨rfl, rfl⟩ := Prod.mk.inj heq
      rw [afterBaseMark_ten, digitsValue?_digits h 0 false (.inl hne)]
      rfl

/-- **A run of digits is read as its value** if it is not too long. -/
theorem readInt_digits (hne : ds ≠ []) (h : ∀ c ∈ ds, c.isDigit = true)
    (hlength : ds.length ≤ maxDigits) :
    readInt 10 (String.ofList ds) = .ok ((Nat.ofDigitChars 10 ds 0 : Nat) : Int) := by
  have hcount : (ds.filter fun c => (Text.digitValue? c).isSome).length ≤ maxDigits :=
    Nat.le_trans (List.length_filter_le _ _) hlength
  rw [readInt, String.toList_ofList, int?_digits hne h]
  dsimp only
  rw [if_neg (by simpa using hcount)]

end digits

/-! ## Integers -/

/-- The text of an integer. -/
theorem toList_toString (n : Int) :
    (toString n).toList = (if n < 0 then ['-'] else []) ++ Nat.toDigits 10 n.natAbs := by
  cases n with
  | ofNat n =>
    have hsign : ¬Int.ofNat n < 0 := Int.not_lt.mpr (Int.natCast_nonneg n)
    rw [if_neg hsign]
    exact Nat.toList_repr
  | negSucc n =>
    rw [if_pos (Int.negSucc_lt_zero n)]
    show ("-" ++ Nat.repr (n + 1)).toList = _
    rw [String.toList_append, Nat.toList_repr]
    rfl

/-- A number of one digit is not too long. -/
theorem isLong_of_lt {n : Int} (h : n.natAbs < 10) : isLong n = false := by
  rw [isLong, decide_eq_false_iff_not]
  have hdigits : 1 ≤ maxDigits := by decide
  generalize maxDigits = k at hdigits ⊢
  have hpow : 10 ^ 1 ≤ 10 ^ k := Nat.pow_le_pow_right (by decide) hdigits
  exact Nat.not_le.mpr (Nat.lt_of_lt_of_le h hpow)

theorem length_toDigits_le {n : Int} (h : isLong n = false) :
    (Nat.toDigits 10 n.natAbs).length ≤ maxDigits := by
  rw [isLong, decide_eq_false_iff_not] at h
  rw [Nat.length_toDigits_le_iff (by decide) (by decide)]
  generalize maxDigits = k at h ⊢
  exact Nat.lt_of_not_le h

end Regen.Number
