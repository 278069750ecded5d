import Regen.Proofs.Number.Shortest

/-! # Texts of numbers

    The shortest text of a number is its digits with a point or with an exponent, or with both.
    Whichever it is, it is read as a decimal in the number's interval, and so as the number. -/

namespace Regen.Number

/-- The parts of an unsigned decimal. -/
structure DecimalText where
  whole : List Char
  places : Option (List Char)
  exponent : Option Int

namespace DecimalText

variable {t : DecimalText}

def placesText : Option (List Char) → List Char
  | none => []
  | some ds => '.' :: ds

def exponentPart : Option Int → List Char
  | none => []
  | some x => 'e' :: exponentText x

def chars (t : DecimalText) : List Char :=
  t.whole ++ (placesText t.places ++ exponentPart t.exponent)

/-- All digits without the point. -/
def digits (t : DecimalText) : List Char := t.whole ++ t.places.getD []

/-- The power of ten that the digits are multiplied by. -/
def scale (t : DecimalText) : Int := t.exponent.getD 0 - (t.places.getD []).length

def value (t : DecimalText) : ℚ := digitRun t.digits * 10 ^ t.scale

/-- There is a digit in front, and there are digits only on both sides of the point. -/
structure IsProper (t : DecimalText) : Prop where
  ne_nil : t.whole ≠ []
  whole : ∀ c ∈ t.whole, c.isDigit = true
  places : ∀ ds ∈ t.places, ∀ c ∈ ds, c.isDigit = true

end DecimalText

/-! ## Exponents -/

/-- The digits of an exponent are at least two. -/
theorem exponentText_eq (x : Int) :
    ∃ ds, exponentText x = (if x < 0 then '-' else '+') :: ds ∧ ds ≠ [] ∧
      (∀ c ∈ ds, c.isDigit = true) ∧ digitRun ds = x.natAbs := by
  have hall := isDigit_toDigits x.natAbs
  have hvalue := digitRun_toDigits x.natAbs
  have hne : Nat.toDigits 10 x.natAbs ≠ [] := Nat.toDigits_ne_nil
  rw [exponentText]
  generalize Nat.toDigits 10 x.natAbs = ds at hall hvalue hne ⊢
  refine ⟨_, rfl, ?_⟩
  split
  · refine ⟨List.cons_ne_nil _ _, List.forall_mem_cons.mpr ⟨rfl, hall⟩, ?_⟩
    rw [← hvalue, digitRun, List.foldl_cons]
    rfl
  · exact ⟨hne, hall, hvalue⟩

theorem exponent?_exponentPart (x : Option Int) :
    exponent? (DecimalText.exponentPart x) = some (x.getD 0) := by
  cases x with
  | none => rfl
  | some x =>
    obtain ⟨ds, hds, hne, hall, hvalue⟩ := exponentText_eq x
    have hdigits : (ds.isEmpty || !ds.all Char.isDigit) = false := by
      simpa [hne] using hall
    have hletter : ('e'.toLower == 'e') = true := by decide
    rw [DecimalText.exponentPart, hds]
    by_cases hsign : x < 0
    · rw [if_pos hsign, exponent?, if_pos hletter]
      simp only [hdigits, Bool.false_eq_true, if_false, if_true, hvalue]
      rw [Option.getD_some, Int.ofNat_natAbs_of_nonpos hsign.le, Int.neg_neg]
    · rw [if_neg hsign, exponent?, if_pos hletter]
      simp only [hdigits, Bool.false_eq_true, if_false, hvalue]
      rw [Option.getD_some, Int.natAbs_of_nonneg (Int.not_lt.mp hsign)]

/-! ## Reading -/

section reading
variable {t : DecimalText}

theorem takeWhile_digits {ds rest : List Char} (h : ∀ c ∈ ds, c.isDigit = true)
    (hrest : ∀ c ∈ rest.head?, c.isDigit = false) :
    (ds ++ rest).takeWhile Char.isDigit = ds ∧ (ds ++ rest).dropWhile Char.isDigit = rest := by
  rw [List.takeWhile_append_of_pos h, List.dropWhile_append_of_pos h]
  cases rest with
  | nil => exact ⟨List.append_nil _, rfl⟩
  | cons c rest =>
    have hc : ¬c.isDigit = true := by simp [hrest c rfl]
    rw [List.takeWhile_cons_of_neg hc, List.dropWhile_cons_of_neg hc]
    exact ⟨List.append_nil _, rfl⟩

/-- **The parts of a decimal are found again.** -/
theorem decimal?_chars (h : t.IsProper) (negative : Bool) :
    decimal? negative t.chars = some (Binary64.ofDecimal negative (digitRun t.digits) t.scale) := by
  obtain ⟨whole, places, exponent⟩ := t
  have hexponent : ∀ c ∈ (DecimalText.exponentPart exponent).head?, c.isDigit = false := by
    cases exponent <;> simp [DecimalText.exponentPart]
  have hread := exponent?_exponentPart exponent
  have hwhole : whole.isEmpty = false := by simpa using h.ne_nil
  cases places with
  | none =>
    obtain ⟨htake, hdrop⟩ := takeWhile_digits h.whole hexponent
    simp only [decimal?, DecimalText.chars, DecimalText.placesText, List.nil_append, htake, hdrop,
      hwhole, Bool.false_and, Bool.false_eq_true, if_false]
    cases exponent with
    | none => rfl
    | some x => exact congrArg _ hread
  | some ds =>
    obtain ⟨hfront, hback⟩ := takeWhile_digits (h.places ds rfl) hexponent
    obtain ⟨htake, hdrop⟩ := @takeWhile_digits _
      ('.' :: (ds ++ DecimalText.exponentPart exponent)) h.whole (by simp)
    simp only [decimal?, DecimalText.chars, DecimalText.placesText, List.cons_append, htake, hdrop,
      hfront, hback, hwhole, Bool.false_and, Bool.false_eq_true, if_false, hread]
    rfl

end reading

/-! ## Writing -/

/-- The parts of a decimal spell a value as a text, which has a point or an exponent. -/
structure DecimalText.Spells (t : DecimalText) (cs : List Char) (x : ℚ) : Prop where
  proper : t.IsProper
  chars : cs = t.chars
  value : t.value = x
  marked : t.places = none → t.exponent ≠ none

section writing
variable {ds : List Char}

theorem digitRun_zeros_append (z : Nat) (ds : List Char) :
    digitRun (List.replicate z '0' ++ ds) = digitRun ds := by
  rw [digitRun_eq, digitRun_eq, Nat.ofDigitChars_append, Nat.ofDigitChars_replicate_zero,
    Nat.mul_zero]

theorem isDigit_zeros (z : Nat) : ∀ c ∈ List.replicate z '0', c.isDigit = true := by
  intro c hc
  rw [List.eq_of_mem_replicate hc]
  rfl

/-- The point in front of the digits, behind zeros. -/
theorem spells_fraction (hall : ∀ c ∈ ds, c.isDigit = true) (z : Nat) :
    DecimalText.Spells ⟨['0'], some (List.replicate z '0' ++ ds), none⟩
      ('0' :: '.' :: List.replicate z '0' ++ ds) (digitRun ds * 10 ^ (-(z : Int) - ds.length)) where
  proper := by
    refine ⟨List.cons_ne_nil _ _, by simp, ?_⟩
    rintro _ ⟨⟩
    exact List.forall_mem_append.mpr ⟨isDigit_zeros z, hall⟩
  chars := by simp [DecimalText.chars, DecimalText.placesText, DecimalText.exponentPart]
  value := by
    have hrun : digitRun (['0'] ++ (List.replicate z '0' ++ ds)) = digitRun ds :=
      (digitRun_zeros_append 1 _).trans (digitRun_zeros_append z ds)
    rw [DecimalText.value, DecimalText.digits, Option.getD_some, hrun, DecimalText.scale,
      Option.getD_none, Option.getD_some, List.length_append, List.length_replicate]
    congr 2
    omega
  marked := nofun

/-- The point behind the digits and more zeros. -/
theorem spells_whole (hne : ds ≠ []) (hall : ∀ c ∈ ds, c.isDigit = true) (z : Nat) :
    DecimalText.Spells ⟨ds ++ List.replicate z '0', some ['0'], none⟩
      (ds ++ List.replicate z '0' ++ ['.', '0']) (digitRun ds * 10 ^ (z : Int)) where
  proper := by
    refine ⟨by simp [hne], List.forall_mem_append.mpr ⟨hall, isDigit_zeros z⟩, ?_⟩
    rintro _ ⟨⟩
    simp
  chars := by simp [DecimalText.chars, DecimalText.placesText, DecimalText.exponentPart]
  value := by
    have hrun : digitRun (ds ++ List.replicate z '0' ++ ['0']) = digitRun ds * 10 ^ (z + 1) := by
      rw [List.append_assoc, ← List.replicate_succ', digitRun_append_zeros]
    rw [DecimalText.value, DecimalText.digits, Option.getD_some, hrun, DecimalText.scale,
      Option.getD_none, Option.getD_some, Nat.cast_mul, Nat.cast_pow, mul_assoc, Nat.cast_ofNat,
      ← zpow_natCast, ← zpow_add₀ (by norm_num)]
    congr 2
    simp
  marked := nofun

/-- The point among the digits. -/
theorem spells_inside (hall : ∀ c ∈ ds, c.isDigit = true) {k : Nat} (hk : 0 < k)
    (hless : k < ds.length) :
    DecimalText.Spells ⟨ds.take k, some (ds.drop k), none⟩ (ds.take k ++ '.' :: ds.drop k)
      (digitRun ds * 10 ^ ((k : Int) - ds.length)) where
  proper := by
    refine ⟨?_, fun c hc => hall c (List.mem_of_mem_take hc), ?_⟩
    · exact List.ne_nil_of_length_pos (by rw [List.length_take]; omega)
    · rintro _ ⟨⟩
      exact fun c hc => hall c (List.mem_of_mem_drop hc)
  chars := by simp [DecimalText.chars, DecimalText.placesText, DecimalText.exponentPart]
  value := by
    rw [DecimalText.value, DecimalText.digits, Option.getD_some, List.take_append_drop,
      DecimalText.scale, Option.getD_none, Option.getD_some, List.length_drop]
    congr 2
    omega
  marked := nofun

/-- One digit in front, and an exponent. -/
theorem spells_scientific {d : Char} (hd : d.isDigit = true)
    (hall : ∀ c ∈ ds, c.isDigit = true) (x : Int) :
    DecimalText.Spells ⟨[d], if ds = [] then none else some ds, some x⟩
      (d :: (DecimalText.placesText (if ds = [] then none else some ds) ++ 'e' :: exponentText x))
      (digitRun (d :: ds) * 10 ^ (x - ds.length)) where
  proper := by
    refine ⟨List.cons_ne_nil _ _, by simpa using hd, ?_⟩
    intro places hplaces
    split at hplaces
    · cases hplaces
    · cases hplaces
      exact hall
  chars := by simp [DecimalText.chars, DecimalText.exponentPart]
  value := by
    cases ds <;>
      simp [DecimalText.value, DecimalText.digits, DecimalText.scale]
  marked := nofun

/-- **Digits with a point** spell the digits behind a point that is moved. -/
theorem exists_placePoint (hne : ds ≠ []) (hall : ∀ c ∈ ds, c.isDigit = true) (p : Int) :
    ∃ t : DecimalText, t.Spells (placePoint ds p) (digitRun ds * 10 ^ (p - ds.length)) := by
  have hlength : 0 < ds.length := List.length_pos_of_ne_nil hne
  rw [placePoint]
  split
  · split
    · next hp =>
      have := spells_fraction hall (-p).toNat
      rw [show -((-p).toNat : Int) = p by omega] at this
      exact ⟨_, this⟩
    · next hp =>
      dsimp only
      split
      · next hfew =>
        have := spells_whole hne hall (p.toNat - ds.length)
        rw [show ((p.toNat - ds.length : Nat) : Int) = p - ds.length by omega] at this
        exact ⟨_, this⟩
      · next hmany =>
        have := spells_inside hall (by omega : 0 < p.toNat) (by omega)
        rw [show (p.toNat : Int) = p by omega] at this
        exact ⟨_, this⟩
  · obtain ⟨d, ds, rfl⟩ := List.exists_cons_of_ne_nil hne
    rw [List.forall_mem_cons] at hall
    have := spells_scientific hall.1 hall.2 (p - 1)
    rw [show p - 1 - (ds.length : Int) = p - (d :: ds).length by simp; omega] at this
    refine ⟨_, this.proper, Eq.trans ?_ this.chars, this.value, this.marked⟩
    cases ds <;> rfl

end writing

/-! ## Numbers -/

/-- A character of a decimal. -/
def isDecimalChar (c : Char) : Bool := c.isDigit || c == '.' || c == 'e' || c == '+' || c == '-'

theorem of_isDecimalChar {c : Char} (h : isDecimalChar c = true) :
    c.toNat < 0x80 ∧ Text.isAsciiBlank c = false ∧ c ≠ '_' ∧ c ≠ ':' ∧ c.toLower = c := by
  have hdigit : ∀ c : Char, c.isDigit = true →
      c.toNat < 0x80 ∧ Text.isAsciiBlank c = false ∧ c ≠ '_' ∧ c ≠ ':' ∧ c.toLower = c :=
    forall_isDigit (by decide)
  simp only [isDecimalChar, Bool.or_eq_true, beq_iff_eq] at h
  rcases h with (((h | rfl) | rfl) | rfl) | rfl
  · exact hdigit c h
  all_goals decide

section numbers
variable {t : DecimalText}

theorem DecimalText.IsProper.isDecimalChar (h : t.IsProper) :
    ∀ c ∈ t.chars, isDecimalChar c = true := by
  have hdigits : ∀ {ds : List Char}, (∀ c ∈ ds, c.isDigit = true) →
      ∀ c ∈ ds, Number.isDecimalChar c = true := fun hds c hc => by
    simp [Number.isDecimalChar, hds c hc]
  refine List.forall_mem_append.mpr ⟨hdigits h.whole, List.forall_mem_append.mpr ⟨?_, ?_⟩⟩
  · cases hplaces : t.places with
    | none => exact fun c hc => absurd hc List.not_mem_nil
    | some ds => exact List.forall_mem_cons.mpr ⟨by decide, hdigits (h.places ds hplaces)⟩
  · cases t.exponent with
    | none => exact fun c hc => absurd hc List.not_mem_nil
    | some x =>
      obtain ⟨ds, hds, -, hall, -⟩ := exponentText_eq x
      rw [DecimalText.exponentPart, hds]
      refine List.forall_mem_cons.mpr ⟨by decide, List.forall_mem_cons.mpr ⟨?_, hdigits hall⟩⟩
      split <;> decide

theorem DecimalText.IsProper.isDecimalChar_signed (h : t.IsProper) (negative : Bool) :
    ∀ c ∈ (if negative then ['-'] else []) ++ t.chars, Number.isDecimalChar c = true := by
  refine List.forall_mem_append.mpr ⟨?_, h.isDecimalChar⟩
  cases negative <;> simp [Number.isDecimalChar]

theorem DecimalText.IsProper.exists_head (h : t.IsProper) :
    ∃ d rest, t.chars = d :: rest ∧ d.isDigit = true := by
  obtain ⟨d, whole, hwhole⟩ := List.exists_cons_of_ne_nil h.ne_nil
  exact ⟨d, _, by rw [DecimalText.chars, hwhole]; rfl,
    h.whole d (hwhole ▸ List.mem_cons_self)⟩

theorem joinDigits?_of_all {cs : List Char} (h : ∀ c ∈ cs, c ≠ '_') {previous : Char}
    (hprevious : previous ≠ '_') : joinDigits? previous cs = some cs := by
  induction cs generalizing previous with
  | nil => rw [joinDigits?, if_neg (by simpa using hprevious)]
  | cons c cs ih =>
    rw [List.forall_mem_cons] at h
    rw [joinDigits?, if_neg (by simp [hprevious]), ih h.2 h.1]
    · rfl
    · exact h.1

/-- A decimal is no name of a number. -/
theorem unsigned?_chars (h : t.IsProper) (negative : Bool) :
    unsigned? negative t.chars =
      some (Binary64.ofDecimal negative (digitRun t.digits) t.scale) := by
  obtain ⟨d, rest, hchars, hd⟩ := h.exists_head
  have hlower : t.chars.map Char.toLower = t.chars :=
    (List.map_congr_left fun c hc => (of_isDecimalChar (h.isDecimalChar c hc)).2.2.2.2).trans
      (List.map_id' _)
  have hname : ∀ {name : String}, name.toList.head?.any Char.isDigit = false →
      String.ofList t.chars ≠ name := by
    rintro _ hother rfl
    rw [String.toList_ofList, hchars, List.head?_cons, Option.any_some, hd] at hother
    cases hother
  rw [unsigned?, hlower]
  split
  next heq => exact absurd heq (hname (by decide))
  next heq => exact absurd heq (hname (by decide))
  next heq => exact absurd heq (hname (by decide))
  next => exact decimal?_chars h negative

/-- A sign is read where one stands. -/
theorem real?_of_joined {cs ds : List Char} :
    joinDigits? ' ' (Text.trimBoth Text.isAsciiBlank (toAsciiNumeral cs)) = some ds →
    real? cs = match ds with
      | '-' :: rest => unsigned? true rest
      | '+' :: rest => unsigned? false rest
      | _ => unsigned? false ds := by
  intro h
  rw [real?]
  show (joinDigits? ' ' _).bind _ = _
  rw [h]
  rfl

/-- **A decimal with its sign is read.** -/
theorem real?_signed (h : t.IsProper) (negative : Bool) :
    real? ((if negative then ['-'] else []) ++ t.chars) =
      some (Binary64.ofDecimal negative (digitRun t.digits) t.scale) := by
  obtain ⟨d, rest, hchars, hd⟩ := h.exists_head
  have hall := fun c hc => of_isDecimalChar (h.isDecimalChar_signed negative c hc)
  have hread := unsigned?_chars h negative
  have hjoined : joinDigits? ' ' (Text.trimBoth Text.isAsciiBlank (toAsciiNumeral
      ((if negative then ['-'] else []) ++ t.chars))) =
        some ((if negative then ['-'] else []) ++ t.chars) := by
    rw [toAsciiNumeral_of_ascii fun c hc => (hall c hc).1,
      trimBoth_of_all fun c hc => (hall c hc).2.1,
      joinDigits?_of_all (fun c hc => (hall c hc).2.2.1) (by decide)]
  rw [real?_of_joined hjoined]
  cases negative with
  | true => exact hread
  | false =>
    simp only [Bool.false_eq_true, if_false, List.nil_append]
    split
    next heq => exact absurd (List.cons.inj (hchars.symm.trans heq)).1 (ne_of_isDigit hd rfl)
    next heq => exact absurd (List.cons.inj (hchars.symm.trans heq)).1 (ne_of_isDigit hd rfl)
    next => exact hread

/-- A number with canonical form is zero or has the mantissa and exponent of a positive one. -/
theorem isFinite_of_isCanonical {negative : Bool} {m : Nat} {e : Int}
    (h : (Binary64.finite negative m e).isCanonical = true) : (m = 0 ∧ e = 0) ∨ IsFinite m e := by
  simp only [Binary64.isCanonical, Bool.or_eq_true, Bool.and_eq_true, beq_iff_eq,
    decide_eq_true_eq] at h
  rcases h with h | ⟨hm, hlarge, hlow, hhigh, hnormal⟩
  · exact .inl h
  · exact .inr ⟨hm, hlarge, hlow, hhigh, hnormal⟩

/-- **The parts of a number's text spell a value in its interval.** -/
theorem exists_spells {m : Nat} {e : Int} (hfinite : IsFinite m e) (negative : Bool) :
    ∃ (t : DecimalText) (cs : List Char) (x : ℚ), t.Spells cs x ∧
      (Binary64.finite negative m e).text =
        String.ofList ((if negative then ['-'] else []) ++ cs) ∧
      (roundingInterval m e).Contains x := by
  obtain ⟨ds, p, hshortest, hne, hall, hcontains⟩ := shortestDigits_spec hfinite
  obtain ⟨t, ht⟩ := exists_placePoint hne hall p
  refine ⟨t, _, _, ht, ?_, hcontains⟩
  obtain ⟨n, rfl⟩ := Nat.exists_eq_succ_of_ne_zero (Nat.pos_iff_ne_zero.mp hfinite.positive)
  rw [Binary64.text]
  · rw [hshortest]
  · exact nofun

theorem DecimalText.ofDecimal_value {m : Nat} {e : Int} (hfinite : IsFinite m e)
    (h : (roundingInterval m e).Contains t.value) (negative : Bool) :
    Binary64.ofDecimal negative (digitRun t.digits) t.scale = .finite negative m e :=
  ofDecimal_of_contains hfinite negative h

/-- **A number is read from its shortest text.** -/
theorem readReal_text {x : Binary64} (hx : x.isCanonical = true) : readReal x.text = .ok x := by
  cases x with
  | nan => cases hx
  | infinite negative => cases negative <;> rfl
  | finite negative m e =>
    rcases isFinite_of_isCanonical hx with ⟨rfl, rfl⟩ | hfinite
    · cases negative <;> rfl
    · obtain ⟨t, cs, x, ht, htext, hcontains⟩ := exists_spells hfinite negative
      rw [← ht.value] at hcontains
      rw [readReal, htext, String.toList_ofList, ht.chars, real?_signed ht.proper,
        t.ofDecimal_value hfinite hcontains]

end numbers

end Regen.Number
