import Regen.Proofs.Number.Printed
import Regen.Proofs.Yaml.Spelled
import Regen.Yaml.ScalarValue

/-! # Numbers as scalars

    The text of a number is written plainly, because it reads back with the tag and the value of
    the number. -/

namespace Regen.Yaml

open Number

/-! ## Texts of numbers -/

/-- May the character stand in the text of a number? -/
def isNumeral (c : Char) : Bool := c.isAlphanum || c == '+' || c == '-' || c == '.'

theorem of_isNumeral {c : Char} (h : isNumeral c = true) :
    isWritable c = true ∧ isBreak c = false ∧ Pen.isPlainInDouble c = true ∧ c ≠ ' ' ∧ c ≠ ':' ∧
      c ≠ '#' ∧ c ≠ '\u0085' ∧ c ≠ '\n' := by
  have hascii : c.toNat < 128 := by
    delta isNumeral Char.isAlphanum Char.isAlpha Char.isUpper Char.isLower Char.isDigit at h
    simp only [Bool.or_eq_true, Bool.and_eq_true, decide_eq_true_eq, beq_iff_eq] at h
    rcases h with ((((h | h) | h) | rfl) | rfl) | rfl
    · exact Nat.lt_of_le_of_lt h.2 (by decide)
    · exact Nat.lt_of_le_of_lt h.2 (by decide)
    · exact Nat.lt_of_le_of_lt h.2 (by decide)
    all_goals decide
  have hall : ∀ n : Fin 128, isNumeral (Char.ofNat n) = true →
      isWritable (Char.ofNat n) = true ∧ isBreak (Char.ofNat n) = false ∧
        Pen.isPlainInDouble (Char.ofNat n) = true ∧ Char.ofNat n ≠ ' ' ∧ Char.ofNat n ≠ ':' ∧
        Char.ofNat n ≠ '#' ∧ Char.ofNat n ≠ '\u0085' ∧ Char.ofNat n ≠ '\n' := by decide
  have := hall ⟨c.toNat, hascii⟩
  rw [Char.ofNat_toNat] at this
  exact this h

/-- A number's text: perhaps a minus, and a body that starts with a digit. -/
structure IsNumeral (body cs : List Char) : Prop where
  signed : cs = body ∨ cs = '-' :: body
  first : ∃ d ∈ body.head?, d.isDigit = true
  chars : ∀ c ∈ body, isNumeral c = true

section numerals
variable {body cs : List Char}

theorem IsNumeral.all (h : IsNumeral body cs) : ∀ c ∈ cs, isNumeral c = true := by
  rcases h.signed with rfl | rfl
  · exact h.chars
  · exact List.forall_mem_cons.mpr ⟨by decide, h.chars⟩

theorem IsNumeral.ne_nil (h : IsNumeral body cs) : cs ≠ [] := by
  rcases h.signed with rfl | rfl
  · obtain ⟨d, hd, -⟩ := h.first
    rintro rfl
    cases hd
  · exact List.cons_ne_nil _ _

theorem adjacent_of_all {p q : Char → Bool} (h : ∀ c ∈ cs, p c = false) :
    adjacent p q cs = false := by
  induction cs with
  | nil => rfl
  | cons a cs ih =>
    rw [List.forall_mem_cons] at h
    cases cs with
    | nil => rfl
    | cons b cs => rw [adjacent, h.1, ih h.2, Bool.false_and, Bool.false_or]

theorem hasInnerIndicator_of_all (h : ∀ c ∈ cs, c ≠ ':' ∧ c ≠ '#') :
    hasInnerIndicator cs = false := by
  induction cs with
  | nil => rfl
  | cons a cs ih =>
    rw [List.forall_mem_cons] at h
    cases cs with
    | nil => rfl
    | cons b cs =>
      have hb := h.2 b List.mem_cons_self
      rw [hasInnerIndicator, ih h.2, beq_eq_false_iff_ne.mpr hb.1, beq_eq_false_iff_ne.mpr hb.2]
      rfl

/-- A number's text starts like a plain scalar. -/
theorem IsNumeral.leading (h : IsNumeral body cs) : hasLeadingIndicator cs = false := by
  obtain ⟨d, hd, hdigit⟩ := h.first
  obtain ⟨rest, rfl⟩ := List.head?_eq_some_iff.mp hd
  have hplain : ∀ d : Char, d.isDigit = true → d ≠ '-' ∧ d ≠ '.' ∧ isBlankOrEnd d = false ∧
      (d == '?' || d == ':') = false ∧ "#,[]\x7b\x7d&*!|>'\"%@`".toList.contains d = false :=
    forall_isDigit (by decide)
  obtain ⟨hminus, hpoint, hblank, hmark, hindicator⟩ := hplain d hdigit
  rcases h.signed with rfl | rfl
  · rw [hasLeadingIndicator, hindicator, hmark]
    simp [hminus, hpoint]
  · have hminus' : "#,[]\x7b\x7d&*!|>'\"%@`".toList.contains '-' = false := by decide
    rw [hasLeadingIndicator, hminus']
    simp [hminus, blankFollows, hblank]

/-- **A number's text may be written plainly.** -/
theorem IsNumeral.allowsPlain (h : IsNumeral body cs) : (analyze cs).allowsPlain = true := by
  have hall := fun c hc => of_isNumeral (h.all c hc)
  have hedge : (cs.take 1 ++ cs.reverse.take 1).any (fun c => c == ' ' || isBreak c) = false := by
    rw [List.any_eq_false]
    intro c hc
    have hmem : c ∈ cs := by
      rcases List.mem_append.mp hc with hc | hc
      · exact List.mem_of_mem_take hc
      · exact List.mem_reverse.mp (List.mem_of_mem_take hc)
    obtain ⟨-, hbreak, -, hspace, -⟩ := hall c hmem
    simp [hbreak, hspace]
  have hspecial : cs.any (!isWritable ·) = false :=
    List.any_eq_false.mpr fun c hc => by simp [(hall c hc).1]
  have hbreaks : cs.any isBreak = false :=
    List.any_eq_false.mpr fun c hc => by simp [(hall c hc).2.1]
  rw [analyze, if_neg (by simpa using h.ne_nil)]
  simp only [hedge, hspecial, hbreaks, h.leading,
    hasInnerIndicator_of_all fun c hc => ⟨(hall c hc).2.2.2.2.1, (hall c hc).2.2.2.2.2.1⟩,
    adjacent_of_all (p := isBreak) fun c hc => (hall c hc).2.1,
    adjacent_of_all (p := (· == ' ')) fun c hc => beq_eq_false_iff_ne.mpr (hall c hc).2.2.2.1]
  rfl

/-- Nothing in a text of such characters is lost on the way. -/
theorem isLegibleText_of_all (h : ∀ c ∈ cs, isNumeral c = true) (indent : Nat) :
    isLegibleText indent cs = true := by
  have hmark : cs.contains '\u0085' = false := by
    rw [List.contains_eq_mem, decide_eq_false_iff_not]
    exact fun hmem => (of_isNumeral (h _ hmem)).2.2.2.2.2.2.1 rfl
  rw [isLegibleText, hmark, adjacent_of_all fun c hc => by simp [(of_isNumeral (h c hc)).2.2.1]]
  simp

/-- A number's text is not the name of a flag. -/
theorem IsNumeral.isBoolForm (h : IsNumeral body cs) : isBoolForm (String.ofList cs) = false := by
  obtain ⟨d, hd, hdigit⟩ := h.first
  obtain ⟨rest, rfl⟩ := List.head?_eq_some_iff.mp hd
  have hletter : ["yes", "Yes", "YES", "no", "No", "NO", "true", "True", "TRUE", "false", "False",
      "FALSE", "on", "On", "ON", "off", "Off", "OFF"].all
        (fun w => w.toList.head?.all fun c => !c.isDigit && c != '-') = true := by decide
  rw [Yaml.isBoolForm, List.contains_eq_mem, decide_eq_false_iff_not]
  intro hmem
  have hfirst := List.all_eq_true.mp hletter _ hmem
  rw [String.toList_ofList] at hfirst
  rcases h.signed with rfl | rfl
  · simp [hdigit] at hfirst
  · simp at hfirst

/-- The tag of a number's text goes by its form. -/
theorem IsNumeral.ofPlain (h : IsNumeral body cs) (hform : isFloatForm cs = true ∨
    isIntForm cs = true) :
    Tag.ofPlain (String.ofList cs) = if isFloatForm cs = true then .float else .int := by
  have hfeed : (cs.getLast? == some '\n') = false := by
    refine beq_eq_false_iff_ne.mpr fun hlast => ?_
    exact (of_isNumeral (h.all _ (List.mem_of_getLast? hlast))).2.2.2.2.2.2.2 rfl
  rw [Tag.ofPlain, String.toList_ofList]
  simp only [hfeed, Bool.false_eq_true, if_false, h.isBoolForm]
  split
  · rfl
  · next hfloat => rw [if_pos (hform.resolve_left hfloat)]

end numerals

/-! ## Integers -/

section integers
variable {ds : List Char}

theorem dropWhile_digits (h : ∀ c ∈ ds, c.isDigit = true) :
    ds.dropWhile isDigitOrUnderscore = [] := by
  rw [List.dropWhile_eq_nil_iff]
  intro c hc
  rw [isDigitOrUnderscore, h c hc, Bool.true_or]

theorem isNumeral_int (n : Int) : IsNumeral (Nat.toDigits 10 n.natAbs) (toString n).toList := by
  have hdigits := isDigit_toDigits n.natAbs
  refine ⟨?_, ?_, fun c hc => by simp [isNumeral, Char.isAlphanum, hdigits c hc]⟩
  · rw [toList_toString]
    split
    · exact .inr rfl
    · exact .inl rfl
  · obtain ⟨d, rest, hrest⟩ := List.exists_cons_of_ne_nil
      (Nat.toDigits_ne_nil (n := n.natAbs) (b := 10))
    rw [hrest] at hdigits ⊢
    exact ⟨d, rfl, hdigits d List.mem_cons_self⟩

theorem dropSign_signed {body cs : List Char} (h : IsNumeral body cs) : dropSign cs = body := by
  obtain ⟨d, hd, hdigit⟩ := h.first
  obtain ⟨rest, rfl⟩ := List.head?_eq_some_iff.mp hd
  rcases h.signed with rfl | rfl
  · unfold dropSign
    split
    next heq => exact absurd (List.cons.inj heq).1 (ne_of_isDigit hdigit rfl)
    next heq => exact absurd (List.cons.inj heq).1 (ne_of_isDigit hdigit rfl)
    next => rfl
  · rfl

/-- The digits of an integer other than zero. -/
theorem exists_toDigits {n : Nat} (h : n ≠ 0) :
    ∃ d rest, Nat.toDigits 10 n = d :: rest ∧ d.isDigit = true ∧ d ≠ '0' ∧
      ∀ c ∈ rest, c.isDigit = true := by
  have hdigits := isDigit_toDigits n
  have hfront := head?_toDigits h
  obtain ⟨d, rest, hrest⟩ := List.exists_cons_of_ne_nil (Nat.toDigits_ne_nil (n := n) (b := 10))
  rw [hrest, List.forall_mem_cons] at hdigits
  rw [hrest] at hfront
  exact ⟨d, rest, hrest, hdigits.1, fun h => hfront (congrArg some h), hdigits.2⟩

theorem sexagesimalRest?_digits (h : ∀ c ∈ ds, c.isDigit = true) : sexagesimalRest? ds = none := by
  rw [sexagesimalRest?, dropWhile_digits h]
  cases ds <;> rfl

/-- The text of an integer has the form of one, and not of a real. -/
theorem isIntForm_int (n : Int) :
    isFloatForm (toString n).toList = false ∧ isIntForm (toString n).toList = true := by
  have hbody := dropSign_signed (isNumeral_int n)
  have hdigits := isDigit_toDigits n.natAbs
  by_cases hzero : n.natAbs = 0
  · obtain rfl := Int.natAbs_eq_zero.mp hzero
    decide
  · obtain ⟨d, rest, hrest, hd, hnonzero, hall⟩ := exists_toDigits hzero
    rw [hrest] at hbody hdigits
    have hpoint : isPointForm (d :: rest) = false := by
      rw [isPointForm, dropWhile_digits hdigits]
    have hne : d ≠ '.' := ne_of_isDigit hd rfl
    constructor
    · rw [isFloatForm, hbody]
      split
      next heq => exact absurd (List.cons.inj heq).1 hne
      next heq =>
        obtain ⟨rfl, -⟩ := List.cons.inj heq
        rw [hpoint, sexagesimalRest?_digits hdigits]
        exact Bool.and_false _
      next heq => cases heq
    · rw [isIntForm, hbody]
      split
      next heq => rfl
      next heq => exact absurd (List.cons.inj heq).1 hnonzero
      next heq => exact absurd (List.cons.inj heq).1 hnonzero
      next heq => exact absurd (List.cons.inj heq).1 hnonzero
      next heq =>
        obtain ⟨rfl, rfl⟩ := List.cons.inj heq
        rw [hd, List.all_eq_true.mpr fun c hc => by simp [isDigitOrUnderscore, hall c hc]]
        rfl
      next heq => cases heq

theorem ofPlain_int (n : Int) : Tag.ofPlain (toString n) = .int := by
  have hform := isIntForm_int n
  have htag := (isNumeral_int n).ofPlain (.inr hform.2)
  rwa [String.ofList_toList, hform.1, if_neg Bool.false_ne_true] at htag

/-- The sign of a number's text. -/
theorem splitSign_signed {d : Char} (hd : d.isDigit = true) (rest : List Char) (negative : Bool) :
    splitSign ((if negative then ['-'] else []) ++ d :: rest) = .ok (negative, d :: rest) := by
  cases negative with
  | true => rfl
  | false =>
    rw [if_neg Bool.false_ne_true, List.nil_append]
    unfold splitSign
    split
    next heq => cases heq
    next heq => exact absurd (List.cons.inj heq).1 (ne_of_isDigit hd rfl)
    next heq => exact absurd (List.cons.inj heq).1 (ne_of_isDigit hd rfl)
    next => rfl

/-- **An integer is read from its text** if it is not too long. -/
theorem intValue_toString {n : Int} (h : isLong n = false) :
    intValue (toString n) = .ok (.int n) := by
  have hnumeral := isNumeral_int n
  have hfilter : (toString n).toList.filter (· != '_') = (toString n).toList := by
    refine List.filter_eq_self.mpr fun c hc => bne_iff_ne.mpr ?_
    rintro rfl
    exact absurd (hnumeral.all _ hc) (by decide)
  by_cases hzero : n.natAbs = 0
  · obtain rfl := Int.natAbs_eq_zero.mp hzero
    rfl
  · obtain ⟨d, rest, hrest, hd, hnonzero, hall⟩ := exists_toDigits hzero
    have hread : readInt 10 (String.ofList (d :: rest)) = .ok (n.natAbs : Int) := by
      rw [← hrest, readInt_digits Nat.toDigits_ne_nil (isDigit_toDigits _) (length_toDigits_le h),
        Nat.ofDigitChars_ten_toDigits]
    have hsplit : splitSign (toString n).toList = .ok (decide (n < 0), d :: rest) := by
      rw [toList_toString, hrest]
      simpa using splitSign_signed hd rest (decide (n < 0))
    have hcolon : (d :: rest).contains ':' = false := by
      rw [List.contains_eq_mem, decide_eq_false_iff_not]
      intro hmem
      exact absurd (hnumeral.chars _ (hrest ▸ hmem)) (by decide)
    rw [intValue, hfilter, hsplit]
    simp only [bind, Except.bind]
    split
    next heq => exact absurd (List.cons.inj heq).1 hnonzero
    next heq => exact absurd (List.cons.inj heq).1 hnonzero
    next heq => exact absurd (List.cons.inj heq).1 hnonzero
    next heq => exact absurd (List.cons.inj heq).1 hnonzero
    next heq => cases heq
    next =>
      rw [hcolon, if_neg Bool.false_ne_true, hread]
      have hvalue : (if decide (n < 0) = true then -(n.natAbs : Int) else n.natAbs) = n := by
        simp only [decide_eq_true_eq]
        split <;> omega
      exact congrArg (fun n => Except.ok (Value.int n)) hvalue

end integers

/-! ## Reals -/

section reals
variable {m : Nat} {e : Int} {t : DecimalText}

theorem isNumeral_of_isDecimalChar {c : Char} (h : isDecimalChar c = true) :
    isNumeral c = true := by
  simp only [isDecimalChar, Bool.or_eq_true, beq_iff_eq] at h
  rcases h with (((h | rfl) | rfl) | rfl) | rfl
  · simp [isNumeral, Char.isAlphanum, h]
  all_goals decide

/-- The point that is put in before an exponent. -/
theorem realText_finite (negative : Bool) (m : Nat) (e : Int) :
    realText (.finite negative m e) =
      (if !(Binary64.finite negative m e).text.toList.contains '.' &&
          (Binary64.finite negative m e).text.toList.contains 'e' then
        (Binary64.finite negative m e).text.toList.takeWhile (· != 'e') ++ ".0".toList ++
          (Binary64.finite negative m e).text.toList.dropWhile (· != 'e')
      else (Binary64.finite negative m e).text.toList) := rfl

theorem insertPoint {whole : List Char} (hall : ∀ c ∈ whole, c.isDigit = true) (negative : Bool)
    (y : Int) :
    (let cs := (if negative then ['-'] else []) ++ DecimalText.chars ⟨whole, none, some y⟩
      if !cs.contains '.' && cs.contains 'e' then
        cs.takeWhile (· != 'e') ++ ".0".toList ++ cs.dropWhile (· != 'e')
      else cs) =
        (if negative then ['-'] else []) ++ DecimalText.chars ⟨whole, some ['0'], some y⟩ := by
  have hfront : ∀ c ∈ (if negative then ['-'] else []) ++ whole, c ≠ 'e' ∧ c ≠ '.' := by
    refine List.forall_mem_append.mpr ⟨?_, fun c hc => ⟨ne_of_isDigit (hall c hc) rfl,
      ne_of_isDigit (hall c hc) rfl⟩⟩
    cases negative <;> simp
  have hback : '.' ∉ exponentText y := by
    obtain ⟨ds, hds, -, hdigits, -⟩ := exponentText_eq y
    rw [hds, List.mem_cons, not_or]
    refine ⟨?_, fun hmem => absurd (hdigits _ hmem) (by decide)⟩
    split <;> decide
  have hsplit : (if negative then ['-'] else []) ++ DecimalText.chars ⟨whole, none, some y⟩ =
      ((if negative then ['-'] else []) ++ whole) ++ 'e' :: exponentText y := by
    simp [DecimalText.chars, DecimalText.placesText, DecimalText.exponentPart]
  have hsplit' : (if negative then ['-'] else []) ++
      DecimalText.chars ⟨whole, some ['0'], some y⟩ =
        ((if negative then ['-'] else []) ++ whole) ++ ['.', '0'] ++ 'e' :: exponentText y := by
    simp [DecimalText.chars, DecimalText.placesText, DecimalText.exponentPart]
  rw [hsplit, hsplit']
  generalize (if negative then ['-'] else []) ++ whole = front at hfront ⊢
  have htake : ∀ c ∈ front, (c != 'e') = true := fun c hc => bne_iff_ne.mpr (hfront c hc).1
  have hpoint : '.' ∉ front ++ 'e' :: exponentText y := by
    rw [List.mem_append, List.mem_cons, not_or, not_or]
    exact ⟨fun hmem => (hfront _ hmem).2 rfl, by decide, hback⟩
  simp only [List.contains_eq_mem, hpoint, decide_false, Bool.not_false, Bool.true_and,
    List.mem_append, List.mem_cons, true_or, or_true, decide_true, if_true,
    List.takeWhile_append_of_pos htake, List.dropWhile_append_of_pos htake]
  simp

/-- **A real is written as a decimal with a point**, which is put in where there is none. -/
theorem exists_realText (hfinite : IsFinite m e) (negative : Bool) :
    ∃ t : DecimalText, t.IsProper ∧ t.places ≠ none ∧
      realText (.finite negative m e) = (if negative then ['-'] else []) ++ t.chars ∧
      readReal (String.ofList t.chars) = .ok (.finite false m e) := by
  obtain ⟨t, cs, x, ht, htext, hcontains⟩ := exists_spells hfinite negative
  have hread : ∀ t : DecimalText, t.IsProper → t.value = x →
      readReal (String.ofList t.chars) = .ok (.finite false m e) := by
    intro t hproper hvalue
    have hreal := real?_signed hproper false
    rw [t.ofDecimal_value hfinite (hvalue.symm ▸ hcontains), if_neg Bool.false_ne_true,
      List.nil_append] at hreal
    rw [readReal, String.toList_ofList, hreal]
  rw [realText_finite, htext, String.toList_ofList, ht.chars]
  obtain ⟨whole, places, exponent⟩ := t
  cases places with
  | some ds =>
    refine ⟨_, ht.proper, Option.some_ne_none _, if_neg ?_, hread _ ht.proper ht.value⟩
    simp [DecimalText.chars, DecimalText.placesText]
  | none =>
    obtain ⟨y, rfl⟩ := Option.ne_none_iff_exists'.mp (ht.marked rfl)
    have hproper : DecimalText.IsProper ⟨whole, some ['0'], some y⟩ :=
      ⟨ht.proper.ne_nil, ht.proper.whole, by rintro _ ⟨⟩; simp⟩
    refine ⟨_, hproper, Option.some_ne_none _, ?_, hread _ hproper ?_⟩
    · exact insertPoint ht.proper.whole negative y
    · have hrun : digitRun (whole ++ ['0']) = digitRun whole * 10 :=
        (digitRun_append_zeros whole 1).trans (by rw [Nat.pow_one])
      rw [← ht.value]
      simp only [DecimalText.value, DecimalText.digits, DecimalText.scale, Option.getD_some,
        Option.getD_none, List.append_nil, List.length_singleton, List.length_nil, hrun]
      push_cast
      rw [mul_assoc, sub_zero, ← zpow_one_add₀ (by norm_num), add_sub_cancel]

theorem isNumeral_chars (h : t.IsProper) (negative : Bool) :
    IsNumeral t.chars ((if negative then ['-'] else []) ++ t.chars) := by
  obtain ⟨d, rest, hchars, hd⟩ := h.exists_head
  refine ⟨?_, ⟨d, by rw [hchars]; rfl, hd⟩,
    fun c hc => isNumeral_of_isDecimalChar (h.isDecimalChar c hc)⟩
  cases negative with
  | true => exact .inr rfl
  | false => exact .inl rfl

theorem isExponentForm_exponentPart (y : Option Int) :
    isExponentForm (DecimalText.exponentPart y) = true := by
  cases y with
  | none => rfl
  | some y =>
    obtain ⟨ds, hds, hne, hall, -⟩ := exponentText_eq y
    have hdigits : ds.all Char.isDigit = true := List.all_eq_true.mpr hall
    have hsign : ((if y < 0 then '-' else '+') == '-' || (if y < 0 then '-' else '+') == '+') =
        true := by
      split <;> rfl
    rw [DecimalText.exponentPart, hds, isExponentForm, hsign, hdigits]
    simpa using hne

/-- A decimal with a point has the form of a real. -/
theorem isFloatForm_chars (h : t.IsProper) (hplaces : t.places ≠ none) (negative : Bool) :
    isFloatForm ((if negative then ['-'] else []) ++ t.chars) = true := by
  obtain ⟨d, rest, hchars, hd⟩ := h.exists_head
  obtain ⟨whole, places, exponent⟩ := t
  obtain ⟨ds, rfl⟩ := Option.ne_none_iff_exists'.mp hplaces
  have hform : ∀ {ds : List Char}, (∀ c ∈ ds, c.isDigit = true) →
      ∀ c ∈ ds, isDigitOrUnderscore c = true := fun hds c hc => by
    rw [isDigitOrUnderscore, hds c hc, Bool.true_or]
  have hexponent : (DecimalText.exponentPart exponent).dropWhile isDigitOrUnderscore =
      DecimalText.exponentPart exponent := by
    cases exponent <;> rfl
  have hpoint : isPointForm (DecimalText.chars ⟨whole, some ds, exponent⟩) = true := by
    rw [isPointForm, DecimalText.chars, List.dropWhile_append_of_pos (hform h.whole)]
    show isExponentForm ((ds ++ DecimalText.exponentPart exponent).dropWhile isDigitOrUnderscore) =
      true
    rw [List.dropWhile_append_of_pos (hform (h.places ds rfl)), hexponent]
    exact isExponentForm_exponentPart exponent
  rw [isFloatForm, dropSign_signed (isNumeral_chars h negative)]
  rw [hchars] at hpoint ⊢
  split
  next heq => exact absurd (List.cons.inj heq).1 (ne_of_isDigit hd rfl)
  next heq =>
    obtain ⟨rfl, -⟩ := List.cons.inj heq
    rw [hd, hpoint]
    rfl
  next heq => cases heq

theorem lower_of_ascii {cs : List Char} (h : ∀ c ∈ cs, c.toNat < 0x80 ∧ c.toLower = c) :
    Text.lower cs = cs := by
  have hfrom : ∀ inWord, Text.lowerFrom inWord cs = cs := by
    induction cs with
    | nil => exact fun _ => rfl
    | cons c cs ih =>
      intro inWord
      rw [List.forall_mem_cons] at h
      have hsigma : (c == Text.capitalSigma) = false := by
        refine beq_eq_false_iff_ne.mpr ?_
        rintro rfl
        exact absurd h.1.1 (by decide)
      rw [Text.lowerFrom, hsigma, ih h.2, Text.lowerChar, if_pos h.1.1, h.1.2]
      rfl
  exact hfrom false

/-- **A real is read from its text.** -/
theorem realValue_realText {x : Binary64} (hx : x.isCanonical = true) :
    realValue (String.ofList (realText x)) = .ok (.real x) := by
  cases x with
  | nan => cases hx
  | infinite negative => cases negative <;> rfl
  | finite negative m e =>
    rcases isFinite_of_isCanonical hx with ⟨rfl, rfl⟩ | hfinite
    · cases negative <;> rfl
    · obtain ⟨t, hproper, -, htext, hread⟩ := exists_realText hfinite negative
      obtain ⟨d, rest, hchars, hd⟩ := hproper.exists_head
      have hall := hproper.isDecimalChar_signed negative
      have hfilter : ((if negative then ['-'] else []) ++ t.chars).filter (· != '_') =
          (if negative then ['-'] else []) ++ t.chars :=
        List.filter_eq_self.mpr fun c hc => bne_iff_ne.mpr (of_isDecimalChar (hall c hc)).2.2.1
      have hsplit := splitSign_signed hd rest negative
      rw [← hchars] at hsplit
      have hname : ∀ name : List Char, name.head?.any Char.isDigit = false →
          (t.chars == name) = false := by
        rintro _ hother
        refine beq_eq_false_iff_ne.mpr ?_
        rintro rfl
        rw [hchars, List.head?_cons, Option.any_some, hd] at hother
        cases hother
      have hcolon : t.chars.contains ':' = false := by
        rw [List.contains_eq_mem, decide_eq_false_iff_not]
        exact fun hmem => (of_isDecimalChar (hproper.isDecimalChar _ hmem)).2.2.2.1 rfl
      rw [realValue, htext, String.toList_ofList, hfilter, lower_of_ascii fun c hc =>
        ⟨(of_isDecimalChar (hall c hc)).1, (of_isDecimalChar (hall c hc)).2.2.2.2⟩, hsplit]
      simp only [bind, Except.bind, hname ".inf".toList (by decide),
        hname ".nan".toList (by decide), hcolon, hread, Bool.false_eq_true, if_false]
      cases negative <;> rfl

end reals

/-! ## Values -/

section values
variable {indent : Nat}

/-- A scalar of one text is legible if the text reads back with the scalar's tag. -/
theorem isLegible_of_readsBack {s : Scalar} (hblock : s.asBlock = false)
    (htag : s.readsBack = true) (hplain : (analyze s.text).allowsPlain = true) (hne : s.text ≠ [])
    (hall : s.text.all isNumeral = true) : s.IsLegible indent :=
  ⟨hblock, .inr ⟨htag, hplain, hne⟩, isLegibleText_of_all (List.all_eq_true.mp hall) indent⟩

theorem isLegible_int (n : Int) : Scalar.IsLegible indent ⟨.int, (toString n).toList, false⟩ := by
  have hnumeral := isNumeral_int n
  refine isLegible_of_readsBack rfl ?_ hnumeral.allowsPlain hnumeral.ne_nil
    (List.all_eq_true.mpr hnumeral.all)
  rw [Scalar.readsBack, String.ofList_toList, ofPlain_int]
  rfl

theorem isLegible_real {x : Binary64} (hx : x.isCanonical = true) :
    Scalar.IsLegible indent ⟨.float, realText x, false⟩ := by
  cases x with
  | nan => cases hx
  | infinite negative =>
    cases negative <;> exact isLegible_of_readsBack rfl (by decide) (by decide) (by decide) (by decide)
  | finite negative m e =>
    rcases isFinite_of_isCanonical hx with ⟨rfl, rfl⟩ | hfinite
    · cases negative <;>
        exact isLegible_of_readsBack rfl (by decide) (by decide) (by decide) (by decide)
    · obtain ⟨t, hproper, hplaces, htext, -⟩ := exists_realText hfinite negative
      have hnumeral := isNumeral_chars hproper negative
      have hform := isFloatForm_chars hproper hplaces negative
      rw [htext]
      refine isLegible_of_readsBack rfl ?_ hnumeral.allowsPlain hnumeral.ne_nil
        (List.all_eq_true.mpr hnumeral.all)
      rw [Scalar.readsBack, hnumeral.ofPlain (.inl hform), if_pos hform]
      rfl

/-- **The scalar of a legible value is legible, and has that value.** -/
theorem isLegible_of_value {v : Value} {s : Scalar} (h : Scalar.ofValue? v = some s)
    (hv : v.isLegible indent = true) :
    s.IsLegible indent ∧ ∀ id, scalarValue id s.tag (String.ofList s.text) = .ok v := by
  cases v with
  | null =>
    cases h
    exact ⟨isLegible_of_readsBack rfl (by decide) (by decide) (by decide) (by decide), fun _ => rfl⟩
  | bool b =>
    cases h
    cases b <;> exact ⟨isLegible_of_readsBack rfl (by decide) (by decide) (by decide) (by decide),
      fun _ => rfl⟩
  | int n =>
    cases h
    rw [Value.isLegible, Bool.not_eq_true'] at hv
    refine ⟨isLegible_int n, fun id => ?_⟩
    show asRead (intValue (String.ofList (toString n).toList)) = _
    rw [String.ofList_toList, intValue_toString hv]
    rfl
  | real x =>
    cases h
    rw [Value.isLegible] at hv
    refine ⟨isLegible_real hv, fun id => ?_⟩
    show asRead (realValue (String.ofList (realText x))) = _
    rw [realValue_realText hv]
    rfl
  | text t =>
    cases h
    rw [Value.isLegible] at hv
    refine ⟨⟨rfl, .inl rfl, hv⟩, fun id => ?_⟩
    exact congrArg (fun t => Except.ok (Value.text t)) String.ofList_toList
  | list | map => cases h
  | _ => cases hv

end values

end Regen.Yaml
