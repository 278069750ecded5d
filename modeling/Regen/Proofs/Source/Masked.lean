import Mathlib.Data.List.Forall2
import Mathlib.Data.List.TakeWhile
import Regen.Source.Credentials
import Regen.Text.Blank

/-! # Masked credentials

    Masking reads a text from the left.  Where a web address begins with credentials, it writes
    three stars and reads on behind them.  Of the letters of a scheme only the first is an h, and
    credentials hold no slash, so that nothing that is masked reaches into a later scheme: the
    text in front of a scheme is masked by itself. -/

namespace Regen

/-! ## Schemes -/

/-- Characters spell letters, in either case. -/
def Spells (letters cs : List Char) : Prop := List.Forall₂ (fun l c => isLetter l c) letters cs

/-- The beginning of a web address. -/
def IsScheme (cs : List Char) : Prop :=
  Spells "https://".toList cs ∨ Spells "http://".toList cs

section schemes
variable {letters cs scheme rest : List Char} {l c : Char}

theorem isLetter_h_iff : isLetter 'h' c ↔ c.toLower = 'h' := by
  simp [isLetter]

theorem eq_h_of_isLetter (h : isLetter 'h' c) : c = 'h' ∨ c = 'H' := by
  rw [isLetter_h_iff] at h
  unfold Char.toLower at h
  split at h
  · have hval : c.val + ('a'.val - 'A'.val) = 'h'.val := congrArg Char.val h
    have hcapital : c.val = 'H'.val := by grind
    exact .inr (Char.ext hcapital)
  · exact .inl h

/-- A character that spells another letter is no h. -/
theorem not_isLetter_h (hl : l ≠ 'h') (h : isLetter l c) : ¬isLetter 'h' c := by
  rw [isLetter_h_iff]
  intro hlower
  simp only [isLetter, Bool.or_eq_true, Bool.and_eq_true, beq_iff_eq] at h
  cases h with
  | inl heq => exact hl (heq.symm.trans hlower)
  | inr hlong =>
    obtain ⟨-, rfl⟩ := hlong
    exact absurd hlower (by decide)

/-- A sign in front of the capital letters is the small form of nothing but itself. -/
theorem eq_of_toLower_sign {sign : Char} (hsign : sign.val < 'A'.val) (h : c.toLower = sign) :
    c = sign := by
  unfold Char.toLower at h
  split at h
  · next hupper =>
    -- A capital letter has its small one 32 places on, and not in front of itself.
    have hval : c.val + ('a'.val - 'A'.val) = sign.val := congrArg Char.val h
    grind
  · exact h

theorem spells_of_lower (h : cs.map Char.toLower = letters) :
    Spells letters cs := by
  subst h
  unfold Spells
  rw [List.forall₂_map_left_iff, List.forall₂_same]
  intro c _
  simp [isLetter]

theorem Spells.exists_letter (h : Spells letters cs) (hc : c ∈ cs) :
    ∃ l ∈ letters, isLetter l c := by
  induction h with
  | nil => cases hc
  | cons hl _ ih =>
    cases hc with
    | head => exact ⟨_, List.mem_cons_self, hl⟩
    | tail _ hmem =>
      obtain ⟨l, hmem, hl⟩ := ih hmem
      exact ⟨l, List.mem_cons_of_mem _ hmem, hl⟩

theorem Spells.char_at (h : Spells letters cs) (i : Nat) (hl : letters[i]? = some l) :
    ∃ c, cs[i]? = some c ∧ isLetter l c := by
  induction h generalizing i with
  | nil => cases hl
  | cons hc _ ih =>
    cases i with
    | zero =>
      obtain rfl := Option.some.inj hl
      exact ⟨_, rfl, hc⟩
    | succ i => exact ih i hl

theorem IsScheme.slash_mem (h : IsScheme scheme) : '/' ∈ scheme := by
  have hchar : ∃ c, scheme[6]? = some c ∧ isLetter '/' c := by
    cases h with
    | inl hspells => exact hspells.char_at 6 rfl
    | inr hspells => exact hspells.char_at 6 rfl
  obtain ⟨c, hat, hc⟩ := hchar
  have hslash : c = '/' := eq_of_toLower_sign (by decide) (by simpa [isLetter] using hc)
  exact hslash ▸ List.mem_of_getElem? hat

theorem IsScheme.at_not_mem (h : IsScheme scheme) : '@' ∉ scheme := by
  have hother : ∀ letters, (letters.all fun l => !isLetter l '@') → Spells letters scheme →
      '@' ∉ scheme := by
    intro letters hnot hspells hmem
    obtain ⟨l, hl, hletter⟩ := hspells.exists_letter hmem
    simpa [hletter] using List.all_eq_true.mp hnot l hl
  cases h with
  | inl hspells => exact hother _ (by decide) hspells
  | inr hspells => exact hother _ (by decide) hspells

/-- Only the first letter of a scheme is an h. -/
theorem IsScheme.eq_cons (h : IsScheme scheme) :
    ∃ c cs, scheme = c :: cs ∧ isLetter 'h' c ∧ ∀ d ∈ cs, ¬isLetter 'h' d := by
  have hother : ∀ letters cs, 'h' ∉ letters → Spells letters cs → ∀ d ∈ cs, ¬isLetter 'h' d := by
    intro letters cs hnot hspells d hd
    obtain ⟨l, hl, hletter⟩ := hspells.exists_letter hd
    exact not_isLetter_h (fun heq => hnot (heq ▸ hl)) hletter
  cases h with
  | inl hspells =>
    obtain ⟨c, cs, hc, hcs, rfl⟩ := List.forall₂_cons_left_iff.mp hspells
    exact ⟨c, cs, rfl, hc, hother _ cs (by decide) hcs⟩
  | inr hspells =>
    obtain ⟨c, cs, hc, hcs, rfl⟩ := List.forall₂_cons_left_iff.mp hspells
    exact ⟨c, cs, rfl, hc, hother _ cs (by decide) hcs⟩

/-! ## Taking from the front -/

theorem takeLetters?_eq_some_iff :
    takeLetters? letters cs = some (scheme, rest) ↔
      cs = scheme ++ rest ∧ Spells letters scheme := by
  induction letters generalizing cs scheme with
  | nil =>
    simp only [takeLetters?, Option.some.injEq, Prod.mk.injEq, Spells, List.forall₂_nil_left_iff]
    constructor
    · intro h
      obtain ⟨rfl, rfl⟩ := h
      simp
    · intro h
      obtain ⟨rfl, rfl⟩ := h
      simp
  | cons l letters ih =>
    cases cs with
    | nil =>
      simp only [takeLetters?, reduceCtorEq, false_iff, not_and]
      intro hnil hspells
      obtain ⟨rfl, -⟩ := List.append_eq_nil_iff.mp hnil.symm
      cases hspells
    | cons c cs =>
      unfold takeLetters?
      split
      · next hl =>
        rw [Option.map_eq_some_iff]
        constructor
        · intro h
          obtain ⟨⟨taken, r⟩, htake, heq⟩ := h
          obtain ⟨rfl, rfl⟩ := Prod.mk.inj heq
          obtain ⟨rfl, hspells⟩ := ih.mp htake
          exact ⟨rfl, .cons hl hspells⟩
        · intro h
          obtain ⟨happ, hspells⟩ := h
          obtain ⟨d, ds, hd, hds, rfl⟩ := List.forall₂_cons_left_iff.mp hspells
          obtain ⟨rfl, rfl⟩ := List.cons.inj happ
          exact ⟨(ds, rest), ih.mpr ⟨rfl, hds⟩, rfl⟩
      · next hl =>
        simp only [reduceCtorEq, false_iff, not_and]
        intro happ hspells
        obtain ⟨d, ds, hd, -, rfl⟩ := List.forall₂_cons_left_iff.mp hspells
        obtain ⟨rfl, -⟩ := List.cons.inj happ
        exact hl hd

/-- The fifth characters tell the two schemes apart. -/
theorem not_spells_both {other behind : List Char} (hplain : Spells "http://".toList scheme)
    (hsecure : Spells "https://".toList other) : scheme ++ rest ≠ other ++ behind := by
  intro heq
  obtain ⟨c, hc, hcolon⟩ : ∃ c, scheme[4]? = some c ∧ isLetter ':' c := hplain.char_at 4 rfl
  obtain ⟨d, hd, hs⟩ : ∃ d, other[4]? = some d ∧ isLetter 's' d := hsecure.char_at 4 rfl
  have hsame : some c = some d := by
    rw [← hc, ← hd, ← List.getElem?_append_left (List.getElem?_eq_some_iff.mp hc).1, heq,
      List.getElem?_append_left (List.getElem?_eq_some_iff.mp hd).1]
  obtain rfl := Option.some.inj hsame
  have hlower : c.toLower = ':' := by simpa [isLetter] using hcolon
  simp only [isLetter, Bool.or_eq_true, Bool.and_eq_true, beq_iff_eq] at hs
  cases hs with
  | inl hletter => exact absurd (hlower.symm.trans hletter) (by decide)
  | inr hlong =>
    obtain ⟨-, rfl⟩ := hlong
    exact absurd hlower (by decide)

theorem takeWebScheme?_eq_some_iff :
    takeWebScheme? cs = some (scheme, rest) ↔ cs = scheme ++ rest ∧ IsScheme scheme := by
  unfold takeWebScheme? IsScheme
  rw [Option.or_eq_some_iff, takeLetters?_eq_some_iff, takeLetters?_eq_some_iff]
  constructor
  · intro h
    cases h with
    | inl hsecure => exact ⟨hsecure.1, .inl hsecure.2⟩
    | inr hplain => exact ⟨hplain.2.1, .inr hplain.2.2⟩
  · intro h
    obtain ⟨rfl, hspells⟩ := h
    cases hspells with
    | inl hsecure => exact .inl ⟨rfl, hsecure⟩
    | inr hplain =>
      refine .inr ⟨?_, rfl, hplain⟩
      by_contra hsome
      obtain ⟨⟨other, behind⟩, hother⟩ := Option.ne_none_iff_exists'.mp hsome
      obtain ⟨heq, hsecure⟩ := takeLetters?_eq_some_iff.mp hother
      exact not_spells_both hplain hsecure heq

/-- Characters that may stand between a scheme and an `@`. -/
def IsInner (cs : List Char) : Prop := cs ≠ [] ∧ '@' ∉ cs ∧ '/' ∉ cs

theorem afterCredentials?_eq_some_iff :
    afterCredentials? cs = some rest ↔ ∃ inner, cs = inner ++ '@' :: rest ∧ IsInner inner := by
  unfold afterCredentials?
  constructor
  · intro h
    dsimp only at h
    split at h
    · next first others tail hinner hrest =>
      obtain rfl := Option.some.inj h
      refine ⟨first :: others, ?_, by simp, ?_, ?_⟩
      · rw [← hinner, ← hrest, List.takeWhile_append_dropWhile]
      · intro hmem
        rw [← hinner] at hmem
        simpa using List.mem_takeWhile_imp hmem
      · intro hmem
        rw [← hinner] at hmem
        simpa using List.mem_takeWhile_imp hmem
    · cases h
  · intro h
    obtain ⟨inner, rfl, hne, hat, hslash⟩ := h
    have hall : ∀ c ∈ inner, (c != '@' && c != '/') = true := by
      intro c hc
      simp only [Bool.and_eq_true, bne_iff_ne, ne_eq]
      exact ⟨fun heq => hat (heq ▸ hc), fun heq => hslash (heq ▸ hc)⟩
    obtain ⟨first, others, rfl⟩ := List.exists_cons_of_ne_nil hne
    simp only [List.takeWhile_append_of_pos hall, List.dropWhile_append_of_pos hall]
    simp

/-- Take a scheme with credentials behind it from the front of a text. -/
def takeLogin? (cs : List Char) : Option (List Char × List Char) :=
  (takeWebScheme? cs).bind fun r => (afterCredentials? r.2).map fun rest => (r.1, rest)

theorem takeLogin?_eq_some_iff :
    takeLogin? cs = some (scheme, rest) ↔
      ∃ inner, cs = scheme ++ (inner ++ '@' :: rest) ∧ IsScheme scheme ∧ IsInner inner := by
  unfold takeLogin?
  rw [Option.bind_eq_some_iff]
  constructor
  · intro h
    obtain ⟨⟨s, r⟩, htake, hafter⟩ := h
    obtain ⟨behind, hbehind, heq⟩ := Option.map_eq_some_iff.mp hafter
    obtain ⟨rfl, rfl⟩ := Prod.mk.inj heq
    obtain ⟨rfl, hscheme⟩ := takeWebScheme?_eq_some_iff.mp htake
    rw [afterCredentials?_eq_some_iff] at hbehind
    obtain ⟨inner, rfl, hinner⟩ := hbehind
    exact ⟨inner, rfl, hscheme, hinner⟩
  · intro h
    obtain ⟨inner, rfl, hscheme, hinner⟩ := h
    refine ⟨_, takeWebScheme?_eq_some_iff.mpr ⟨rfl, hscheme⟩, ?_⟩
    rw [Option.map_eq_some_iff]
    exact ⟨rest, by rw [afterCredentials?_eq_some_iff]; exact ⟨inner, rfl, hinner⟩, rfl⟩

/-- Behind a scheme it hangs on the credentials alone whether anything is taken. -/
theorem takeLogin?_of_scheme (h : IsScheme scheme) :
    takeLogin? (scheme ++ rest) = (afterCredentials? rest).map fun behind => (scheme, behind) := by
  unfold takeLogin?
  rw [takeWebScheme?_eq_some_iff.mpr ⟨rfl, h⟩, Option.bind_some]

end schemes

/-! ## Reading on -/

/-- Mask a text. -/
def mask (cs : List Char) : List Char := maskFrom (cs.length + 1) cs

theorem maskCredentials_eq (s : String) : maskCredentials s = String.ofList (mask s.toList) := by
  unfold maskCredentials mask
  rw [String.length_toList]

section mask
variable {cs scheme rest : List Char} {c : Char}

theorem maskFrom_cons (fuel : Nat) (c : Char) (cs : List Char) :
    maskFrom (fuel + 1) (c :: cs) = match takeLogin? (c :: cs) with
      | some (scheme, rest) => scheme ++ "***@".toList ++ maskFrom fuel rest
      | none => c :: maskFrom fuel cs := by
  rw [maskFrom]
  unfold takeLogin?
  cases takeWebScheme? (c :: cs) with
  | none => rfl
  | some r =>
    dsimp only [Option.bind_some]
    cases afterCredentials? r.2 <;> rfl

theorem length_of_takeLogin? (h : takeLogin? cs = some (scheme, rest)) :
    rest.length < cs.length := by
  rw [takeLogin?_eq_some_iff] at h
  obtain ⟨inner, rfl, -, -⟩ := h
  simp
  omega

/-- Fuel for the whole text is enough. -/
theorem maskFrom_eq_mask {fuel : Nat} (h : cs.length < fuel) : maskFrom fuel cs = mask cs := by
  have hfuel : ∀ (n m : Nat) (cs : List Char), cs.length < n → cs.length < m →
      maskFrom n cs = maskFrom m cs := by
    intro n
    induction n with
    | zero => exact fun _ _ hn => absurd hn (by simp)
    | succ n ih =>
      intro m cs hn hm
      cases cs with
      | nil =>
        cases m <;> rfl
      | cons c cs =>
        obtain ⟨m, rfl⟩ := Nat.exists_eq_add_one_of_ne_zero (Nat.ne_of_gt (Nat.zero_lt_of_lt hm))
        rw [List.length_cons] at hn hm
        rw [maskFrom_cons, maskFrom_cons]
        cases htake : takeLogin? (c :: cs) with
        | none => exact congrArg (c :: ·) (ih m cs (by omega) (by omega))
        | some r =>
          have hshort := length_of_takeLogin? htake
          rw [List.length_cons] at hshort
          exact congrArg (r.1 ++ "***@".toList ++ ·) (ih m r.2 (by omega) (by omega))
  exact hfuel _ _ cs h (Nat.lt_succ_self _)

theorem mask_of_login (h : takeLogin? cs = some (scheme, rest)) :
    mask cs = scheme ++ "***@".toList ++ mask rest := by
  have hshort := length_of_takeLogin? h
  cases cs with
  | nil => cases hshort
  | cons c cs =>
    rw [mask, List.length_cons, maskFrom_cons, h]
    exact congrArg (scheme ++ "***@".toList ++ ·) (maskFrom_eq_mask hshort)

theorem mask_of_none (h : takeLogin? (c :: cs) = none) : mask (c :: cs) = c :: mask cs := by
  rw [mask, List.length_cons, maskFrom_cons, h]
  rfl

/-! ## Parts of a text -/

/-- Characters where no credentials begin stay as they are. -/
theorem mask_append_of_none (front : List Char)
    (h : ∀ before c after, front = before ++ c :: after →
      takeLogin? (c :: (after ++ rest)) = none) :
    mask (front ++ rest) = front ++ mask rest := by
  induction front with
  | nil => rfl
  | cons c front ih =>
    rw [List.cons_append, mask_of_none (h [] c front rfl), ih, List.cons_append]
    intro before d after heq
    exact h (c :: before) d after (by rw [heq, List.cons_append])

/-- In front of an `@` no scheme begins without a slash. -/
theorem takeLogin?_of_no_slash (front : List Char) (h : '/' ∉ front) :
    takeLogin? (front ++ '@' :: rest) = none := by
  by_contra hsome
  obtain ⟨⟨scheme, behind⟩, htake⟩ := Option.ne_none_iff_exists'.mp hsome
  rw [takeLogin?_eq_some_iff] at htake
  obtain ⟨inner, heq, hscheme, -⟩ := htake
  cases List.append_eq_append_iff.mp heq with
  | inl hlong =>
    obtain ⟨more, rfl, hmore⟩ := hlong
    cases more with
    | nil => exact h (by simpa using hscheme.slash_mem)
    | cons c more =>
      obtain ⟨rfl, -⟩ := List.cons.inj hmore
      exact hscheme.at_not_mem (by simp)
  | inr hshort =>
    obtain ⟨more, rfl, -⟩ := hshort
    exact h (List.mem_append_left _ hscheme.slash_mem)

theorem mask_append_at {front : List Char} (h : '/' ∉ front) :
    mask (front ++ '@' :: rest) = front ++ '@' :: mask rest := by
  have hparts : front ++ '@' :: rest = (front ++ ['@']) ++ rest := by simp
  rw [hparts, mask_append_of_none, List.append_assoc, List.singleton_append]
  -- Wherever one begins to read in front of the sign, the sign comes before the next slash.
  intro before c after heq
  cases List.eq_nil_or_concat' after with
  | inl hnil =>
    -- The last character is the sign itself.
    subst hnil
    obtain ⟨-, hc⟩ := List.append_inj' heq rfl
    obtain rfl := List.singleton_inj.mp hc
    exact takeLogin?_of_no_slash [] (by simp)
  | inr hlast =>
    obtain ⟨others, last, rfl⟩ := hlast
    have hfront : front = before ++ c :: others ∧ '@' = last := by
      have hsame : front ++ ['@'] = (before ++ c :: others) ++ [last] := by simpa using heq
      obtain ⟨hfront, hat⟩ := List.append_inj' hsame rfl
      exact ⟨hfront, List.singleton_inj.mp hat⟩
    obtain ⟨rfl, rfl⟩ := hfront
    have hslash : '/' ∉ c :: others := fun hmem => h (List.mem_append_right _ hmem)
    simpa using takeLogin?_of_no_slash _ hslash

/-- A scheme does not begin where an `@` comes before the next slash. -/
theorem IsScheme.append_ne (h : IsScheme scheme) {front behind : List Char} (hslash : '/' ∉ front)
    (hat : '@' ∈ front) : scheme ++ rest ≠ front ++ behind := by
  intro heq
  cases List.append_eq_append_iff.mp heq with
  | inl hlong =>
    obtain ⟨more, rfl, -⟩ := hlong
    exact hslash (List.mem_append_left _ h.slash_mem)
  | inr hshort =>
    obtain ⟨more, rfl, -⟩ := hshort
    exact h.at_not_mem (List.mem_append_left _ hat)

/-- A scheme does not begin inside another one. -/
theorem IsScheme.append_ne_inside (h : IsScheme scheme) {front more behind : List Char}
    (hne : front ≠ []) (hmore : more ≠ []) (hother : IsScheme (front ++ more)) :
    scheme ++ rest ≠ more ++ behind := by
  intro heq
  obtain ⟨c, cs, rfl, hc, -⟩ := h.eq_cons
  obtain ⟨d, ds, hd, -, hrest⟩ := hother.eq_cons
  obtain ⟨f, fs, rfl⟩ := List.exists_cons_of_ne_nil hne
  obtain ⟨m, ms, rfl⟩ := List.exists_cons_of_ne_nil hmore
  obtain ⟨rfl, -⟩ := List.cons.inj heq
  obtain ⟨-, rfl⟩ := List.cons.inj hd
  exact hrest c (by simp) hc

/-- What is taken in front of a scheme lies there as a whole. -/
theorem takeLogin?_append_scheme {front : List Char} (h : IsScheme scheme) (hne : front ≠ [])
    (hnone : takeLogin? front = none) : takeLogin? (front ++ (scheme ++ rest)) = none := by
  by_contra hsome
  obtain ⟨⟨other, behind⟩, htake⟩ := Option.ne_none_iff_exists'.mp hsome
  obtain ⟨inner, heq, hother, hinner⟩ := takeLogin?_eq_some_iff.mp htake
  have hwhole : ∀ more, front ≠ other ++ (inner ++ '@' :: more) := by
    intro more hfront
    have hfound := takeLogin?_eq_some_iff.mpr ⟨inner, hfront, hother, hinner⟩
    cases hnone.symm.trans hfound
  -- What ends with the sign and holds no slash is not where a scheme begins.
  have hinside : ∀ p m, inner ++ ['@'] = p ++ m → m ≠ [] → scheme ++ rest ≠ m ++ behind := by
    intro p m hparts hm
    refine h.append_ne ?_ ?_
    · intro hslash
      have hmem : '/' ∈ inner ++ ['@'] := hparts ▸ List.mem_append_right p hslash
      simp [hinner.2.2] at hmem
    · obtain ⟨others, last, rfl⟩ := (List.eq_nil_or_concat' m).resolve_left hm
      rw [← List.append_assoc] at hparts
      obtain ⟨-, hlast⟩ := List.append_inj' hparts rfl
      simp [← List.singleton_inj.mp hlast]
  have hparts : front ++ (scheme ++ rest) = other ++ ((inner ++ ['@']) ++ behind) := by
    simpa using heq
  cases List.append_eq_append_iff.mp hparts with
  | inl hlong =>
    -- The text in front ends within the other scheme or right behind it.
    obtain ⟨p, rfl, hrest⟩ := hlong
    cases p with
    | nil => exact hinside [] _ rfl (by simp) hrest
    | cons c p => exact h.append_ne_inside hne (List.cons_ne_nil c p) hother hrest
  | inr hshort =>
    obtain ⟨p, rfl, hrest⟩ := hshort
    cases List.append_eq_append_iff.mp hrest with
    | inl hbehind =>
      obtain ⟨more, rfl, -⟩ := hbehind
      exact hwhole more (by simp)
    | inr hwithin =>
      obtain ⟨m, hm, hscheme⟩ := hwithin
      by_cases hnil : m = []
      · subst hnil
        exact hwhole [] (by rw [← List.append_nil p, ← hm])
      · exact hinside p m hm hnil hscheme

/-- **A text may be parted in front of a scheme**: what is masked in front of it does not reach
    into it. -/
theorem mask_append_scheme (before : List Char) (h : IsScheme scheme) :
    mask (before ++ (scheme ++ rest)) = mask before ++ mask (scheme ++ rest) := by
  -- Masking goes on behind what it took, so the induction is on the length.
  induction hn : before.length using Nat.strong_induction_on generalizing before with
  | h n ih =>
    cases before with
    | nil => rfl
    | cons c before =>
      cases htake : takeLogin? (c :: before) with
      | none =>
        have hnone : takeLogin? (c :: before ++ (scheme ++ rest)) = none :=
          takeLogin?_append_scheme h (List.cons_ne_nil c before) htake
        have hshort := ih before.length (by simp [← hn]) before rfl
        rw [List.cons_append] at hnone ⊢
        rw [mask_of_none htake, mask_of_none hnone, hshort, List.cons_append]
      | some r =>
        obtain ⟨other, behind⟩ := r
        obtain ⟨inner, heq, hother, hinner⟩ := takeLogin?_eq_some_iff.mp htake
        have hsome : takeLogin? (c :: before ++ (scheme ++ rest)) =
            some (other, behind ++ (scheme ++ rest)) :=
          takeLogin?_eq_some_iff.mpr ⟨inner, by simp [heq], hother, hinner⟩
        have hshort := ih behind.length (hn ▸ length_of_takeLogin? htake) behind rfl
        rw [mask_of_login htake, mask_of_login hsome, hshort, List.append_assoc _ (mask behind)]

/-! ## User information -/

/-- What masking leaves of the user information of a web address: three stars stand for what comes
    before its first `@`.  If nothing comes before it, all is left. -/
def shownInfo (info : List Char) : List Char :=
  if info.head? = some '@' then info else "***".toList ++ info.dropWhile (· != '@')

theorem takeLogin?_of_not_h (h : ¬isLetter 'h' c) : takeLogin? (c :: cs) = none := by
  by_contra hsome
  obtain ⟨⟨scheme, behind⟩, htake⟩ := Option.ne_none_iff_exists'.mp hsome
  obtain ⟨inner, heq, hscheme, -⟩ := takeLogin?_eq_some_iff.mp htake
  obtain ⟨d, ds, rfl, hd, -⟩ := hscheme.eq_cons
  obtain ⟨rfl, -⟩ := List.cons.inj heq
  exact h hd

/-- A text is parted at its first `@`. -/
theorem exists_first_at (info : List Char) :
    ∃ inner behind, info = inner ++ behind ∧ '@' ∉ inner ∧
      (behind = [] ∨ ∃ more, behind = '@' :: more) ∧ info.dropWhile (· != '@') = behind := by
  refine ⟨_, _, (List.takeWhile_append_dropWhile (p := (· != '@'))).symm, ?_, ?_, rfl⟩
  · intro hmem
    simpa using List.mem_takeWhile_imp hmem
  · cases hdrop : info.dropWhile (· != '@') with
    | nil => exact .inl rfl
    | cons c more =>
      have hhead := List.head?_dropWhile_not (· != '@') info
      rw [hdrop] at hhead
      obtain rfl : c = '@' := by simpa using hhead
      exact .inr ⟨more, rfl⟩

/-- **Of user information is left what `shownInfo` says**; masking reads on behind it. -/
theorem mask_info {info : List Char} (h : IsScheme scheme) (hne : info ≠ []) (hslash : '/' ∉ info) :
    mask (scheme ++ (info ++ '@' :: rest)) = scheme ++ (shownInfo info ++ '@' :: mask rest) := by
  unfold shownInfo
  by_cases hhead : info.head? = some '@'
  · rw [if_pos hhead]
    obtain ⟨others, rfl⟩ : ∃ others, info = '@' :: others := by
      cases info with
      | nil => cases hhead
      | cons c others => exact ⟨others, by rw [Option.some.inj hhead]⟩
    have hnone : takeLogin? (scheme ++ ('@' :: others ++ '@' :: rest)) = none := by
      rw [takeLogin?_of_scheme h]
      rfl
    obtain ⟨c, cs, rfl, -, hcs⟩ := h.eq_cons
    have htail : ∀ before d after, cs = before ++ d :: after →
        takeLogin? (d :: (after ++ ('@' :: others ++ '@' :: rest))) = none :=
      fun before d after heq => takeLogin?_of_not_h (hcs d (by simp [heq]))
    rw [List.cons_append] at hnone ⊢
    rw [mask_of_none hnone, mask_append_of_none cs htail, mask_append_at hslash]
    simp
  · rw [if_neg hhead]
    obtain ⟨inner, behind, hinfo, hat, hbehind, hdrop⟩ := exists_first_at info
    have hinner : IsInner inner := by
      refine ⟨?_, hat, fun hmem => hslash (hinfo ▸ List.mem_append_left _ hmem)⟩
      intro hempty
      subst hempty
      cases hbehind with
      | inl hnil => exact hne (by simp [hinfo, hnil])
      | inr hmore =>
        obtain ⟨more, hmore⟩ := hmore
        exact hhead (by simp [hinfo, hmore])
    rw [hdrop]
    subst hinfo
    cases hbehind with
    | inl hnil =>
      subst hnil
      rw [List.append_nil, mask_of_login (takeLogin?_eq_some_iff.mpr ⟨inner, rfl, h, hinner⟩)]
      simp
    | inr hmore =>
      obtain ⟨more, rfl⟩ := hmore
      have hmore : '/' ∉ more := fun hmem => hslash (by simp [hmem])
      have htake : takeLogin? (scheme ++ (inner ++ '@' :: more ++ '@' :: rest)) =
          some (scheme, more ++ '@' :: rest) :=
        takeLogin?_eq_some_iff.mpr ⟨inner, by simp, h, hinner⟩
      rw [mask_of_login htake, mask_append_at hmore]
      simp

/-- The user information is masked as a whole exactly if it holds no `@`. -/
theorem shownInfo_eq_stars_iff {info : List Char} :
    shownInfo info = "***".toList ↔ '@' ∉ info := by
  obtain ⟨inner, behind, rfl, hat, hbehind, hdrop⟩ := exists_first_at info
  unfold shownInfo
  rw [hdrop]
  cases hbehind with
  | inl hnil =>
    subst hnil
    rw [List.append_nil, if_neg fun hhead => hat (List.mem_of_head? hhead)]
    simp [hat]
  | inr hmore =>
    obtain ⟨more, rfl⟩ := hmore
    have hmem : '@' ∈ inner ++ '@' :: more := by simp
    simp only [hmem, not_true_eq_false, iff_false]
    split
    · intro hstars
      exact absurd (hstars ▸ hmem) (by decide)
    · simp

end mask

end Regen
