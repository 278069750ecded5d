import Regen.Proofs.Outcome
import Regen.Proofs.Yaml.Plain

/-! # Quoted scalars both ways

    Between single quotes a quote is written twice, a line end is written twice where one alone
    would be folded, and a line that was folded at a single space is read as that space again.
    Next line is the one character that does not come back: it is written as it is, and counts as
    a line feed to the reader. -/

namespace Regen.Yaml

/-! ## Reading between quotes -/

/-- What stands in front between quotes, and the place behind it. -/
def quotedFront (double : Bool) (c : Cursor) (ch : Char) : Except ReadError (List Char × Cursor) :=
  if isSpaceOrTab ch || isBreak ch then quotedBlanks c
  else if double && ch == '\\' then escape c.next
  else if !double && ch == '\'' then pure ([ch], c.skip 2)
  else if isOrdinary ch then pure (c.span isOrdinary)
  else pure ([ch], c.next)

/-- Is this the closing quote? -/
def closesQuote (double : Bool) (ch : Char) (rest : List Char) : Bool :=
  ch == (if double then '"' else '\'') && (double || rest.head? != some '\'')

section reading
variable {double : Bool} {fuel : Nat} {c c' e : Cursor} {ch : Char} {rest cs taken : List Char}

theorem quotedBody_close (h : c.rest = ch :: rest) (hclose : closesQuote double ch rest = true) :
    quotedBody double (fuel + 1) c = .ok ([], c.next) := by
  rw [quotedBody]
  split
  · next hnil =>
    rw [h] at hnil
    cases hnil
  · next hc =>
    obtain ⟨rfl, rfl⟩ := List.cons.inj (h.symm.trans hc)
    rw [closesQuote] at hclose
    rw [if_pos hclose]

theorem quotedBody_front (h : c.rest = ch :: rest) (hopen : closesQuote double ch rest = false) :
    quotedBody double (fuel + 1) c = (do
      let (front, c) ← quotedFront double c ch
      let (text, c) ← quotedBody double fuel c
      pure (front ++ text, c)) := by
  rw [quotedBody]
  split
  · next hnil =>
    rw [h] at hnil
    cases hnil
  · next hc =>
    obtain ⟨rfl, rfl⟩ := List.cons.inj (h.symm.trans hc)
    rw [closesQuote] at hopen
    rw [if_neg (Bool.eq_false_iff.mp hopen)]
    unfold quotedFront
    split
    · rfl
    split
    · rfl
    split
    · rfl
    split
    · rfl
    · rfl

/-- More fuel changes nothing. -/
theorem quotedBody_succ {r : List Char × Cursor} (h : quotedBody double fuel c = .ok r) :
    quotedBody double (fuel + 1) c = .ok r := by
  induction fuel generalizing c r with
  | zero => cases h
  | succ fuel ih =>
    match hc : c.rest with
    | [] =>
      rw [quotedBody, hc] at h
      cases h
    | ch :: rest =>
      by_cases hclose : closesQuote double ch rest = true
      · rw [quotedBody_close hc hclose] at h ⊢
        exact h
      · rw [quotedBody_front hc (by simpa using hclose)] at h ⊢
        obtain ⟨⟨front, c'⟩, hfront, h⟩ := bind_eq_ok.mp h
        obtain ⟨⟨text, e⟩, htext, h⟩ := bind_eq_ok.mp h
        exact bind_eq_ok.mpr ⟨_, hfront, bind_eq_ok.mpr ⟨_, ih htext, h⟩⟩

/-- **From a place on, a text stands between quotes**, up to a place behind the closing one. -/
def ReadsQuoted (double : Bool) (c : Cursor) (cs : List Char) (e : Cursor) : Prop :=
  ∀ fuel, c.remaining < fuel → quotedBody double fuel c = .ok (cs, e)

theorem ReadsQuoted.close (h : c.rest = ch :: rest) (hclose : closesQuote double ch rest = true) :
    ReadsQuoted double c [] c.next := by
  intro fuel hfuel
  match fuel, hfuel with
  | fuel + 1, _ => exact quotedBody_close h hclose

theorem ReadsQuoted.front (h : c.rest = ch :: rest) (hopen : closesQuote double ch rest = false)
    (hfront : quotedFront double c ch = .ok (taken, c')) (hless : c'.remaining < c.remaining)
    (hreads : ReadsQuoted double c' cs e) : ReadsQuoted double c (taken ++ cs) e := by
  intro fuel hfuel
  match fuel, hfuel with
  | fuel + 1, hfuel =>
    rw [quotedBody_front h hopen, hfront]
    exact bind_eq_ok.mpr ⟨_, rfl, bind_eq_ok.mpr ⟨_, hreads fuel (by omega), rfl⟩⟩

theorem remaining_next (h : c.rest = ch :: rest) : c.remaining = c.next.remaining + 1 := by
  rw [c.remaining_eq, c.next.remaining_eq, Cursor.rest_next_of h, h, List.length_cons]

theorem isOrdinary_iff : isOrdinary ch = true ↔
    ch ≠ '\'' ∧ ch ≠ '"' ∧ ch ≠ '\\' ∧ isSpaceOrTab ch = false ∧ isBreak ch = false := by
  simp only [isOrdinary, Bool.not_eq_true', Bool.or_eq_false_iff, beq_eq_false_iff_ne]
  tauto

theorem closesQuote_of_isOrdinary (double : Bool) (h : isOrdinary ch = true) (rest : List Char) :
    closesQuote double ch rest = false := by
  rw [isOrdinary_iff] at h
  obtain ⟨hsingle, hdouble, -⟩ := h
  cases double <;> simp [closesQuote, hsingle, hdouble]

/-- Where a character is read with more behind it, what is read from the next character on is read
    from here with it in front. -/
theorem ReadsQuoted.longer {d : Char} (h : c.rest = ch :: d :: rest)
    (hopen : closesQuote double ch (d :: rest) = false) (hopen' : closesQuote double d rest = false)
    (hfront : quotedFront double c ch = .ok (ch :: taken, c'))
    (hfront' : quotedFront double c.next d = .ok (taken, c'))
    (hreads : ReadsQuoted double c.next cs e) : ReadsQuoted double c (ch :: cs) e := by
  have hnext := Cursor.rest_next_of h
  intro fuel hfuel
  have hremaining := remaining_next h
  have hremaining' := remaining_next hnext
  match fuel, hfuel with
  | fuel + 2, hfuel =>
    have hnow := hreads (fuel + 1) (by omega)
    rw [quotedBody_front hnext hopen', hfront'] at hnow
    obtain ⟨_, htaken, hnow⟩ := bind_eq_ok.mp hnow
    obtain rfl := Except.ok.inj htaken
    obtain ⟨⟨text, e'⟩, htext, hnow⟩ := bind_eq_ok.mp hnow
    obtain ⟨rfl, rfl⟩ := Prod.mk.inj (Except.ok.inj hnow)
    rw [quotedBody_front h hopen, hfront]
    exact bind_eq_ok.mpr ⟨_, rfl, bind_eq_ok.mpr ⟨_, quotedBody_succ htext, rfl⟩⟩
  | 1, hfuel => omega

/-- Ordinary characters are read together. -/
theorem quotedFront_ordinary (double : Bool) (h : c.rest = ch :: rest)
    (hordinary : isOrdinary ch = true) :
    quotedFront double c ch =
      .ok (ch :: rest.takeWhile isOrdinary, c.next.skip (rest.takeWhile isOrdinary).length) := by
  obtain ⟨hsingle, -, hbackslash, hblank, hbreak⟩ := Iff.mp isOrdinary_iff hordinary
  simp only [quotedFront, hblank, hbreak, hordinary, Bool.or_false, Bool.false_eq_true, if_false,
    if_true, beq_eq_false_iff_ne.mpr hbackslash, beq_eq_false_iff_ne.mpr hsingle, Bool.and_false,
    Cursor.span, h, List.takeWhile_cons]
  rfl

/-- An ordinary character is read with all ordinary ones behind it. -/
theorem ReadsQuoted.ordinary (h : c.rest = ch :: rest) (hordinary : isOrdinary ch = true)
    (hreads : ReadsQuoted double c.next cs e) : ReadsQuoted double c (ch :: cs) e := by
  have hopen := closesQuote_of_isOrdinary double hordinary rest
  have hfront := quotedFront_ordinary double h hordinary
  have hnext := Cursor.rest_next_of h
  match rest with
  | [] =>
    -- Nothing is left to be read.
    have hnone := hreads (c.next.remaining + 1) (Nat.lt_succ_self _)
    rw [quotedBody, hnext] at hnone
    cases hnone
  | d :: more =>
    by_cases hd : isOrdinary d = true
    · have hfront' := quotedFront_ordinary double hnext hd
      rw [List.takeWhile_cons, if_pos hd] at hfront
      exact .longer h hopen (closesQuote_of_isOrdinary double hd more) hfront hfront' hreads
    · have hnone : (d :: more).takeWhile isOrdinary = [] := by simp [hd]
      rw [hnone] at hfront
      exact .front h hopen hfront (by rw [remaining_next h]; exact Nat.lt_succ_self _) hreads

/-- A character that is no quote, no backslash and no blank is read as itself. -/
theorem ReadsQuoted.plain (h : c.rest = ch :: rest) (hopen : closesQuote double ch rest = false)
    (hblank : isSpaceOrTab ch = false) (hbreak : isBreak ch = false)
    (hescape : double = true → ch ≠ '\\') (hquote : double = false → ch ≠ '\'')
    (hreads : ReadsQuoted double c.next cs e) : ReadsQuoted double c (ch :: cs) e := by
  by_cases hordinary : isOrdinary ch = true
  · exact .ordinary h hordinary hreads
  · have hescape' : (double && ch == '\\') = false := by
      cases double <;> simp_all
    have hquote' : (!double && ch == '\'') = false := by
      cases double <;> simp_all
    have hfront : quotedFront double c ch = .ok ([ch], c.next) := by
      simp only [quotedFront, hblank, hbreak, hescape', hquote', hordinary, Bool.or_false,
        Bool.false_eq_true, if_false]
      rfl
    exact .front h hopen hfront (by rw [remaining_next h]; exact Nat.lt_succ_self _) hreads

end reading

/-! ## Blanks and line ends between quotes -/

/-- What follows goes on with no blank and no line end. -/
def GoesOn (cs : List Char) : Prop :=
  ∃ c rest, cs = c :: rest ∧ isSpaceOrTab c = false ∧ isBreak c = false

theorem span_spaces {n : Nat} {c : Cursor} {rest : List Char}
    (h : c.rest = List.replicate n ' ' ++ rest)
    (hrest : ∀ x ∈ rest.head?, isSpaceOrTab x = false) :
    c.span isSpaceOrTab = (List.replicate n ' ', c.skip n) ∧ (c.skip n).rest = rest := by
  have hspan := Cursor.span_of (p := isSpaceOrTab) h (by
    intro x hx
    rw [List.eq_of_mem_replicate hx]
    rfl) hrest
  have hbehind := Cursor.rest_skip_of h
  rw [List.length_replicate] at hspan hbehind
  exact ⟨hspan, hbehind⟩

/-- Spaces inside a line are kept. -/
theorem quotedBlanks_spaces {n : Nat} {c : Cursor} {rest : List Char}
    (h : c.rest = List.replicate n ' ' ++ rest) (hrest : GoesOn rest) :
    quotedBlanks c = .ok (List.replicate n ' ', c.skip n) := by
  obtain ⟨x, more, rfl, hblank, hbreak⟩ := hrest
  obtain ⟨hspan, hbehind⟩ := span_spaces h (by simpa using hblank)
  have hnone : (c.skip n).lineBreak? = none :=
    Cursor.lineBreak?_eq_none (by simpa [hbehind] using hbreak)
  have hsome : (c.skip n).rest.isEmpty = false := by rw [hbehind]; rfl
  simp only [quotedBlanks, hspan, hnone, hsome, Bool.false_eq_true, if_false]

theorem not_atDocumentMark {c : Cursor} {ch : Char} {rest : List Char} (h : c.rest = ch :: rest)
    (hch : ch ≠ '-' ∧ ch ≠ '.') : c.atDocumentMark = false := by
  simp [Cursor.atDocumentMark, Cursor.atMark, h, hch]

/-- Line ends behind a first one are kept, and the indentation behind them is skipped. -/
theorem quotedBreaks_read {bs rest : List Char} {m fuel : Nat} {c : Cursor}
    (h : c.rest = bs ++ (List.replicate m ' ' ++ rest)) (hm : 0 < m)
    (hbs : ∀ b ∈ bs, isBreak b = true ∧ b ≠ '\u0085') (hrest : GoesOn rest)
    (hfuel : bs.length < fuel) :
    quotedBreaks fuel c = .ok (bs, c.skip (bs.length + m)) := by
  induction bs generalizing c fuel with
  | nil =>
    match fuel, hfuel, m, hm with
    | fuel + 1, _, m + 1, _ =>
      obtain ⟨x, more, rfl, hblank, hbreak⟩ := hrest
      rw [List.nil_append] at h
      have hmark : c.atDocumentMark = false :=
        not_atDocumentMark (h : c.rest = ' ' :: (List.replicate m ' ' ++ x :: more)) (by decide)
      obtain ⟨hspan, hbehind⟩ := span_spaces h (by simpa using hblank)
      have hnone : (c.skip (m + 1)).lineBreak? = none :=
        Cursor.lineBreak?_eq_none (by simpa [hbehind] using hbreak)
      simp only [quotedBreaks, hmark, Bool.false_eq_true, if_false, Cursor.skipWhile, hspan, hnone,
        List.length_nil, Nat.zero_add]
  | cons b bs ih =>
    match fuel, hfuel with
    | fuel + 1, hfuel =>
      obtain ⟨hb, hmark'⟩ := hbs b List.mem_cons_self
      have hhead : b ≠ '-' ∧ b ≠ '.' ∧ isSpaceOrTab b = false := by
        refine ⟨?_, ?_, ?_⟩
        · rintro rfl
          exact absurd hb (by decide)
        · rintro rfl
          exact absurd hb (by decide)
        · by_contra hblank
          simp only [isSpaceOrTab, Bool.not_eq_false, Bool.or_eq_true, beq_iff_eq] at hblank
          rcases hblank with rfl | rfl
          · exact absurd hb (by decide)
          · exact absurd hb (by decide)
      rw [List.cons_append] at h
      have hmark : c.atDocumentMark = false := not_atDocumentMark h ⟨hhead.1, hhead.2.1⟩
      have hspan : c.span isSpaceOrTab = ([], c) :=
        Cursor.span_of (t := []) h (by simp) (by simpa using hhead.2.2)
      have hbreak : c.lineBreak? = some (b, c.next) := by
        rw [Cursor.lineBreak?_of_break h hb, if_neg (by simpa using hmark')]
      have hfuel' : bs.length < fuel := by
        rw [List.length_cons] at hfuel
        omega
      have hmore := ih (Cursor.rest_next_of h) (fun d hd => hbs d (List.mem_cons_of_mem _ hd))
        hfuel'
      rw [quotedBreaks]
      simp only [hmark, Bool.false_eq_true, if_false, Cursor.skipWhile, hspan, hbreak, hmore]
      have hskip : (b :: bs).length + m = bs.length + m + 1 := by
        rw [List.length_cons]
        omega
      rw [hskip]
      rfl

/-- A first line end is kept if it is no line feed; one line feed alone is a space. -/
theorem quotedBlanks_breaks {b : Char} {bs rest : List Char} {m : Nat} {c : Cursor}
    (h : c.rest = b :: (bs ++ (List.replicate m ' ' ++ rest))) (hm : 0 < m)
    (hb : isBreak b = true ∧ b ≠ '\u0085') (hbs : ∀ d ∈ bs, isBreak d = true ∧ d ≠ '\u0085')
    (hrest : GoesOn rest) :
    quotedBlanks c = .ok ((if b != '\n' then [b] else if bs.isEmpty then [' '] else []) ++ bs,
      c.skip (1 + bs.length + m)) := by
  have hblank : isSpaceOrTab b = false := by
    by_contra hblank
    simp only [isSpaceOrTab, Bool.not_eq_false, Bool.or_eq_true, beq_iff_eq] at hblank
    rcases hblank with rfl | rfl
    · exact absurd hb.1 (by decide)
    · exact absurd hb.1 (by decide)
  have hspan : c.span isSpaceOrTab = ([], c) :=
    Cursor.span_of (t := []) h (by simp) (by simpa using hblank)
  have hbreak : c.lineBreak? = some (b, c.next) := by
    rw [Cursor.lineBreak?_of_break h hb.1, if_neg (by simpa using hb.2)]
  have hnext := Cursor.rest_next_of h
  have hfuel : bs.length < c.next.remaining + 1 := by
    rw [c.next.remaining_eq, hnext]
    simp only [List.length_append]
    omega
  have hmore := quotedBreaks_read hnext hm hbs hrest hfuel
  simp only [quotedBlanks, hspan, hbreak, hmore]
  have hskip : 1 + bs.length + m = bs.length + m + 1 := by omega
  rw [hskip]
  rfl

/-- Blanks in front are read before what is read behind them. -/
theorem ReadsQuoted.blanks {double : Bool} {c c' e : Cursor} {ch : Char} {rest cs taken : List Char}
    (h : c.rest = ch :: rest) (hblank : isSpaceOrTab ch = true ∨ isBreak ch = true)
    (htaken : quotedBlanks c = .ok (taken, c')) (hless : c'.remaining < c.remaining)
    (hreads : ReadsQuoted double c' cs e) : ReadsQuoted double c (taken ++ cs) e := by
  have hopen : closesQuote double ch rest = false := by
    have hquote : ch ≠ '"' ∧ ch ≠ '\'' := by
      constructor <;> (rintro rfl; exact absurd hblank (by decide))
    cases double <;> simp [closesQuote, hquote]
  have hfront : quotedFront double c ch = .ok (taken, c') := by
    rw [quotedFront, if_pos (by simpa using hblank)]
    exact htaken
  exact .front h hopen hfront hless hreads

section blanks
variable {double : Bool} {c e : Cursor} {rest cs : List Char}

theorem remaining_skip_lt {n : Nat} (hn : 0 < n) (hle : n ≤ c.remaining) :
    (c.skip n).remaining < c.remaining := by
  rw [Cursor.remaining_eq, Cursor.rest_skip, List.length_drop, ← c.remaining_eq]
  omega

theorem readsQuoted_spaces {n : Nat} (hn : 0 < n) (h : c.rest = List.replicate n ' ' ++ rest)
    (hrest : GoesOn rest)
    (hreads : ReadsQuoted double (c.skip (List.replicate n ' ').length) cs e) :
    ReadsQuoted double c (List.replicate n ' ' ++ cs) e := by
  rw [List.length_replicate] at hreads
  have hblanks := quotedBlanks_spaces h hrest
  have hless : (c.skip n).remaining < c.remaining := by
    refine remaining_skip_lt hn ?_
    rw [c.remaining_eq, h]
    simp
  match n, hn with
  | n + 1, _ => exact .blanks (h : c.rest = ' ' :: _) (.inl rfl) hblanks hless hreads

theorem readsQuoted_fold {m : Nat} (hm : 0 < m)
    (h : c.rest = '\n' :: List.replicate m ' ' ++ rest) (hrest : GoesOn rest)
    (hreads : ReadsQuoted double (c.skip ('\n' :: List.replicate m ' ').length) cs e) :
    ReadsQuoted double c (' ' :: cs) e := by
  have hfeed : isBreak '\n' = true ∧ '\n' ≠ '\u0085' := by decide
  have hnone : ∀ d ∈ ([] : List Char), isBreak d = true ∧ d ≠ '\u0085' :=
    fun _ h => absurd h List.not_mem_nil
  have hblanks := quotedBlanks_breaks
    (show c.rest = '\n' :: ([] ++ (List.replicate m ' ' ++ rest)) from h) hm hfeed hnone hrest
  have hlength : ('\n' :: List.replicate m ' ').length = 1 + ([] : List Char).length + m := by
    simp [Nat.add_comm]
  rw [hlength] at hreads
  refine .blanks h (.inr rfl) hblanks (remaining_skip_lt (by omega) ?_) hreads
  rw [c.remaining_eq, h, List.length_append, hlength]
  omega

/-- What a pen writes for line ends between quotes. -/
def quotedBreaksText (indent : Nat) (bs : List Char) : List Char :=
  (if bs.head? == some '\n' then ['\n'] else []) ++ (bs ++ List.replicate indent ' ')

theorem readsQuoted_breaks {bs : List Char} {m : Nat} (hne : bs ≠ []) (hm : 0 < m)
    (hbs : ∀ b ∈ bs, isBreak b = true ∧ b ≠ '\u0085')
    (h : c.rest = quotedBreaksText m bs ++ rest) (hrest : GoesOn rest)
    (hreads : ReadsQuoted double (c.skip (quotedBreaksText m bs).length) cs e) :
    ReadsQuoted double c (bs ++ cs) e := by
  match bs, hne with
  | b :: bs, _ =>
    have hless : (c.skip (quotedBreaksText m (b :: bs)).length).remaining < c.remaining := by
      refine remaining_skip_lt ?_ ?_
      · simp only [quotedBreaksText, List.length_append, List.length_cons]
        omega
      · rw [c.remaining_eq, h, List.length_append]
        omega
    by_cases hfeed : b = '\n'
    · -- The line feed that stands first is written twice, and the first of the two is dropped.
      subst hfeed
      have htext : quotedBreaksText m ('\n' :: bs) =
          '\n' :: ('\n' :: bs ++ List.replicate m ' ') := rfl
      have hfeed : isBreak '\n' = true ∧ '\n' ≠ '\u0085' := by decide
      have hsplit : c.rest = '\n' :: ('\n' :: bs ++ (List.replicate m ' ' ++ rest)) := by
        rw [h, htext]
        simp
      have hblanks := quotedBlanks_breaks hsplit hm hfeed hbs hrest
      have hlength : (quotedBreaksText m ('\n' :: bs)).length =
          1 + ('\n' :: bs).length + m := by
        rw [htext]
        simp only [List.length_cons, List.length_append, List.length_replicate]
        omega
      rw [hlength] at hreads hless
      exact .blanks (h : c.rest = '\n' :: _) (.inr rfl) hblanks hless hreads
    · have htext : quotedBreaksText m (b :: bs) = b :: bs ++ List.replicate m ' ' := by
        simp [quotedBreaksText, hfeed]
      have hsplit : c.rest = b :: (bs ++ (List.replicate m ' ' ++ rest)) := by
        rw [h, htext]
        simp
      have hblanks := quotedBlanks_breaks hsplit hm (hbs b List.mem_cons_self)
        (fun d hd => hbs d (List.mem_cons_of_mem _ hd)) hrest
      rw [if_pos (by simpa using hfeed)] at hblanks
      have hlength : (quotedBreaksText m (b :: bs)).length = 1 + bs.length + m := by
        rw [htext]
        simp only [List.length_cons, List.length_append, List.length_replicate]
        omega
      rw [hlength] at hreads hless
      have hhead : c.rest = b :: (bs ++ List.replicate m ' ' ++ rest) := by rw [h, htext]; rfl
      exact .blanks hhead (.inr (hbs b List.mem_cons_self).1) hblanks hless hreads

end blanks

/-! ## Single quotes -/

/-- What a text that may stand between single quotes, and comes back, looks like. -/
structure IsSingle (cs : List Char) : Prop where
  writable : ∀ c ∈ cs, isWritable c = true
  noNextLine : '\u0085' ∉ cs
  spaces : adjacent (· == ' ') isBreak cs = false
  breaks : adjacent isBreak (· == ' ') cs = false

theorem isSingle_of_allowsSingleQuotes {cs : List Char} (h : (analyze cs).allowsSingleQuotes = true)
    (hmark : '\u0085' ∉ cs) : IsSingle cs := by
  by_cases hne : cs = []
  · subst hne
    exact ⟨fun _ h => absurd h List.not_mem_nil, hmark, rfl, rfl⟩
  · unfold analyze at h
    rw [if_neg (by simpa using hne)] at h
    simp only [Bool.and_eq_true, Bool.not_eq_true', Bool.or_eq_false_iff, List.any_eq_false] at h
    obtain ⟨hbreaks, hspecial, hspaces⟩ := h
    exact ⟨fun c hc => by simpa using hspecial c hc, hmark, hspaces, hbreaks⟩

/-- A word between single quotes, with its quotes doubled. -/
def doubledQuotes (w : List Char) : List Char :=
  w.flatMap fun c => if c == '\'' then ['\'', '\''] else [c]

theorem mem_doubledQuotes {w : List Char} {c : Char} (h : c ∈ doubledQuotes w) : c ∈ w := by
  obtain ⟨d, hd, hc⟩ := List.mem_flatMap.mp h
  split at hc
  · next hquote =>
    obtain rfl := eq_of_beq hquote
    have hc : c = '\'' := by simpa using hc
    exact hc ▸ hd
  · have hc : c = d := by simpa using hc
    exact hc ▸ hd

/-- **A word between single quotes is read as it was written.** -/
theorem readsQuoted_word {w rest cs : List Char} {c e : Cursor}
    (hw : ∀ x ∈ w, isSpaceOrTab x = false ∧ isBreak x = false)
    (h : c.rest = doubledQuotes w ++ rest)
    (hreads : ReadsQuoted false (c.skip (doubledQuotes w).length) cs e) :
    ReadsQuoted false c (w ++ cs) e := by
  induction w generalizing c with
  | nil => exact hreads
  | cons x w ih =>
    have hw' := fun y hy => hw y (List.mem_cons_of_mem x hy)
    obtain ⟨hblank, hbreak⟩ := hw x List.mem_cons_self
    by_cases hquote : x = '\''
    · subst hquote
      have hdoubled : doubledQuotes ('\'' :: w) = '\'' :: '\'' :: doubledQuotes w := rfl
      rw [hdoubled] at h hreads
      have hnext := Cursor.rest_next_of (Cursor.rest_next_of h)
      have hmore : ReadsQuoted false (c.skip 2) (w ++ cs) e := ih hw' hnext hreads
      show ReadsQuoted false c (['\''] ++ (w ++ cs)) e
      refine .front h rfl (rfl : quotedFront false c '\'' = .ok (['\''], c.skip 2)) ?_ hmore
      rw [remaining_next h, remaining_next (Cursor.rest_next_of h)]
      exact Nat.lt_add_of_pos_right Nat.two_pos
    · have hdoubled : doubledQuotes (x :: w) = x :: doubledQuotes w := by
        simp [doubledQuotes, hquote]
      rw [hdoubled] at h hreads
      have hmore : ReadsQuoted false c.next (w ++ cs) e := ih hw' (Cursor.rest_next_of h) hreads
      exact .plain h (by simp [closesQuote, hquote]) hblank hbreak nofun (fun _ => hquote) hmore

namespace Pen

theorem wrote_breakLines {bs : List Char} (hbs : ∀ b ∈ bs, isBreak b = true ∧ isClean b = true)
    (p : Pen) : p.Wrote bs (bs.foldl breakLine p) := by
  induction bs generalizing p with
  | nil => exact .refl p
  | cons b bs ih =>
    obtain ⟨hbreak, hclean⟩ := hbs b List.mem_cons_self
    exact (wrote_breakLine p hbreak hclean).trans
      (ih (fun d hd => hbs d (List.mem_cons_of_mem _ hd)) (p.breakLine b))

theorem breakLines_fields {bs : List Char} (hne : bs ≠ []) (p : Pen) :
    (bs.foldl breakLine p).column = 0 ∧ (bs.foldl breakLine p).afterBlank = true ∧
      (bs.foldl breakLine p).inIndent = true := by
  obtain ⟨front, b, rfl⟩ := (List.eq_nil_or_concat' bs).resolve_left hne
  rw [List.foldl_append]
  exact ⟨rfl, rfl, rfl⟩

/-- Line ends between single quotes, with the line feed that a first line feed needs, and the
    indentation behind them. -/
theorem wrote_quotedBreaks {bs : List Char} (hne : bs ≠ [])
    (hbs : ∀ b ∈ bs, isBreak b = true ∧ isClean b = true) (p : Pen) (indent : Nat) :
    p.Wrote (quotedBreaksText indent bs) (quotedBreaks indent p bs) := by
  have hfirst : p.Wrote (if bs.head? == some '\n' then ['\n'] else [])
      (if bs.head? == some '\n' then p.breakLine '\n' else p) := by
    split
    · exact wrote_breakLine p rfl rfl
    · exact .refl p
  refine hfirst.trans ((wrote_breakLines hbs _).trans ?_)
  show (bs.foldl breakLine (if bs.head? == some '\n' then p.breakLine '\n' else p)).Wrote _
    ((bs.foldl breakLine (if bs.head? == some '\n' then p.breakLine '\n' else p)).indentTo indent)
  generalize (if bs.head? == some '\n' then p.breakLine '\n' else p) = q
  obtain ⟨hcolumn, hblank, hin⟩ := breakLines_fields hne q
  have hgap := wrote_indentTo (bs.foldl breakLine q) indent
  have htext : (bs.foldl breakLine q).gapTo indent = List.replicate indent ' ' := by
    simp [gapTo, mustBreak, hcolumn, hblank, hin]
  rwa [htext] at hgap

end Pen

theorem goesOn_doubledQuotes {w : List Char} (hne : w ≠ [])
    (hw : ∀ x ∈ w, isSpaceOrTab x = false ∧ isBreak x = false) (rest : List Char) :
    GoesOn (doubledQuotes w ++ rest) := by
  match w, hne with
  | x :: w, _ =>
    obtain ⟨hblank, hbreak⟩ := hw x List.mem_cons_self
    by_cases hquote : x = '\''
    · subst hquote
      exact ⟨'\'', _, rfl, rfl, rfl⟩
    · exact ⟨x, doubledQuotes w ++ rest, by simp [doubledQuotes, hquote], hblank, hbreak⟩

open Pen in
/-- **Runs between single quotes are read as they were written.** -/
theorem wrote_singleQuotedRuns {rs : List Run}
    (hchain : rs.IsChain fun r s => r.isWord ≠ s.isWord) (hproper : ∀ r ∈ rs, r.IsProper)
    (hwritable : ∀ c ∈ rs.flatMap Run.chars, isWritable c = true ∧ c ≠ '\u0085')
    {indent : Nat} (hindent : 0 < indent) (fold first : Bool) {p : Pen}
    (hpen : p.inIndent = false ∨ indent < p.column ∨
      indent = p.column ∧ ∀ r ∈ rs.head?, r.isWord = true) :
    ∃ t, p.Wrote t (singleQuotedRuns indent fold first p rs) ∧
      (∀ rest, GoesOn rest → (∀ r ∈ rs.head?, r.isWord = true) → GoesOn (t ++ rest)) ∧
      ∀ (c e : Cursor) (rest cs : List Char), c.rest = t ++ rest → GoesOn rest →
        ReadsQuoted false (c.skip t.length) cs e →
        ReadsQuoted false c (rs.flatMap Run.chars ++ cs) e := by
  induction rs generalizing p first with
  | nil => exact ⟨[], .refl p, fun rest h _ => h, fun c e rest cs _ _ hreads => hreads⟩
  | cons r rs ih =>
    have hnext := List.isChain_cons.mp hchain
    have hr := hproper r List.mem_cons_self
    have hproper' := fun s hs => hproper s (List.mem_cons_of_mem r hs)
    have hwritable' : ∀ c ∈ rs.flatMap Run.chars, isWritable c = true ∧ c ≠ '\u0085' :=
      fun c hc => hwritable c (by simp only [List.flatMap_cons, List.mem_append]; exact .inr hc)
    have hwritableRun : ∀ c ∈ r.chars, isWritable c = true ∧ c ≠ '\u0085' :=
      fun c hc => hwritable c (by simp only [List.flatMap_cons, List.mem_append]; exact .inl hc)
    have hwords : r.isWord = false → ∀ s ∈ rs.head?, s.isWord = true := by
      intro hword s hs
      have := hnext.1 s hs
      simpa [hword] using this.symm
    have hpen' : r.isWord = false → p.inIndent = false ∨ indent < p.column := by
      intro hword
      rcases hpen with hin | hless | ⟨-, hhead⟩
      · exact .inl hin
      · exact .inr hless
      · rw [hhead r rfl] at hword
        cases hword
    rw [List.flatMap_cons]
    match r with
    | .spaces n =>
      have hn : 0 < n := hr
      replace hwords := hwords rfl
      simp only [singleQuotedRuns, Run.chars]
      split
      · next hfold =>
        -- The space becomes a line end with the indentation behind it.
        simp only [Bool.and_eq_true, decide_eq_true_eq] at hfold
        obtain ⟨⟨⟨⟨rfl, -⟩, -⟩, -⟩, -⟩ := hfold
        have hgap : p.gapTo indent = '\n' :: List.replicate indent ' ' := by
          have hbreak : p.mustBreak indent = true := by
            rcases hpen' rfl with hin | hless
            · simp [mustBreak, hin]
            · simp [mustBreak, hless]
          rw [gapTo, if_pos hbreak]
        have hwrote := wrote_indentTo p indent
        rw [hgap] at hwrote
        obtain ⟨hcolumn, -, -⟩ := indentTo_fields p indent
        obtain ⟨t, ht, hgoes, hread⟩ := ih hnext.2 hproper' hwritable' false
          (.inr (.inr ⟨hcolumn.symm, hwords⟩))
        refine ⟨_, hwrote.trans ht, ?_, ?_⟩
        · intro rest _ hword
          exact absurd (hword _ rfl) (by simp [Run.isWord])
        · intro c e rest cs h hrest hreads
          rw [List.append_assoc] at h
          rw [Cursor.skip_append] at hreads
          exact readsQuoted_fold hindent h (hgoes rest hrest hwords)
            (hread _ e rest cs (Cursor.rest_skip_of h) hrest hreads)
      · have hwrote := wrote_spaces p n
        have hpen'' : (p.put (List.replicate n ' ')).inIndent = false ∨
            indent < (p.put (List.replicate n ' ')).column := by
          refine (hpen' rfl).imp_right fun hless => ?_
          show indent < p.column + _
          omega
        obtain ⟨t, ht, hgoes, hread⟩ := ih hnext.2 hproper' hwritable' false
          (hpen''.imp_right .inl)
        refine ⟨_, hwrote.trans ht, ?_, ?_⟩
        · intro rest _ hword
          exact absurd (hword _ rfl) (by simp [Run.isWord])
        · intro c e rest cs h hrest hreads
          rw [List.append_assoc] at h ⊢
          rw [Cursor.skip_append] at hreads
          exact readsQuoted_spaces hn h (hgoes rest hrest hwords)
            (hread _ e rest cs (Cursor.rest_skip_of h) hrest hreads)
    | .breaks bs =>
      replace hwords := hwords rfl
      obtain ⟨hne, hall⟩ := hr
      simp only [singleQuotedRuns, Run.chars]
      have hwrote := wrote_quotedBreaks hne
        (fun b hb => ⟨hall b hb, isClean_of_isWritable (hwritableRun b hb).1⟩) p indent
      obtain ⟨hcolumn, -, -⟩ := indentTo_fields
        (bs.foldl breakLine (if bs.head? == some '\n' then p.breakLine '\n' else p)) indent
      have hcolumn' : (Pen.quotedBreaks indent p bs).column = indent := hcolumn
      obtain ⟨t, ht, hgoes, hread⟩ := ih hnext.2 hproper' hwritable' false
        (.inr (.inr ⟨hcolumn'.symm, hwords⟩))
      refine ⟨_, hwrote.trans ht, ?_, ?_⟩
      · intro rest _ hword
        exact absurd (hword _ rfl) (by simp [Run.isWord])
      · intro c e rest cs h hrest hreads
        rw [List.append_assoc] at h ⊢
        rw [Cursor.skip_append] at hreads
        exact readsQuoted_breaks hne hindent (fun b hb => ⟨hall b hb, (hwritableRun b hb).2⟩) h
          (hgoes rest hrest hwords) (hread _ e rest cs (Cursor.rest_skip_of h) hrest hreads)
    | .word w =>
      obtain ⟨hne, hall⟩ := hr
      simp only [singleQuotedRuns, Run.chars]
      have hblanks : ∀ x ∈ w, isSpaceOrTab x = false ∧ isBreak x = false := by
        intro x hx
        have htab := not_tab_of_isWritable (hwritableRun x hx).1
        exact ⟨by simp [isSpaceOrTab, (hall x hx).1, htab], (hall x hx).2⟩
      have hwrote : p.Wrote (doubledQuotes w) (p.put (doubledQuotes w)) :=
        wrote_put p (fun x hx => (hall x (mem_doubledQuotes hx)).2)
          fun x hx => isClean_of_isWritable (hwritableRun x (mem_doubledQuotes hx)).1
      have hpen'' : (p.put (doubledQuotes w)).inIndent = false ∨
          indent < (p.put (doubledQuotes w)).column := by
        have hlength : 0 < (doubledQuotes w).length := by
          obtain ⟨x, rest, hx, -⟩ := goesOn_doubledQuotes hne hblanks []
          rw [List.append_nil] at hx
          rw [hx]
          exact Nat.succ_pos _
        rcases hpen with hin | hless | ⟨heq, -⟩
        · exact .inl hin
        · refine .inr ?_
          show indent < p.column + _
          omega
        · refine .inr ?_
          show indent < p.column + _
          omega
      obtain ⟨t, ht, hgoes, hread⟩ := ih hnext.2 hproper' hwritable' false (hpen''.imp_right .inl)
      refine ⟨_, hwrote.trans ht, ?_, ?_⟩
      · intro rest _ _
        rw [List.append_assoc]
        exact goesOn_doubledQuotes hne hblanks _
      · intro c e rest cs h hrest hreads
        rw [List.append_assoc] at h ⊢
        rw [Cursor.skip_append] at hreads
        exact readsQuoted_word hblanks h (hread _ e rest cs (Cursor.rest_skip_of h) hrest hreads)

open Pen in
/-- **A text between single quotes is read as it was written.** -/
theorem wrote_singleQuoted {cs : List Char} (hsingle : IsSingle cs) (p : Pen) {indent : Nat}
    (fold : Bool) (hindent : 0 < indent) :
    ∃ t, p.Wrote (leadingBlank p ++ '\'' :: t) (p.singleQuoted indent fold cs) ∧
      ∀ (c : Cursor) (rest : List Char), c.rest = '\'' :: t ++ rest → rest.head? ≠ some '\'' →
        quotedScalar false c = .ok (cs, c.skip (t.length + 1)) := by
  have hwritable : ∀ c ∈ (runs cs).flatMap Run.chars, isWritable c = true ∧ c ≠ '\u0085' := by
    rw [flatMap_runs]
    exact fun c hc => ⟨hsingle.writable c hc, fun hmark => hsingle.noNextLine (hmark ▸ hc)⟩
  obtain ⟨t, ht, -, hread⟩ := wrote_singleQuotedRuns (isChain_runs hsingle.spaces hsingle.breaks)
    isProper_of_mem_runs hwritable hindent fold true
    (.inl (by simp [indicator]) : (p.indicator ['\''] true false).inIndent = false ∨ _)
  have hquote : ∀ c ∈ ['\''], isBreak c = false ∧ isClean c = true :=
    List.forall_mem_singleton.mpr (by decide)
  have hopen := wrote_indicator p true false (fun c hc => (hquote c hc).1)
    fun c hc => (hquote c hc).2
  have hclose := wrote_indicator (singleQuotedRuns indent fold true (p.indicator ['\''] true false)
    (runs cs)) false false (fun c hc => (hquote c hc).1) fun c hc => (hquote c hc).2
  refine ⟨t ++ ['\''], ?_, ?_⟩
  · have htext : leadingBlank p ++ '\'' :: (t ++ ['\'']) =
        p.indicatorText ['\''] true ++ (t ++ ['\'']) := by
      unfold leadingBlank indicatorText
      cases p.afterBlank <;> rfl
    rw [htext]
    exact hopen.trans (ht.trans hclose)
  · intro c rest h hhead
    rw [List.cons_append, List.append_assoc] at h
    have hnext := Cursor.rest_next_of h
    have hbehind := Cursor.rest_skip_of hnext
    have hclosing : closesQuote false '\'' rest = true := by simp [closesQuote, hhead]
    have hreads := hread c.next _ (['\''] ++ rest) [] hnext ⟨'\'', rest, rfl, rfl, rfl⟩
      (ReadsQuoted.close hbehind hclosing)
    rw [List.append_nil, flatMap_runs] at hreads
    have hless : c.next.remaining < c.remaining + 1 := by
      rw [remaining_next h]
      omega
    rw [quotedScalar, hreads _ hless, List.length_append]
    show Except.ok (cs, (c.next.skip t.length).skip 1) = _
    rw [← Cursor.skip_add]
    rfl

end Regen.Yaml
