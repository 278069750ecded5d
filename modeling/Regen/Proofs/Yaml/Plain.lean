import Regen.Proofs.Yaml.Pen
import Regen.Yaml.ScalarText
import Regen.Yaml.Spelling

/-! # Plain scalars both ways

    A plain scalar is a row of words with spaces between them.  A reader takes the words one by one
    and stops at none of them, because no colon ends a word and no number sign starts one; a line
    that was folded at a single space is read as that space again. -/

namespace Regen.Yaml

/-! ## What a text allows -/

/-- The code point that a character stands for lies among the halves of pairs, or it is its own. -/
theorem codeOf_cases (c : Char) :
    0xD800 ≤ Text.codeOf c ∧ Text.codeOf c < 0xE000 ∨ Text.codeOf c = c.toNat := by
  by_cases hstand : Text.isStandIn c = true
  · left
    have hcode : Text.codeOf c = c.toNat - 0x10F000 + 0xD800 := by
      rw [Text.codeOf, if_pos hstand]
      rfl
    rw [Text.isStandIn, Bool.and_eq_true, decide_eq_true_iff, decide_eq_true_iff] at hstand
    obtain ⟨hlow, hhigh⟩ : 0x10F000 ≤ c.toNat ∧ c.toNat < 0x10F800 := hstand
    omega
  · right
    rw [Text.codeOf, if_neg hstand]

theorem isClean_of_isWritable {c : Char} (h : isWritable c = true) : isClean c = true := by
  have hmark : c ≠ '\uFEFF' := by
    rintro rfl
    exact absurd h (by decide)
  have hreturn : c ≠ '\r' := by
    rintro rfl
    exact absurd h (by decide)
  have hallowed : isAllowed c = true := by
    by_cases hfeed : c = '\n'
    · rw [hfeed]
      decide
    · simp only [isWritable, hfeed, Bool.or_eq_true, Bool.and_eq_true, decide_eq_true_eq,
        beq_iff_eq, false_or] at h
      simp only [isAllowed, Bool.or_eq_true, Bool.and_eq_true, decide_eq_true_eq, beq_iff_eq]
      have hcode := codeOf_cases c
      omega
  simp [isClean, hallowed, hmark, hreturn]

/-- A character that is written without an escape is a blank only if it is a space. -/
theorem not_tab_of_isWritable {c : Char} (h : isWritable c = true) : c ≠ '\t' := by
  rintro rfl
  exact absurd h (by decide)

/-- What a text that may be written plainly looks like. -/
structure IsPlain (cs : List Char) : Prop where
  writable : ∀ c ∈ cs, isWritable c = true
  noBreaks : ∀ c ∈ cs, isBreak c = false
  first : cs.head? ≠ some ' '
  last : cs.getLast? ≠ some ' '
  leading : hasLeadingIndicator cs = false
  inner : hasInnerIndicator cs = false

theorem isPlain_of_allowsPlain {cs : List Char} (hne : cs ≠ [])
    (h : (analyze cs).allowsPlain = true) : IsPlain cs := by
  unfold analyze at h
  rw [if_neg (by simpa using hne)] at h
  simp only [Bool.and_eq_true, Bool.not_eq_true', Bool.or_eq_false_iff, List.any_eq_false,
    Bool.not_eq_true] at h
  obtain ⟨⟨⟨⟨⟨hedge, -⟩, hspecial, -⟩, hbreaks⟩, hleading⟩, hinner⟩ := h
  refine ⟨fun c hc => by simpa using hspecial c hc, hbreaks, ?_, ?_, hleading, hinner⟩
  · intro hfirst
    obtain ⟨rest, rfl⟩ := List.head?_eq_some_iff.mp hfirst
    exact absurd (hedge ' ' (by simp)) (by decide)
  · intro hlast
    obtain ⟨front, rfl⟩ := List.getLast?_eq_some_iff.mp hlast
    exact absurd (hedge ' ' (by simp)) (by decide)

/-! ## Words -/

/-- A word of a plain scalar: no blanks, no colon at the end and no number sign in front. -/
structure IsWord (w : List Char) : Prop where
  ne_nil : w ≠ []
  noBlanks : ∀ c ∈ w, isSpaceOrTab c = false ∧ isBreak c = false
  writable : ∀ c ∈ w, isWritable c = true
  first : w.head? ≠ some '#'
  last : w.getLast? ≠ some ':'

/-- A plain scalar ends here: the text ends, or a blank follows, or the colon behind a key. -/
def EndsPlain : List Char → Prop
  | ':' :: rest => endsWord rest = true
  | rest => endsWord rest = true

/-- A reader takes a word up to its end. -/
theorem plainLength_word {w rest : List Char}
    (hblanks : ∀ c ∈ w, isSpaceOrTab c = false ∧ isBreak c = false)
    (hlast : w.getLast? ≠ some ':') (hrest : EndsPlain rest) :
    plainLength false (w ++ rest) = w.length := by
  induction w with
  | nil =>
    match rest with
    | [] => rfl
    | c :: rest =>
      rw [List.nil_append, plainLength]
      by_cases hcolon : c = ':'
      · subst hcolon
        have hends : endsWord rest = true := hrest
        simp [hends]
      · have hends : endsWord (c :: rest) = true := by
          unfold EndsPlain at hrest
          split at hrest
          · next heq => exact absurd (List.cons.inj heq).1 hcolon
          · exact hrest
        have hblank : (isSpaceOrTab c || isBreak c) = true := hends
        rw [if_pos hblank]
        rfl
  | cons c w ih =>
    obtain ⟨hspace, hbreak⟩ := hblanks c List.mem_cons_self
    have hmore : plainLength false (w ++ rest) = w.length := by
      refine ih (fun d hd => hblanks d (List.mem_cons_of_mem _ hd)) ?_
      match w with
      | [] => simp
      | d :: w => simpa [List.getLast?_cons_cons] using hlast
    rw [List.cons_append, plainLength]
    have hcolon : (c == ':' && endsWord (w ++ rest)) = false := by
      match w with
      | [] =>
        have hc : c ≠ ':' := by simpa using hlast
        simp [hc]
      | d :: w =>
        obtain ⟨hd, hd'⟩ := hblanks d (by simp)
        simp [endsWord, hd, hd']
    simp only [hspace, hbreak, hcolon, Bool.or_false, Bool.false_and, Bool.false_eq_true, if_false,
      hmore, List.length_cons]
    omega

/-- The colons and number signs in a text behind its first character. -/
theorem of_hasInnerIndicator {a b : Char} {rest : List Char}
    (h : hasInnerIndicator (a :: b :: rest) = false) :
    ¬(b = ':' ∧ blankFollows rest = true) ∧ ¬(b = '#' ∧ isBlankOrEnd a = true) ∧
      hasInnerIndicator (b :: rest) = false := by
  simp only [hasInnerIndicator, Bool.or_eq_false_iff, Bool.and_eq_false_iff,
    beq_eq_false_iff_ne] at h
  obtain ⟨⟨hcolon, hsign⟩, hmore⟩ := h
  refine ⟨?_, ?_, hmore⟩
  · rintro ⟨rfl, hblank⟩
    simp [hblank] at hcolon
  · rintro ⟨rfl, hblank⟩
    simp [hblank] at hsign

theorem hasInnerIndicator_of_append {front rest : List Char}
    (h : hasInnerIndicator (front ++ rest) = false) : hasInnerIndicator rest = false := by
  induction front with
  | nil => exact h
  | cons a front ih =>
    apply ih
    match hcs : front ++ rest with
    | [] => rfl
    | b :: cs =>
      rw [List.cons_append, hcs] at h
      exact (of_hasInnerIndicator h).2.2

/-- No word behind something else ends with a colon, if a blank or nothing follows it. -/
theorem last_ne_colon {a : Char} {w rest : List Char}
    (h : hasInnerIndicator (a :: (w ++ rest)) = false) (hblank : blankFollows rest = true) :
    w.getLast? ≠ some ':' := by
  induction w generalizing a with
  | nil => simp
  | cons b w ih =>
    have hstep := of_hasInnerIndicator (h : hasInnerIndicator (a :: b :: (w ++ rest)) = false)
    match w with
    | [] =>
      have hb : b ≠ ':' := fun hb => hstep.1 ⟨hb, hblank⟩
      simpa using hb
    | c :: w =>
      rw [List.getLast?_cons_cons]
      exact ih hstep.2.2

/-! ## Gaps -/

/-- The text ends, or goes on with something that is no space and no line end. -/
def IsVisible (cs : List Char) : Prop := ∀ c ∈ cs.head?, c ≠ ' ' ∧ isBreak c = false

/-- Behind a line end nothing but spaces is skipped. -/
theorem plainBreaks_spaces {m fuel : Nat} {c : Cursor} {rest : List Char}
    (h : c.rest = List.replicate m ' ' ++ rest) (hrest : IsVisible rest) (hfuel : m < fuel) :
    plainBreaks fuel c = (some [], c.skip m) := by
  induction m generalizing fuel c with
  | zero =>
    match fuel, hfuel with
    | fuel + 1, _ =>
      rw [List.replicate_zero, List.nil_append] at h
      have hnone : c.lineBreak? = none :=
        Cursor.lineBreak?_eq_none fun x hx => (hrest x (h ▸ hx)).2
      rw [plainBreaks]
      split
      · next hc =>
        rw [h] at hc
        exact absurd rfl (hrest ' ' (by simp [hc])).1
      · rw [hnone]
        rfl
  | succ m ih =>
    match fuel, hfuel with
    | fuel + 1, hfuel =>
      rw [List.replicate_succ, List.cons_append] at h
      rw [plainBreaks]
      split
      · rw [ih (Cursor.rest_next_of h) (by omega)]
        rfl
      · next hc => exact absurd h (hc _)

/-- Spaces inside a line are kept. -/
theorem plainGap_spaces {n : Nat} {c : Cursor} {rest : List Char}
    (h : c.rest = List.replicate n ' ' ++ rest) (hrest : IsVisible rest) :
    plainGap c = ⟨List.replicate n ' ', false, c.skip n⟩ := by
  have hspan : c.span (· == ' ') = (List.replicate n ' ', c.skip n) := by
    have := Cursor.span_of (p := (· == ' ')) h (by
      intro x hx
      simp [List.eq_of_mem_replicate hx]) fun x hx => by simpa using (hrest x hx).1
    rwa [List.length_replicate] at this
  have hbehind : (c.skip n).rest = rest := by
    have := Cursor.rest_skip_of h
    rwa [List.length_replicate] at this
  have hnone : (c.skip n).lineBreak? = none :=
    Cursor.lineBreak?_eq_none fun x hx => (hrest x (hbehind ▸ hx)).2
  simp only [plainGap, hspan, hnone]

/-- A line end and the indentation behind it make a gap; it stands for a space, unless a document
    marker follows. -/
theorem plainGap_newline {k : Nat} {c : Cursor} {rest : List Char}
    (h : c.rest = '\n' :: (List.replicate k ' ' ++ rest)) (hrest : IsVisible rest) :
    (plainGap c).brokeLine = true ∧ (plainGap c).cursor = c.skip (k + 1) ∧
      (0 < k → (plainGap c).text = [' ']) := by
  have hspan : c.span (· == ' ') = ([], c) :=
    Cursor.span_of (t := []) h (by simp) (by simp)
  have hbreak : c.lineBreak? = some ('\n', c.next) := Cursor.lineBreak?_of_break h rfl
  have hnext := Cursor.rest_next_of h
  by_cases hmark : c.next.atDocumentMark = true
  · -- A marker stands at the start of its line.
    have hk : k = 0 := by
      match k with
      | 0 => rfl
      | k + 1 =>
        rw [List.replicate_succ, List.cons_append] at hnext
        simp [Cursor.atDocumentMark, Cursor.atMark, hnext] at hmark
    subst hk
    simp only [plainGap, hspan, hbreak, hmark, if_true]
    exact ⟨trivial, rfl, fun h => absurd h (Nat.lt_irrefl 0)⟩
  · have hlength : k < c.next.remaining + 1 := by
      rw [c.next.remaining_eq, hnext]
      simp only [List.length_append, List.length_replicate]
      omega
    simp only [plainGap, hspan, hbreak, hmark, plainBreaks_spaces hnext hrest hlength]
    exact ⟨rfl, rfl, fun _ => rfl⟩

/-- What a reader takes behind a gap: nothing more if the scalar stops here. -/
def behindGap (indent : Int) (fuel : Nat) (gap : Gap) : List Char × Bool × Cursor :=
  if gap.text.isEmpty || gap.cursor.rest.head? == some '#' ||
      (gap.cursor.column : Int) < indent then ([], gap.brokeLine, gap.cursor)
  else plainPieces false indent fuel gap

/-- A word is read with the gap in front of it. -/
theorem plainPieces_word {w rest : List Char} (indent : Int) (fuel : Nat) {gap : Gap}
    (hw : IsWord w) (h : gap.cursor.rest = w ++ rest) (hrest : EndsPlain rest) :
    plainPieces false indent (fuel + 1) gap =
      (gap.text ++ w ++ (behindGap indent fuel (plainGap (gap.cursor.skip w.length))).1,
        (behindGap indent fuel (plainGap (gap.cursor.skip w.length))).2) := by
  have hfirst : (gap.cursor.rest.head? == some '#') = false := by
    have hw' := hw.first
    match w, hw.ne_nil with
    | c :: w, _ => simpa [h] using hw'
  have hlength : plainLength false gap.cursor.rest = w.length := by
    rw [h, plainLength_word hw.noBlanks hw.last hrest]
  have hpositive : ¬w.length = 0 := fun hzero => hw.ne_nil (List.length_eq_zero_iff.mp hzero)
  have htake : gap.cursor.rest.take w.length = w := by rw [h, List.take_left]
  rw [plainPieces]
  simp only [hfirst, Bool.false_eq_true, if_false, hlength, hpositive, htake, behindGap,
    Bool.not_false, Bool.true_and]
  split
  · simp
  · rfl

/-! ## Rows of words -/

/-- What stands behind the first word of a plain scalar: further words, with spaces between. -/
inductive PlainTail : List Pen.Run → Prop
  | nil : PlainTail []
  | cons {n : Nat} {w : List Char} {rs : List Pen.Run} (hn : 0 < n) (hw : IsWord w)
      (hrs : PlainTail rs) : PlainTail (.spaces n :: .word w :: rs)

theorem PlainTail.blankFollows {rs : List Pen.Run} (h : PlainTail rs) :
    blankFollows (rs.flatMap Pen.Run.chars) = true := by
  cases h with
  | nil => rfl
  | @cons n w rs hn hw hrs =>
    match n, hn with
    | n + 1, _ => exact rfl

open Pen in
/-- Runs that start with no word are such a tail, if the text allows a plain scalar. -/
theorem plainTail_of_runs {rs : List Run}
    (hchain : rs.IsChain fun r s => r.isWord ≠ s.isWord) (hproper : ∀ r ∈ rs, r.IsProper)
    (hstart : ∀ r ∈ rs.head?, r.isWord = false)
    (hwritable : ∀ c ∈ rs.flatMap Run.chars, isWritable c = true)
    (hbreaks : ∀ c ∈ rs.flatMap Run.chars, isBreak c = false)
    (hlast : (rs.flatMap Run.chars).getLast? ≠ some ' ')
    (hinner : hasInnerIndicator (rs.flatMap Run.chars) = false) : PlainTail rs := by
  rcases rs with - | ⟨n | bs | w, rs⟩
  · exact .nil
  · have hn : 0 < n := hproper (.spaces n) List.mem_cons_self
    rcases rs with - | ⟨m | bs | w, rs⟩
    · -- Spaces at the end would be the last characters.
      cases n with
      | zero => exact absurd hn (Nat.lt_irrefl 0)
      | succ n => exact absurd (by simp [Run.chars, List.replicate_succ']) hlast
    · exact absurd rfl (List.isChain_cons_cons.mp hchain).1
    · exact absurd rfl (List.isChain_cons_cons.mp hchain).1
    · obtain ⟨hne, hall⟩ := hproper (.word w) (by simp)
      have hnext := List.isChain_cons.mp (List.isChain_cons_cons.mp hchain).2
      have hrest : ∀ r ∈ rs.head?, r.isWord = false := by
        intro r hr
        have := hnext.1 r hr
        simpa [Run.isWord] using this.symm
      have htext : (Run.spaces n :: .word w :: rs).flatMap Run.chars =
          List.replicate (n - 1) ' ' ++ (' ' :: (w ++ rs.flatMap Run.chars)) := by
        have hreplicate : List.replicate n ' ' = List.replicate (n - 1) ' ' ++ [' '] := by
          rw [← List.replicate_succ', Nat.sub_add_cancel hn]
        simp [Run.chars, hreplicate]
      rw [htext] at hwritable hbreaks hlast hinner
      have hword := hasInnerIndicator_of_append hinner
      have hinner' : hasInnerIndicator (rs.flatMap Run.chars) = false :=
        hasInnerIndicator_of_append
          (show hasInnerIndicator ((' ' :: w) ++ rs.flatMap Run.chars) = false from hword)
      have htail : PlainTail rs := by
        refine plainTail_of_runs hnext.2 ?_ hrest ?_ ?_ ?_ hinner'
        · exact fun r hr => hproper r (by simp [hr])
        · exact fun c hc => hwritable c (by
            simp only [List.mem_append, List.mem_cons]
            exact .inr (.inr (.inr hc)))
        · exact fun c hc => hbreaks c (by
            simp only [List.mem_append, List.mem_cons]
            exact .inr (.inr (.inr hc)))
        · cases hrs : rs.flatMap Run.chars with
          | nil => simp
          | cons c cs =>
            have hassoc : List.replicate (n - 1) ' ' ++ ' ' :: (w ++ c :: cs) =
                (List.replicate (n - 1) ' ' ++ ' ' :: w) ++ c :: cs := by simp
            rwa [hrs, hassoc, List.getLast?_append_of_ne_nil _ (List.cons_ne_nil c cs)] at hlast
      refine .cons hn ⟨hne, ?_, ?_, ?_, ?_⟩ htail
      · intro c hc
        have htab := not_tab_of_isWritable (hwritable c (by simp [hc]))
        obtain ⟨hspace, hbreak⟩ := hall c hc
        exact ⟨by simp [isSpaceOrTab, hspace, htab], hbreak⟩
      · exact fun c hc => hwritable c (by simp [hc])
      · intro hsign
        obtain ⟨more, rfl⟩ := List.head?_eq_some_iff.mp hsign
        exact (of_hasInnerIndicator hword).2.1 ⟨rfl, rfl⟩
      · exact last_ne_colon hword htail.blankFollows
  · obtain ⟨hne, hall⟩ := hproper (.breaks bs) List.mem_cons_self
    cases bs with
    | nil => exact absurd rfl hne
    | cons b bs =>
      have hb := hbreaks b (by simp [Run.chars])
      rw [hall b List.mem_cons_self] at hb
      cases hb
  · exact absurd (hstart (.word w) rfl) (by simp [Run.isWord])

/-- The reader takes nothing of a text: the gap in front of it holds nothing, a comment follows, or
    what follows is not indented enough. -/
def StopsPlain (indent : Int) (rest : List Char) : Prop :=
  ∀ c : Cursor, c.rest = rest → ((plainGap c).text.isEmpty = true ∨
    (plainGap c).cursor.rest.head? = some '#' ∨ ((plainGap c).cursor.column : Int) < indent)

theorem behindGap_of_stops {indent : Int} {fuel : Nat} {c : Cursor}
    (h : StopsPlain indent c.rest) :
    behindGap indent fuel (plainGap c) = ([], (plainGap c).brokeLine, (plainGap c).cursor) := by
  rw [behindGap, if_pos]
  simp only [Bool.or_eq_true, decide_eq_true_eq, beq_iff_eq]
  rcases h c rfl with hempty | hsign | hcolumn
  · exact .inl (.inl hempty)
  · exact .inl (.inr hsign)
  · exact .inr hcolumn

/-- A word behind a gap is read when it is indented enough. -/
theorem behindGap_word {indent : Int} (fuel : Nat) {gap : Gap} {w rest : List Char}
    (hgap : gap.text ≠ []) (hw : IsWord w) (h : gap.cursor.rest = w ++ rest)
    (hrest : EndsPlain rest) (hcolumn : indent ≤ gap.cursor.column) :
    behindGap indent (fuel + 1) gap =
      (gap.text ++ w ++ (behindGap indent fuel (plainGap (gap.cursor.skip w.length))).1,
        (behindGap indent fuel (plainGap (gap.cursor.skip w.length))).2) := by
  have hfirst : (gap.cursor.rest.head? == some '#') = false := by
    have hw' := hw.first
    match w, hw.ne_nil with
    | c :: w, _ => simpa [h] using hw'
  have hstop : ¬(gap.text.isEmpty || gap.cursor.rest.head? == some '#' ||
      decide ((gap.cursor.column : Int) < indent)) = true := by
    simp only [hfirst, Bool.or_false, Bool.or_eq_true, decide_eq_true_eq, List.isEmpty_iff]
    rintro (hempty | hless)
    · exact hgap hempty
    · omega
  rw [behindGap, if_neg hstop]
  exact plainPieces_word indent fuel hw h hrest

theorem IsWord.isVisible {w rest : List Char} (hw : IsWord w) : IsVisible (w ++ rest) := by
  intro c hc
  match w, hw.ne_nil with
  | d :: w, _ =>
    obtain rfl : d = c := by simpa using hc
    obtain ⟨hblank, hbreak⟩ := hw.noBlanks d List.mem_cons_self
    refine ⟨?_, hbreak⟩
    rintro rfl
    exact absurd hblank (by decide)

theorem IsWord.wrote {w : List Char} (hw : IsWord w) (p : Pen) : p.Wrote w (p.put w) :=
  Pen.wrote_put p (fun c hc => (hw.noBlanks c hc).2)
    fun c hc => isClean_of_isWritable (hw.writable c hc)

theorem IsWord.column_skip {w rest : List Char} (hw : IsWord w) {c : Cursor}
    (h : c.rest = w ++ rest) : (c.skip w.length).column = c.column + w.length := by
  rw [Cursor.column_skip_of h, columnBehind_of_no_break fun x hx => (hw.noBlanks x hx).2]
  exact not_mark_of_clean fun x hx => isClean_of_isWritable (hw.writable x hx)

/-- **What a pen wrote for one gap** is read as that gap. -/
theorem wrote_gap {p : Pen} {n indent : Nat} (fold : Bool) (hpen : p.inIndent = false)
    (hn : 0 < n) (hindent : 0 < indent) :
    ∃ t, p.Wrote t (Pen.plainRun indent fold p (.spaces n)) ∧ t ≠ [] ∧
      (Pen.plainRun indent fold p (.spaces n)).inIndent = false ∧
      (∀ rest, EndsPlain (t ++ rest)) ∧
      ∀ (c : Cursor) (rest : List Char) (least : Int), c.rest = t ++ rest → IsVisible rest →
        least ≤ c.column → least ≤ indent →
        (plainGap c).text = List.replicate n ' ' ∧
          (plainGap c).cursor = c.skip t.length ∧ least ≤ (c.skip t.length).column := by
  rw [Pen.plainRun]
  split
  · next hfold =>
    -- The space becomes a line end with the indentation behind it.
    simp only [Bool.and_eq_true, decide_eq_true_eq] at hfold
    obtain ⟨⟨rfl, -⟩, -⟩ := hfold
    have hgap : p.gapTo indent = '\n' :: List.replicate indent ' ' := by
      rw [Pen.gapTo, Pen.mustBreak, hpen]
      rfl
    have hwrote := Pen.wrote_indentTo p indent
    rw [hgap] at hwrote
    refine ⟨_, hwrote.congr rfl rfl rfl rfl, List.cons_ne_nil _ _, rfl, fun rest => rfl, ?_⟩
    intro c rest least h hvisible hcolumn hleast
    obtain ⟨-, hcursor, htext⟩ := plainGap_newline h hvisible
    refine ⟨htext hindent, ?_, ?_⟩
    · rw [hcursor]
      simp
    · rw [Cursor.column_skip_of h (not_mark_of_clean hwrote.clean)]
      show least ≤ (columnBehind 0 (List.replicate indent ' ') : Nat)
      rw [columnBehind_of_no_break (isBreak_replicate_space indent), List.length_replicate]
      omega
  · have hwrote := Pen.wrote_spaces p n
    refine ⟨_, hwrote, ?_, hpen, ?_, ?_⟩
    · cases n with
      | zero => exact absurd hn (Nat.lt_irrefl 0)
      | succ n => simp [List.replicate_succ]
    · intro rest
      cases n with
      | zero => exact absurd hn (Nat.lt_irrefl 0)
      | succ n => rfl
    · intro c rest least h hvisible hcolumn hleast
      have hgap := plainGap_spaces h hvisible
      rw [hgap, List.length_replicate]
      refine ⟨rfl, rfl, ?_⟩
      have hskip := Cursor.column_skip_of h (not_mark_of_clean hwrote.clean)
      rw [columnBehind_of_no_break (isBreak_replicate_space n), List.length_replicate] at hskip
      rw [hskip]
      omega

open Pen in
/-- **A tail of a plain scalar is read as it was written.** -/
theorem wrote_plainTail {rs : List Run} (hrs : PlainTail rs) {indent : Nat} (fold : Bool)
    (hindent : 0 < indent) {p : Pen} (hpen : p.inIndent = false) :
    ∃ t, p.Wrote t (rs.foldl (plainRun indent fold) p) ∧ rs.length ≤ t.length ∧
      (∀ rest, EndsPlain rest → EndsPlain (t ++ rest)) ∧
      ∀ (c : Cursor) (rest : List Char) (least : Int) (fuel : Nat), c.rest = t ++ rest →
        EndsPlain rest → StopsPlain least rest → least ≤ c.column → least ≤ indent →
        rs.length ≤ fuel →
        behindGap least fuel (plainGap c) = (rs.flatMap Run.chars,
          (plainGap (c.skip t.length)).brokeLine, (plainGap (c.skip t.length)).cursor) := by
  induction hrs generalizing p with
  | nil =>
    refine ⟨[], .refl p, Nat.le_refl 0, fun rest h => h, ?_⟩
    intro c rest least fuel h hends hstops _ _ _
    rw [List.nil_append] at h
    rw [behindGap_of_stops (h ▸ hstops)]
    rfl
  | @cons n w rs hn hw hrs ih =>
    obtain ⟨t, hgap, hne, hpen', hends, hread⟩ := wrote_gap fold hpen hn hindent
    have hpen'' : ((plainRun indent fold p (.spaces n)).put w).inIndent = false := hpen'
    obtain ⟨u, htail, hlength, hends', hread'⟩ := ih hpen''
    refine ⟨t ++ (w ++ u), hgap.trans ((hw.wrote _).trans htail), ?_, ?_, ?_⟩
    · have ht : 0 < t.length := List.length_pos_iff.mpr hne
      have hw' : 0 < w.length := List.length_pos_iff.mpr hw.ne_nil
      simp only [List.length_cons, List.length_append]
      omega
    · intro rest _
      rw [List.append_assoc]
      exact hends _
    · intro c rest least fuel h hendsRest hstops hcolumn hleast hfuel
      rw [List.append_assoc, List.append_assoc] at h
      obtain ⟨htext, hcursor, hcolumn'⟩ := hread c _ least h hw.isVisible hcolumn hleast
      have hbehind := Cursor.rest_skip_of h
      match fuel, hfuel with
      | fuel + 1, hfuel =>
        have hword := @behindGap_word least fuel (plainGap c) w (u ++ rest)
          (by rw [htext]; simpa using Nat.ne_of_gt hn) hw (by rw [hcursor, hbehind])
          (hends' rest hendsRest) (by rw [hcursor]; exact hcolumn')
        have hcolumn'' : least ≤ ((c.skip t.length).skip w.length).column := by
          rw [hw.column_skip hbehind]
          omega
        have htail := hread' ((c.skip t.length).skip w.length) rest least fuel
          (Cursor.rest_skip_of hbehind) hendsRest hstops hcolumn'' hleast
          (by simp only [List.length_cons] at hfuel; omega)
        rw [hword, hcursor, htail, htext, Cursor.skip_append, Cursor.skip_append]
        simp [Run.chars]

/-! ## Plain scalars -/

/-- A text starts as a plain scalar does: with no indicator, and with no document marker. -/
structure StartsPlainly (c : Char) (rest : List Char) : Prop where
  notIndicator : c ∉ "#,[]\x7b\x7d&*!|>'\"%@`".toList
  notBlank : isSpaceOrTab c = false ∧ isBreak c = false
  notAlone : c = '?' ∨ c = ':' ∨ c = '-' → endsWord rest = false
  notMark : (c :: rest).take 3 ≠ ['-', '-', '-'] ∧ (c :: rest).take 3 ≠ ['.', '.', '.']

/-- A mark of three equal characters lies inside the first word. -/
theorem take_of_take_append {w y z : List Char} {m : Char} (hy : EndsPlain y)
    (hm : m ≠ ':' ∧ isSpaceOrTab m = false ∧ isBreak m = false)
    (h : (w ++ y).take 3 = [m, m, m]) : (w ++ z).take 3 = [m, m, m] := by
  have hhead : ∀ y', y ≠ m :: y' := by
    rintro y' rfl
    obtain ⟨hcolon, hspace, hbreak⟩ := hm
    unfold EndsPlain at hy
    split at hy
    · next heq => exact hcolon (List.cons.inj heq).1
    · simp [endsWord, hspace, hbreak] at hy
  have hlength : 3 ≤ w.length := by
    -- A shorter word would leave the head of what follows to be the mark.
    rcases w with - | ⟨a, - | ⟨b, - | ⟨c, w⟩⟩⟩
    · rcases y with - | ⟨a, y⟩
      · simp at h
      · exact absurd (by rw [(List.cons.inj h).1]) (hhead y)
    · rcases y with - | ⟨b, y⟩
      · simp at h
      · exact absurd (by rw [(List.cons.inj (List.cons.inj h).2).1]) (hhead y)
    · rcases y with - | ⟨c, y⟩
      · simp at h
      · exact absurd (by rw [(List.cons.inj (List.cons.inj (List.cons.inj h).2).2).1]) (hhead y)
    · simp
  rw [List.take_append_of_le_length hlength] at h ⊢
  exact h

theorem startsPlainly_of_leading {c : Char} {w y z : List Char} (hw : IsWord (c :: w))
    (hz : blankFollows z = true) (hy : EndsPlain y)
    (h : hasLeadingIndicator (c :: w ++ z) = false) : StartsPlainly c (w ++ y) := by
  rw [List.cons_append, hasLeadingIndicator] at h
  simp only [Bool.or_eq_false_iff, beq_eq_false_iff_ne, Bool.and_eq_false_iff] at h
  obtain ⟨⟨⟨hhyphens, hdots⟩, hindicator⟩, halone⟩ := h
  refine ⟨?_, hw.noBlanks c List.mem_cons_self, ?_, ?_, ?_⟩
  · simpa using hindicator
  · intro hc
    have hfollows : blankFollows (w ++ z) = false := by
      rcases halone with hother | hblank
      · obtain ⟨⟨hq, hcolon⟩, hhyphen⟩ := hother
        rcases hc with rfl | rfl | rfl
        · exact absurd rfl hq
        · exact absurd rfl hcolon
        · exact absurd rfl hhyphen
      · exact hblank
    cases w with
    | nil =>
      rw [List.nil_append, hz] at hfollows
      cases hfollows
    | cons d w =>
      obtain ⟨hspace, hbreak⟩ := hw.noBlanks d (by simp)
      simp [endsWord, hspace, hbreak]
  · exact fun hmark => hhyphens (take_of_take_append (w := c :: w) hy (by decide) hmark)
  · exact fun hmark => hdots (take_of_take_append (w := c :: w) hy (by decide) hmark)

/-- The blank in front of something that needs one. -/
def leadingBlank (p : Pen) : List Char := if p.afterBlank then [] else [' ']

theorem wrote_leadingBlank (p : Pen) :
    p.Wrote (leadingBlank p) (if p.afterBlank then p else p.put [' ']) := by
  unfold leadingBlank
  split
  · exact .refl p
  · exact Pen.wrote_spaces p 1

theorem adjacent_of_not_left {p q : Char → Bool} {cs : List Char} (h : ∀ c ∈ cs, p c = false) :
    adjacent p q cs = false := by
  induction cs with
  | nil => rfl
  | cons a cs ih =>
    match cs with
    | [] => rfl
    | b :: cs =>
      rw [adjacent, h a List.mem_cons_self, ih fun c hc => h c (List.mem_cons_of_mem _ hc)]
      rfl

theorem adjacent_of_not_right {p q : Char → Bool} {cs : List Char} (h : ∀ c ∈ cs, q c = false) :
    adjacent p q cs = false := by
  induction cs with
  | nil => rfl
  | cons a cs ih =>
    match cs with
    | [] => rfl
    | b :: cs =>
      rw [adjacent, h b (by simp), ih fun c hc => h c (List.mem_cons_of_mem _ hc), Bool.and_false]
      rfl

open Pen in
/-- A text that may be written plainly is a word and such a tail. -/
theorem exists_runs_of_isPlain {cs : List Char} (hne : cs ≠ []) (hplain : IsPlain cs) :
    ∃ w rs, runs cs = .word w :: rs ∧ IsWord w ∧ PlainTail rs ∧
      cs = w ++ rs.flatMap Run.chars := by
  have hflat := flatMap_runs cs
  have hproper : ∀ r ∈ runs cs, r.IsProper := isProper_of_mem_runs
  have hchain := isChain_runs (adjacent_of_not_right hplain.noBreaks)
    (adjacent_of_not_left hplain.noBreaks)
  rcases hruns : runs cs with - | ⟨n | bs | w, rs⟩
  · rw [hruns] at hflat
    exact absurd hflat.symm hne
  · rw [hruns] at hflat hproper
    have hn : 0 < n := hproper (.spaces n) List.mem_cons_self
    cases n with
    | zero => exact absurd hn (Nat.lt_irrefl 0)
    | succ n => exact absurd (by rw [← hflat]; rfl) hplain.first
  · rw [hruns] at hflat hproper
    obtain ⟨hne', hall⟩ := hproper (.breaks bs) List.mem_cons_self
    cases bs with
    | nil => exact absurd rfl hne'
    | cons b bs =>
      have hb := hplain.noBreaks b (by rw [← hflat]; simp [Run.chars])
      rw [hall b List.mem_cons_self] at hb
      cases hb
  · rw [hruns] at hflat hproper hchain
    obtain ⟨hne', hall⟩ := hproper (.word w) List.mem_cons_self
    have hsplit : cs = w ++ rs.flatMap Run.chars := hflat.symm
    have hnext := List.isChain_cons.mp hchain
    have hinner := hplain.inner
    have hleading := hplain.leading
    rw [hsplit] at hinner hleading
    have hmem : ∀ c ∈ w, c ∈ cs := fun c hc => hsplit ▸ List.mem_append_left _ hc
    have hmem' : ∀ c ∈ rs.flatMap Run.chars, c ∈ cs :=
      fun c hc => hsplit ▸ List.mem_append_right _ hc
    have htail : PlainTail rs := by
      refine plainTail_of_runs hnext.2 (fun r hr => hproper r (List.mem_cons_of_mem _ hr)) ?_
        (fun c hc => hplain.writable c (hmem' c hc)) (fun c hc => hplain.noBreaks c (hmem' c hc))
        ?_ (hasInnerIndicator_of_append hinner)
      · intro r hr
        have := hnext.1 r hr
        simpa [Run.isWord] using this.symm
      · cases hrest : rs.flatMap Run.chars with
        | nil => simp
        | cons c more =>
          have hlast := hplain.last
          rwa [hsplit, hrest, List.getLast?_append_of_ne_nil _ (List.cons_ne_nil c more)] at hlast
    refine ⟨w, rs, rfl, ⟨hne', ?_, fun c hc => hplain.writable c (hmem c hc), ?_, ?_⟩, htail, hsplit⟩
    · intro c hc
      have htab := not_tab_of_isWritable (hplain.writable c (hmem c hc))
      obtain ⟨hspace, hbreak⟩ := hall c hc
      exact ⟨by simp [isSpaceOrTab, hspace, htab], hbreak⟩
    · intro hsign
      obtain ⟨more, rfl⟩ := List.head?_eq_some_iff.mp hsign
      rw [List.cons_append, hasLeadingIndicator] at hleading
      simp at hleading
    · rcases w with - | ⟨c, - | ⟨d, w⟩⟩
      · exact absurd rfl hne'
      · intro hcolon
        obtain rfl : c = ':' := by simpa using hcolon
        rw [List.cons_append, List.nil_append, hasLeadingIndicator, htail.blankFollows] at hleading
        simp at hleading
      · rw [List.getLast?_cons_cons]
        exact last_ne_colon hinner htail.blankFollows

/-- In a plain scalar the pen stands behind no blank and in no indentation. -/
theorem foldl_plainRun_fields (indent : Nat) (fold : Bool) (rs : List Pen.Run) {p : Pen}
    (hblank : p.afterBlank = false) (hin : p.inIndent = false) :
    (rs.foldl (Pen.plainRun indent fold) p).afterBlank = false ∧
      (rs.foldl (Pen.plainRun indent fold) p).inIndent = false := by
  induction rs generalizing p with
  | nil => exact ⟨hblank, hin⟩
  | cons r rs ih =>
    rw [List.foldl_cons]
    cases r with
    | spaces n =>
      rw [Pen.plainRun]
      split
      · exact ih rfl rfl
      · exact ih hblank hin
    | breaks bs => exact ih hblank hin
    | word w => exact ih hblank hin

open Pen in
/-- **A plain scalar is read as it was written**, up to the gap behind it. -/
theorem wrote_plain {cs : List Char} (hne : cs ≠ []) (hplain : IsPlain cs) (p : Pen) {indent : Nat}
    (fold : Bool) (hindent : 0 < indent) :
    ∃ t, p.Wrote (leadingBlank p ++ t) (p.plain indent fold cs) ∧
      (p.plain indent fold cs).afterBlank = false ∧ (p.plain indent fold cs).inIndent = false ∧
      (∀ rest, EndsPlain rest → ∃ c more, t ++ rest = c :: more ∧ StartsPlainly c more) ∧
      ∀ (c : Cursor) (rest : List Char) (least : Int), c.rest = t ++ rest → EndsPlain rest →
        StopsPlain least rest → least ≤ c.column + 1 → least ≤ indent →
        plainScalar false least c = (cs, (plainGap (c.skip t.length)).brokeLine,
          (plainGap (c.skip t.length)).cursor) := by
  obtain ⟨w, rs, hruns, hw, hrs, hsplit⟩ := exists_runs_of_isPlain hne hplain
  let q : Pen := { (if p.afterBlank then p else p.put [' ']) with
    afterBlank := false, inIndent := false }
  have hwrites : p.plain indent fold cs = rs.foldl (plainRun indent fold) (q.put w) := by
    rw [Pen.plain, if_neg (by simpa using hne), hruns]
    rfl
  obtain ⟨t, htail, hlength, hends, hread⟩ := wrote_plainTail hrs fold hindent
    (rfl : (q.put w).inIndent = false)
  have hfields := foldl_plainRun_fields indent fold rs
    (rfl : (q.put w).afterBlank = false) rfl
  have hfirst : p.Wrote (leadingBlank p ++ w) (q.put w) :=
    ((wrote_leadingBlank p).trans (hw.wrote _)).congr rfl rfl rfl rfl
  refine ⟨w ++ t, ?_, hwrites ▸ hfields.1, hwrites ▸ hfields.2, ?_, ?_⟩
  · rw [hwrites, ← List.append_assoc]
    exact hfirst.trans htail
  · intro rest hrest
    have hleading := hplain.leading
    rw [hsplit] at hleading
    match w, hw with
    | c :: w, hw =>
      refine ⟨c, w ++ (t ++ rest), by simp, ?_⟩
      exact startsPlainly_of_leading hw hrs.blankFollows (hends rest hrest) hleading
    | [], hw => exact absurd rfl hw.ne_nil
  · intro c rest least h hrest hstops hcolumn hleast
    rw [List.append_assoc] at h
    have hbehind := Cursor.rest_skip_of h
    have hfuel : rs.length ≤ c.remaining := by
      rw [c.remaining_eq, h]
      simp only [List.length_append]
      omega
    have hword := plainPieces_word least c.remaining hw
      (show (Gap.mk [] false c).cursor.rest = w ++ (t ++ rest) from h) (hends rest hrest)
    have hcolumn' : least ≤ (c.skip w.length).column := by
      have hlength := List.length_pos_of_ne_nil hw.ne_nil
      rw [hw.column_skip h]
      omega
    have htail := hread (c.skip w.length) rest least c.remaining hbehind hrest hstops hcolumn'
      hleast hfuel
    rw [plainScalar, hword]
    dsimp only
    rw [htail, Cursor.skip_append, hsplit]
    rfl

end Regen.Yaml
