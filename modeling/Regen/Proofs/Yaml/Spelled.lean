import Regen.Proofs.Yaml.Legible
import Regen.Proofs.Yaml.Lexed

/-! # Scalars as tokens

    A legible scalar is written without a tag, and whichever way it is spelled, it is read as one
    token: as a key if a colon follows on its line, and as a value if the next line does. -/

namespace Regen.Yaml

open Lexer

/-! ## Spellings -/

/-- **A legible scalar** needs no tag, and its text comes back from how it is spelled. -/
structure Scalar.IsLegible (indent : Nat) (s : Scalar) : Prop where
  asBlock : s.asBlock = false
  untagged : s.tag = .str ∨
    s.readsBack = true ∧ (analyze s.text).allowsPlain = true ∧ s.text ≠ []
  legible : isLegibleText indent s.text = true

/-- What is known of a scalar in its spelling. -/
inductive Scalar.SpelledAs (s : Scalar) : Spelling → Prop
  | plain (tag : s.readsBack = true) (ne_nil : s.text ≠ []) (isPlain : IsPlain s.text) :
      SpelledAs s .plain
  | singleQuoted (tag : s.tag = .str) (isSingle : IsSingle s.text) : SpelledAs s .singleQuoted
  | doubleQuoted (tag : s.tag = .str) : SpelledAs s .doubleQuoted

section spellings
variable {indent : Nat} {s : Scalar}

theorem Scalar.IsLegible.noNextLine (hs : s.IsLegible indent) : '\u0085' ∉ s.text := by
  have hlegible := hs.legible
  rw [isLegibleText, Bool.and_eq_true] at hlegible
  simpa using hlegible.1

theorem Scalar.IsLegible.width (hs : s.IsLegible indent) :
    indent + 2 < Pen.width ∨ adjacent (!Pen.isPlainInDouble ·) (· == ' ') s.text = false := by
  have hlegible := hs.legible
  rw [isLegibleText, Bool.and_eq_true] at hlegible
  simpa using hlegible.2

theorem allowsPlain_fields {cs : List Char} (hne : cs ≠ []) (h : (analyze cs).allowsPlain = true) :
    (analyze cs).isEmpty = false ∧ (analyze cs).hasBreaks = false := by
  have hbreaks := (isPlain_of_allowsPlain hne h).noBreaks
  rw [analyze, if_neg (by simpa using hne)]
  exact ⟨rfl, List.any_eq_false.mpr fun c hc => by simp [hbreaks c hc]⟩

/-- Only a text is quoted, since everything else is legible plainly. -/
theorem Scalar.IsLegible.spelledAs (hs : s.IsLegible indent) (isKey : Bool) :
    s.SpelledAs (s.spelling isKey) := by
  rw [spelling, hs.asBlock, if_neg Bool.false_ne_true]
  split
  · next hplain =>
    simp only [Bool.and_eq_true] at hplain
    obtain ⟨⟨htag, hallows⟩, -⟩ := hplain
    have hne : s.text ≠ [] := by
      intro hnil
      rcases hs.untagged with hstr | ⟨-, -, hne⟩
      · rw [readsBack, hnil, hstr] at htag
        exact absurd htag (by decide)
      · exact hne hnil
    exact .plain htag hne (isPlain_of_allowsPlain hne hallows)
  · next hquoted =>
    have hstr : s.tag = .str := by
      rcases hs.untagged with hstr | ⟨htag, hallows, hne⟩
      · exact hstr
      · obtain ⟨hempty, hbreaks⟩ := allowsPlain_fields hne hallows
        exact absurd (by simp [htag, hallows, hempty, hbreaks]) hquoted
    split
    · next hsingle =>
      rw [Bool.and_eq_true] at hsingle
      exact .singleQuoted hstr (isSingle_of_allowsSingleQuotes hsingle.1 hs.noNextLine)
    · exact .doubleQuoted hstr

theorem Scalar.SpelledAs.needsTag {spelling : Spelling} (h : s.SpelledAs spelling) :
    s.needsTag spelling = false := by
  cases h with
  | plain htag => simp [Scalar.needsTag, htag]
  | singleQuoted htag | doubleQuoted htag => simp [Scalar.needsTag, htag]

/-- A scalar is written in its spelling, without a tag. -/
theorem scalar_eq (hs : s.IsLegible indent) (w : Writer) (column : Nat) (pos : Position) :
    w.scalar column pos s = w.onPen fun p => match s.spelling (pos == .key true) with
      | .plain => p.plain (column + 2) (!(pos == .key true)) s.text
      | .singleQuoted => p.singleQuoted (column + 2) (!(pos == .key true)) s.text
      | .doubleQuoted => p.doubleQuoted (column + 2) (!(pos == .key true)) s.text
      | .block => p.block (column + 2) s.text := by
  rw [Writer.scalar, (hs.spelledAs (pos == .key true)).needsTag]
  exact congrArg (Writer.onPen · _) (if_neg Bool.false_ne_true)

end spellings

/-! ## Reading -/

/-- Where a reader stands behind a scalar, and whether a line ended there: a plain scalar takes the
    gap behind it. -/
def behindScalar (plain : Bool) (c : Cursor) : Bool × Cursor :=
  if plain then ((plainGap c).brokeLine, (plainGap c).cursor) else (false, c)

/-- **A text spells a scalar**: a reader takes it as one token, where the scalar is indented enough
    and nothing follows that would go on with it. -/
structure Spells (indent : Nat) (t : List Char) (plain : Bool) (cs : List Char) : Prop where
  ne_nil : t ≠ []
  starts : ∀ {rest}, EndsPlain rest → StartsToken (t ++ rest)
  reads : ∀ (ts : List Token) (outer : List Int) (allowed : Bool) {c : Cursor} {n : Int}
    {rest : List Char}, c.rest = t ++ rest → EndsPlain rest → rest.head? ≠ some '\'' →
      StopsPlain (n + 1) rest → n ≤ c.column → n ≤ indent →
      ∃ ch more, c.rest = ch :: more ∧
        (outside c ts (n :: outer) allowed none).token ch more =
          .ok (outside (behindScalar plain (c.skip t.length)).2 (.scalar plain cs :: ts)
            (n :: outer) (behindScalar plain (c.skip t.length)).1 (noted c ts n allowed))

section spells
variable {indent : Nat} {t cs : List Char}

/-- A text in quotes spells what is read between them. -/
theorem spells_quoted (double : Bool)
    (hread : ∀ (c : Cursor) (rest : List Char), c.rest = (if double then '"' else '\'') :: t ++ rest →
      rest.head? ≠ some '\'' → quotedScalar double c = .ok (cs, c.skip (t.length + 1))) :
    Spells indent ((if double then '"' else '\'') :: t) false cs where
  ne_nil := List.cons_ne_nil _ _
  starts _ := by
    cases double <;> simp [StartsToken, isBreak]
  reads _ _ _ _ _ _ h _ hhead _ _ _ :=
    ⟨_, _, h, token_quoted h (hread _ _ h hhead)⟩

theorem spells_plain (hstarts : ∀ rest, EndsPlain rest →
      ∃ c more, t ++ rest = c :: more ∧ StartsPlainly c more)
    (hclean : ∀ c ∈ t, isClean c = true)
    (hread : ∀ (c : Cursor) (rest : List Char) (least : Int), c.rest = t ++ rest → EndsPlain rest →
      StopsPlain least rest → least ≤ c.column + 1 → least ≤ (indent + 2 : Nat) →
      plainScalar false least c = (cs, (plainGap (c.skip t.length)).brokeLine,
        (plainGap (c.skip t.length)).cursor)) :
    Spells indent t true cs := by
  obtain ⟨d, t', ht⟩ : ∃ d t', t = d :: t' := by
    obtain ⟨d, t', ht, -⟩ := hstarts [] rfl
    exact ⟨d, t', by rwa [List.append_nil] at ht⟩
  refine ⟨by simp [ht], ?_, ?_⟩
  · intro rest hrest
    obtain ⟨c, more, hc, hplainly⟩ := hstarts rest hrest
    obtain rfl : d = c := by
      rw [ht] at hc
      exact (List.cons.inj hc).1
    intro x hx
    obtain rfl : d = x := by rw [ht] at hx; exact Option.some.inj hx
    obtain ⟨hspace, hbreak⟩ := hplainly.notBlank
    refine ⟨?_, ?_, ?_, hbreak⟩
    · rintro rfl
      exact absurd hspace (by decide)
    · rintro rfl
      exact hplainly.notIndicator (by simp)
    · rintro rfl
      exact not_mark_of_clean hclean (by rw [ht]; exact List.mem_cons_self)
  · intro ts outer allowed c n rest h hends _ hstops hcolumn hindent
    obtain ⟨ch, more, hch, hplainly⟩ := hstarts _ hends
    refine ⟨ch, more, h.trans hch, token_plain (h.trans hch) hplainly ?_⟩
    exact hread _ _ _ h hends hstops (by omega) (by omega)

theorem skip_newline {c : Cursor} {m : Nat} {rest : List Char}
    (h : c.rest = '\n' :: (List.replicate m ' ' ++ rest)) :
    (c.skip (m + 1)).rest = rest ∧ (c.skip (m + 1)).column = m ∧
      (c.skip (m + 1)).line = c.line + 1 := by
  have hsplit : c.rest = ('\n' :: List.replicate m ' ') ++ rest := by simpa using h
  have hlength : ('\n' :: List.replicate m ' ').length = m + 1 := by simp
  have hmark : '\uFEFF' ∉ '\n' :: List.replicate m ' ' := by simp
  have hspaces : List.countP isBreak (List.replicate m ' ') = 0 :=
    List.countP_eq_zero.mpr fun x hx => by simp [isBreak_replicate_space m x hx]
  refine ⟨?_, ?_, ?_⟩
  · rw [← hlength, Cursor.rest_skip_of hsplit]
  · rw [← hlength, Cursor.column_skip_of hsplit hmark, columnBehind,
      columnBehind_of_no_break (isBreak_replicate_space m)]
    simp [isBreak]
  · rw [← hlength, Cursor.line_skip_of hsplit, List.countP_cons, hspaces]
    rfl

/-- A plain scalar stops at a line that is not indented enough. -/
theorem stopsPlain_newline {m : Nat} {least : Int} {rest : List Char} (hrest : StartsToken rest)
    (hm : (m : Int) < least) : StopsPlain least ('\n' :: (List.replicate m ' ' ++ rest)) := by
  intro c hc
  obtain ⟨-, hcursor, -⟩ := plainGap_newline hc fun x hx => ⟨(hrest x hx).1, (hrest x hx).2.2.2⟩
  rw [hcursor, (skip_newline hc).2.1]
  exact .inr (.inr hm)

theorem Spells.remaining_lt {plain : Bool} (h : Spells indent t plain cs) {c : Cursor}
    {rest : List Char} (hc : c.rest = t ++ rest) : (c.skip t.length).remaining < c.remaining := by
  have hlength := List.length_pos_of_ne_nil h.ne_nil
  rw [Cursor.remaining_skip_of hc]
  omega

/-- **A scalar that a new line follows is a token.** -/
theorem Spells.value {plain : Bool} (h : Spells indent t plain cs) {c : Cursor} {ts : List Token}
    {n : Int} {outer : List Int} {allowed : Bool} {tokens : List Token} {m : Nat}
    {rest : List Char} (hc : c.rest = t ++ '\n' :: (List.replicate m ' ' ++ rest))
    (hrest : StartsToken rest) (hm : (m : Int) ≤ n) (hn : n < c.column) (hindent : n ≤ indent)
    (hnext : YieldsFrom (outside (c.skip (t.length + (m + 1))) (.scalar plain cs :: ts)
      (n :: outer) true none) tokens) :
    YieldsFrom (outside c ts (n :: outer) allowed none) tokens := by
  obtain ⟨ch, more, hch, htoken⟩ := h.reads ts outer allowed hc rfl
    (by simp) (stopsPlain_newline hrest (by omega)) (by omega) hindent
  have hbehind := Cursor.rest_skip_of hc
  obtain ⟨hgone, -, hline⟩ := skip_newline hbehind
  rw [Cursor.skip_add] at hnext
  have hlater : c.line ≤ (c.skip t.length).line := Cursor.line_le_skip _ _
  -- The scalar's own candidate is not required, because it is deeper than the block.
  have hk : ∀ candidate ∈ noted c ts n allowed,
      candidate.required = false ∧ candidate.line = c.line := by
    intro candidate hcandidate
    rw [of_noted hcandidate]
    exact ⟨beq_eq_false_iff_ne.mpr (by omega), rfl⟩
  have hyields : (outside (behindScalar plain (c.skip t.length)).2 (.scalar plain cs :: ts)
      (n :: outer) (behindScalar plain (c.skip t.length)).1 (noted c ts n allowed)).Yields tokens ∧
      (behindScalar plain (c.skip t.length)).2.remaining ≤ (c.skip t.length).remaining := by
    cases plain with
    | false =>
      exact ⟨hnext.newline hbehind hrest fun k hk' => ⟨(hk k hk').1, (hk k hk').2.le.trans hlater⟩,
        Nat.le_refl _⟩
    | true =>
      obtain ⟨hbroke, hcursor, -⟩ := plainGap_newline hbehind
        fun x hx => ⟨(hrest x hx).1, (hrest x hx).2.2.2⟩
      rw [behindScalar, if_pos rfl, hbroke, hcursor]
      refine ⟨hnext.line (hgone.symm ▸ hrest) fun k hk' => ⟨(hk k hk').1, ?_⟩,
        remaining_skip_le _ _⟩
      rw [(hk k hk').2, hline]
      omega
  exact @yieldsFrom_token c ts n outer allowed tokens _ _ [] _
    (fun _ h => absurd h List.not_mem_nil) (by omega) hch htoken
    (Nat.lt_of_le_of_lt hyields.2 (h.remaining_lt hc)) hyields.1

/-- What may be a key is still within reach at a colon on its line. -/
theorem settles_at_colon {c : Cursor} {t rest : List Char} (hc : c.rest = t ++ ':' :: rest)
    (hbreaks : ∀ x ∈ t, isBreak x = false) (hlength : t.length ≤ 1024) {candidate : KeyCandidate}
    (hline : candidate.line = c.line) (hindex : candidate.index = c.index) (ts : List Token)
    (stack : List Int) :
    (outside (c.skip t.length) ts stack false (some candidate)).skipBlanks.dropStale =
      .ok (outside (c.skip t.length) ts stack false (some candidate)) := by
  have hbehind := Cursor.rest_skip_of hc
  have hsame : (c.skip t.length).line = c.line := by
    rw [Cursor.line_skip_of hc, List.countP_eq_zero.mpr fun x hx => by simp [hbreaks x hx]]
    rfl
  rw [skipBlanks_token]
  · refine dropStale_near (hline.trans hsame.symm) ?_
    rw [Cursor.index_skip_of hc, hindex]
    omega
  · rw [show (outside (c.skip t.length) _ _ _ _).cursor.rest = ':' :: rest from hbehind]
    simp [StartsToken, isBreak]

/-- A scalar that a colon follows on its line is read, and the colon makes it a key. -/
theorem Spells.exists_key {plain : Bool} (h : Spells indent t plain cs) {c : Cursor}
    {ts : List Token} {n : Int} {outer : List Int} {tokens : List Token} {rest : List Char}
    (hc : c.rest = t ++ ':' :: rest) (hrest : endsWord rest = true)
    (hbreaks : ∀ x ∈ t, isBreak x = false) (hclean : ∀ x ∈ t, isClean x = true)
    (hlength : t.length ≤ 1024) (hn : n ≤ c.column) (hindent : n ≤ indent)
    (hnext : (outside (c.skip (t.length + 1)) (.value :: .scalar plain cs :: .key ::
      (opening n c.column .blockMappingStart ++ ts))
      (c.column :: (around n c.column ++ outer)) false none).Yields tokens) :
    ∃ ch more y, c.rest = ch :: more ∧
      (outside c ts (n :: outer) true none).token ch more = .ok y ∧
      y.cursor.remaining < c.remaining ∧ y.Yields tokens := by
  have hvisible : IsVisible (':' :: rest) := by simp [IsVisible, isBreak]
  have hstops : StopsPlain (n + 1) (':' :: rest) := by
    intro d hd
    rw [plainGap_spaces (n := 0) hd hvisible]
    exact .inl rfl
  obtain ⟨ch, more, hch, htoken⟩ := h.reads ts outer true hc hrest
    (by simp) hstops hn hindent
  have hbehind := Cursor.rest_skip_of hc
  have hend : behindScalar plain (c.skip t.length) = (false, c.skip t.length) := by
    cases plain with
    | false => rfl
    | true =>
      rw [behindScalar, if_pos rfl, plainGap_spaces (n := 0) hbehind hvisible]
      rfl
  rw [hend] at htoken
  refine ⟨ch, more, _, hch, htoken, h.remaining_lt hc, ?_⟩
  let candidate : KeyCandidate := ⟨ts.length, n == c.column, c.index, c.line, c.column⟩
  have hsettle := @settles_at_colon c t rest hc hbreaks hlength candidate rfl rfl
    (.scalar plain cs :: ts) (n :: outer)
  have hdeeper : n ≤ ((c.skip t.length).column : Int) := by
    rw [Cursor.column_skip_of hc (not_mark_of_clean hclean), columnBehind_of_no_break hbreaks]
    omega
  rw [Cursor.skip_add] at hnext
  have hkey := @token_keyValue _ ts n outer false _ _ hbehind hrest (.scalar plain cs) candidate rfl
    rfl hn
  exact .of_token hsettle (unwind_of_le hdeeper) hbehind hkey (remaining_next_lt hbehind) hnext

/-- **A scalar that a colon follows on its line is a key**, and deeper blocks end before it. -/
theorem Spells.key {plain : Bool} (h : Spells indent t plain cs) {c : Cursor} {ts : List Token}
    {n : Int} {outer opened : List Int} {tokens : List Token} {rest : List Char}
    (hc : c.rest = t ++ ':' :: rest) (hrest : endsWord rest = true)
    (hbreaks : ∀ x ∈ t, isBreak x = false) (hclean : ∀ x ∈ t, isClean x = true)
    (hlength : t.length ≤ 1024) (hopened : ∀ o ∈ opened, (c.column : Int) < o)
    (hn : n ≤ c.column) (hindent : n ≤ indent)
    (hnext : (outside (c.skip (t.length + 1)) (.value :: .scalar plain cs :: .key ::
      (opening n c.column .blockMappingStart ++
        (List.replicate opened.length .blockEnd ++ ts)))
      (c.column :: (around n c.column ++ outer)) false none).Yields tokens) :
    YieldsFrom (outside c ts (opened ++ n :: outer) true none) tokens := by
  obtain ⟨ch, more, y, hch, htoken, hless, hyields⟩ :=
    h.exists_key hc hrest hbreaks hclean hlength hn hindent hnext
  exact yieldsFrom_token hopened hn hch htoken hless hyields

end spells

/-! ## Writing -/

/-- The text of a scalar on one line. -/
def lineText (cs : List Char) : Spelling → List Char
  | .plain => cs
  | .singleQuoted => '\'' :: doubledQuotes cs ++ ['\'']
  | .doubleQuoted =>
    '"' :: cs.flatMap (fun c => if Pen.isPlainInDouble c then [c] else Pen.escaped c) ++ ['"']
  | .block => []

section lines
variable {p p' : Pen} {indent : Nat} {t u cs : List Char}

theorem Pen.Wrote.eq_of_reversed (h : p.Wrote t p') (hu : p'.reversed = u.reverse ++ p.reversed) :
    t = u :=
  List.reverse_injective (List.append_cancel_right (h.reversed.symm.trans hu))

theorem reversed_put (p : Pen) (cs : List Char) :
    (p.put cs).reversed = cs.reverse ++ p.reversed := List.reverseAux_eq

theorem reversed_foldl_plainRun (rs : List Pen.Run) (p : Pen) :
    (rs.foldl (Pen.plainRun indent false) p).reversed =
      (rs.flatMap Pen.Run.chars).reverse ++ p.reversed := by
  induction rs generalizing p with
  | nil => rfl
  | cons r rs ih =>
    have hrun : Pen.plainRun indent false p r = p.put r.chars := by
      cases r with
      | spaces n => exact if_neg (by simp)
      | breaks bs => rfl
      | word w => rfl
    rw [List.foldl_cons, ih, hrun, reversed_put, List.flatMap_cons, List.reverse_append,
      List.append_assoc]

theorem doubledQuotes_spaces (n : Nat) :
    doubledQuotes (List.replicate n ' ') = List.replicate n ' ' := by
  induction n with
  | zero => rfl
  | succ n ih =>
    rw [List.replicate_succ, doubledQuotes, List.flatMap_cons]
    exact congrArg _ ih

theorem reversed_singleQuotedRuns {rs : List Pen.Run} (first : Bool) (p : Pen)
    (hproper : ∀ r ∈ rs, r.IsProper) (hbreaks : ∀ x ∈ rs.flatMap Pen.Run.chars, isBreak x = false) :
    (Pen.singleQuotedRuns indent false first p rs).reversed =
      (doubledQuotes (rs.flatMap Pen.Run.chars)).reverse ++ p.reversed := by
  induction rs generalizing p first with
  | nil => rfl
  | cons r rs ih =>
    rw [List.forall_mem_cons] at hproper
    rw [List.flatMap_cons, List.forall_mem_append] at hbreaks
    have hrun : Pen.singleQuotedRuns indent false first p (r :: rs) =
        Pen.singleQuotedRuns indent false false (p.put (doubledQuotes r.chars)) rs := by
      cases r with
      | spaces n =>
        rw [Pen.singleQuotedRuns, if_neg (by simp), Pen.Run.chars, doubledQuotes_spaces]
      | breaks bs =>
        -- There are no line ends.
        obtain ⟨hne, hall⟩ := hproper.1
        obtain ⟨b, hb⟩ := List.exists_mem_of_ne_nil bs hne
        exact absurd (hall b hb) (by simp [hbreaks.1 b hb])
      | word w => rfl
    rw [hrun, ih _ _ hproper.2 hbreaks.2, reversed_put, List.flatMap_cons, doubledQuotes,
      doubledQuotes, doubledQuotes, List.flatMap_append, List.reverse_append, List.append_assoc]

theorem reversed_doubleQuotedFrom (first : Bool) (pending : List Char) (p : Pen) :
    (Pen.doubleQuotedFrom indent false cs first pending p).reversed =
      (pending.reverse ++
        cs.flatMap (fun c => if Pen.isPlainInDouble c then [c] else Pen.escaped c)).reverse ++
          p.reversed := by
  induction cs generalizing first pending p with
  | nil => simp [Pen.doubleQuotedFrom, reversed_put]
  | cons c cs ih =>
    rw [Pen.doubleQuotedFrom]
    by_cases hplain : Pen.isPlainInDouble c = true
    · simp [hplain, ih]
    · simp [hplain, ih, reversed_put]

open Pen in
/-- **A scalar that is not folded** is written on one line. -/
theorem reversed_unfolded {spelling : Spelling} {s : Scalar} (h : s.SpelledAs spelling) (p : Pen)
    (hbreaks : ∀ x ∈ s.text, isBreak x = false) :
    (match spelling with
      | .plain => p.plain indent false s.text
      | .singleQuoted => p.singleQuoted indent false s.text
      | .doubleQuoted => p.doubleQuoted indent false s.text
      | .block => p.block indent s.text).reversed =
        (leadingBlank p ++ lineText s.text spelling).reverse ++ p.reversed := by
  have hquote : ∀ q, (p.indicator [q] true false).reversed =
      (leadingBlank p ++ [q]).reverse ++ p.reversed := by
    intro q
    rw [indicator]
    cases hblank : p.afterBlank <;> simp [leadingBlank, hblank, reversed_put]
  have hclose : ∀ (p : Pen) q, (p.indicator [q] false false).reversed = q :: p.reversed :=
    fun p q => rfl
  cases h with
  | plain _ hne _ =>
    dsimp only
    rw [Pen.plain, if_neg (by simpa using hne), reversed_foldl_plainRun, flatMap_runs]
    cases hblank : p.afterBlank <;> simp [leadingBlank, hblank, lineText, reversed_put]
  | singleQuoted =>
    dsimp only
    rw [Pen.singleQuoted, hclose, reversed_singleQuotedRuns _ _ isProper_of_mem_runs
      (by rwa [flatMap_runs]), hquote, flatMap_runs]
    simp [lineText]
  | doubleQuoted =>
    dsimp only
    rw [Pen.doubleQuoted, hclose, reversed_doubleQuotedFrom, hquote]
    simp [lineText]

theorem isBreak_lineText {spelling : Spelling} (hbreaks : ∀ x ∈ cs, isBreak x = false) :
    ∀ x ∈ lineText cs spelling, isBreak x = false := by
  intro x hx
  cases spelling with
  | plain => exact hbreaks x hx
  | singleQuoted =>
    simp only [lineText, List.cons_append, List.mem_cons, List.mem_append, List.not_mem_nil,
      or_false] at hx
    rcases hx with rfl | hx | rfl
    · rfl
    · exact hbreaks x (mem_doubledQuotes hx)
    · rfl
  | doubleQuoted =>
    simp only [lineText, List.cons_append, List.mem_cons, List.mem_append, List.not_mem_nil,
      or_false, List.mem_flatMap] at hx
    rcases hx with rfl | ⟨y, hy, hx⟩ | rfl
    · rfl
    · split at hx
      · exact hbreaks x (List.mem_singleton.mp hx ▸ hy)
      · exact (escaped_chars y x hx).1
    · rfl
  | block => cases hx

theorem length_doubledQuotes_le (cs : List Char) :
    (doubledQuotes cs).length ≤ 2 * cs.length := by
  induction cs with
  | nil => exact Nat.le_refl _
  | cons c cs ih =>
    rw [doubledQuotes] at ih ⊢
    rw [List.flatMap_cons, List.length_append, List.length_cons]
    have hfirst : (if c == '\'' then ['\'', '\''] else [c]).length ≤ 2 := by
      split <;> simp
    omega

theorem length_lineText_le {spelling : Spelling} (hlength : cs.length < 128)
    (hwidth : quotedWidth cs ≤ 1022) : (lineText cs spelling).length ≤ 1024 := by
  cases spelling with
  | plain =>
    show cs.length ≤ 1024
    omega
  | singleQuoted =>
    have := length_doubledQuotes_le cs
    simp only [lineText, List.length_append, List.length_cons, List.length_nil]
    omega
  | doubleQuoted =>
    have hflat : (cs.flatMap fun c => if Pen.isPlainInDouble c then [c] else Pen.escaped c).length =
        quotedWidth cs := by
      rw [List.length_flatMap, quotedWidth]
      congr 1
      refine List.map_congr_left fun c _ => ?_
      split <;> rfl
    simp only [lineText, List.length_append, List.length_cons, List.length_nil, hflat]
    omega
  | block => exact Nat.zero_le _

end lines

section writing
variable {indent : Nat} {s : Scalar}

/-- **A legible scalar is written as a text that spells it.** -/
theorem wrote_scalar (hs : s.IsLegible indent) (w : Writer) (pos : Position) :
    ∃ t, w.pen.Wrote (leadingBlank w.pen ++ t) (w.scalar indent pos s).pen ∧
      (w.scalar indent pos s).pen.inIndent = false ∧
      Spells indent t (s.spelling (pos == .key true) == .plain) s.text := by
  have hspelled := hs.spelledAs (pos == .key true)
  rw [scalar_eq hs]
  generalize s.spelling (pos == .key true) = spelling at hspelled ⊢
  cases hspelled with
  | plain _ hne hplain =>
    obtain ⟨t, hwrote, -, hin, hstarts, hread⟩ :=
      wrote_plain hne hplain w.pen (!(pos == .key true)) (Nat.succ_pos (indent + 1))
    have hclean : ∀ c ∈ t, isClean c = true :=
      fun c hc => hwrote.clean c (List.mem_append_right _ hc)
    exact ⟨t, hwrote, hin, spells_plain hstarts hclean fun c rest least h hends hstops =>
      hread c rest least h hends hstops⟩
  | singleQuoted _ hsingle =>
    obtain ⟨t, hwrote, hread⟩ :=
      wrote_singleQuoted hsingle w.pen (!(pos == .key true)) (Nat.succ_pos (indent + 1))
    exact ⟨'\'' :: t, hwrote, Bool.and_false _, spells_quoted false hread⟩
  | doubleQuoted _ =>
    obtain ⟨t, hwrote, hread⟩ :=
      wrote_doubleQuoted w.pen (!(pos == .key true)) (Nat.succ_pos (indent + 1)) hs.width
    exact ⟨'"' :: t, hwrote, Bool.and_false _,
      spells_quoted true fun c rest h _ => hread c rest h⟩

/-- **A key that fits on its line is written there**, within reach of its colon. -/
theorem wrote_key (hs : s.IsLegible indent) (w : Writer) (hbreaks : ∀ x ∈ s.text, isBreak x = false)
    (hlength : s.text.length < 128) (hwidth : quotedWidth s.text ≤ 1022) :
    ∃ t, w.pen.Wrote (leadingBlank w.pen ++ t) (w.scalar indent (.key true) s).pen ∧
      Spells indent t (s.spelling true == .plain) s.text ∧ (∀ x ∈ t, isBreak x = false) ∧
      t.length ≤ 1024 := by
  obtain ⟨t, hwrote, -, hspells⟩ := wrote_scalar hs w (.key true)
  have hline : leadingBlank w.pen ++ t =
      leadingBlank w.pen ++ lineText s.text (s.spelling true) := by
    refine hwrote.eq_of_reversed ?_
    rw [scalar_eq hs]
    exact reversed_unfolded (hs.spelledAs true) w.pen hbreaks
  obtain rfl := List.append_cancel_left hline
  exact ⟨_, hwrote, hspells, isBreak_lineText hbreaks, length_lineText_le hlength hwidth⟩

end writing

end Regen.Yaml
