import Regen.Proofs.Yaml.Numerals
import Regen.Proofs.Yaml.Sharing

/-! # Values as tokens

    What a writer writes of a legible value that shares nothing is read as the tokens of that
    value.  Behind a value some blocks may still be open; they end where the next token stands, so
    that a reader has told only a part of the value's tokens when it comes to the next line. -/

namespace Regen.Yaml

open Lexer Value

/-! ## Tokens -/

/-- The token of a scalar. -/
def scalarTokens (isKey : Bool) (v : Value) : List Token :=
  match Scalar.ofValue? v with
  | some s => [.scalar (s.spelling isKey == .plain) s.text]
  | none => []

mutual

/-- The tokens of a value.  Nothing marks the start and the end of a list that is not indented. -/
def tokensOf (indented : Bool) : Value → List Token
  | .list xs _ =>
    if xs.isEmpty then [.flowSequenceStart, .flowSequenceEnd]
    else if indented then .blockSequenceStart :: (itemTokens xs ++ [.blockEnd])
    else itemTokens xs
  | .map es _ =>
    if es.isEmpty then [.flowMappingStart, .flowMappingEnd]
    else .blockMappingStart :: (entryTokens es ++ [.blockEnd])
  | v => scalarTokens false v

def itemTokens : List Value → List Token
  | [] => []
  | x :: xs => .blockEntry :: (tokensOf true x ++ itemTokens xs)

/-- A list behind a key on the same line is not indented. -/
def entryTokens : List (Value × Value) → List Token
  | [] => []
  | (k, v) :: es =>
    .key :: (scalarTokens (Writer.isShortKey.fits k 0) k ++
      .value :: (tokensOf (!Writer.isShortKey.fits k 0) v ++ entryTokens es))

end

/-! ## Writers that share nothing -/

section unshared
variable {w : Writer} (h : w.shared = [])
include h

theorem announce_of_unshared (v : Value) : w.announce v = (w, true) := by
  have hnone : w.anchorNumber? (anchorLabel v) = none := by
    rw [Writer.anchorNumber?, h]
    cases anchorLabel v <;> rfl
  rw [Writer.announce, hnone]

theorem value_of_unshared (indent : Nat) (pos : Position) (v : Value) :
    w.value indent pos v = content w indent pos v := by
  rw [value_eq, announce_of_unshared h, if_pos rfl]

theorem isShortKey_of_unshared (k : Value) : w.isShortKey k = Writer.isShortKey.fits k 0 := by
  have hnone : w.anchorNumber? (anchorLabel k) = none := by
    rw [Writer.anchorNumber?, h]
    cases anchorLabel k <;> rfl
  rw [Writer.isShortKey, hnone]

end unshared

/-! ## What is written and read of a value -/

/-- A writer behind the indicator that a value of a block stands behind. -/
structure Ready (w : Writer) (indent : Nat) : Prop where
  shared : w.shared = []
  afterBlank : w.pen.afterBlank = false
  deeper : indent < w.pen.column
  column : w.pen.inIndent = true → w.pen.column = indent + 1

/-- **A writer wrote something that a lexer reads as tokens**, of which the last ones end the
    blocks that are still open on the next line. -/
def Lexes (w : Writer) (indent : Nat) (w' : Writer) (tokens : List Token) : Prop :=
  w'.shared = [] ∧ w'.pen.inIndent = false ∧ ∃ (t : List Char) (emitted : List Token) (opened : List Int),
    w.pen.Wrote t w'.pen ∧ (∀ rest, endsWord (t ++ rest) = true) ∧
    emitted ++ List.replicate opened.length .blockEnd = tokens ∧
    (∀ o ∈ opened, (indent : Int) < o) ∧
    ∀ {c : Cursor} {ts : List Token} {outer : List Int} {m : Nat} {rest : List Char}
      {all : List Token}, c.rest = t ++ '\n' :: (List.replicate m ' ' ++ rest) →
      StartsToken rest → m ≤ indent → c.column = w.pen.column →
      YieldsFrom (outside (c.skip (t.length + (m + 1))) (emitted.reverse ++ ts)
        (opened ++ (indent : Int) :: outer) true none) all →
      (outside c ts ((indent : Int) :: outer) w.pen.inIndent none).Yields all

section scalars
variable {w : Writer} {indent : Nat}

theorem lexes_scalar {s : Scalar} (hw : Ready w indent) (hs : s.IsLegible indent) {pos : Position}
    (hpos : pos ≠ .key true) :
    Lexes w indent (w.scalar indent pos s) [.scalar (s.spelling false == .plain) s.text] := by
  obtain ⟨t, hwrote, hin, hspells⟩ := wrote_scalar hs w pos
  rw [beq_eq_false_iff_ne.mpr hpos] at hspells
  rw [leadingBlank, hw.afterBlank] at hwrote
  have hshared : (w.scalar indent pos s).shared = [] := by
    rw [scalar_eq hs]
    exact hw.shared
  refine ⟨hshared, hin, ' ' :: t, [.scalar (s.spelling false == .plain) s.text], [], hwrote,
    fun _ => rfl, rfl, fun _ h => absurd h List.not_mem_nil, ?_⟩
  intro c ts outer m rest all hc hrest hm hcolumn hnext
  have hspace : c.rest = List.replicate 1 ' ' ++ (t ++ '\n' :: (List.replicate m ' ' ++ rest)) := hc
  refine YieldsFrom.spaces (m := 1) ?_ hspace (hspells.starts rfl)
  have hbehind := rest_skip_spaces hspace
  have hdeeper : (c.skip 1).column = c.column + 1 := column_skip_spaces hspace
  refine hspells.value hbehind hrest (by omega) ?_ (Int.le_refl _) ?_
  · have := hw.deeper
    omega
  · rwa [← Cursor.skip_add, Nat.add_comm 1, Nat.add_right_comm]

/-- An empty collection is a pair of brackets. -/
theorem lexes_brackets {left right : Char} {start finish : Token} (hw : Ready w indent)
    (hkind : (left = '[' ∧ right = ']' ∧ start = .flowSequenceStart ∧ finish = .flowSequenceEnd) ∨
      (left = '\x7b' ∧ right = '\x7d' ∧ start = .flowMappingStart ∧ finish = .flowMappingEnd)) :
    Lexes w indent (w.onPen (·.indicator [left, right] true false)) [start, finish] := by
  have hchars : (∀ x ∈ [left, right], isBreak x = false) ∧ ∀ x ∈ [left, right], isClean x = true := by
    refine ⟨List.forall_mem_cons.mpr ⟨?_, List.forall_mem_singleton.mpr ?_⟩,
      List.forall_mem_cons.mpr ⟨?_, List.forall_mem_singleton.mpr ?_⟩⟩
    all_goals rcases hkind with ⟨rfl, rfl, -⟩ | ⟨rfl, rfl, -⟩ <;> decide
  have hwrote := Pen.wrote_indicator w.pen true false hchars.1 hchars.2
  rw [Pen.indicatorText, hw.afterBlank] at hwrote
  refine ⟨hw.shared, Bool.and_false _, [' ', left, right], [start, finish], [], hwrote,
    fun _ => rfl, rfl, fun _ h => absurd h List.not_mem_nil, ?_⟩
  intro c ts outer m rest all hc hrest hm hcolumn hnext
  have hspace : c.rest = List.replicate 1 ' ' ++
      (left :: right :: '\n' :: (List.replicate m ' ' ++ rest)) := hc
  have hstarts : StartsToken (left :: right :: '\n' :: (List.replicate m ' ' ++ rest)) := by
    rcases hkind with ⟨rfl, -⟩ | ⟨rfl, -⟩ <;> simp [StartsToken, isBreak]
  have hdeeper : (c.skip 1).column = c.column + 1 := column_skip_spaces hspace
  have hbehind := rest_skip_spaces hspace
  have hafter : ((c.skip 1).skip 2).rest = '\n' :: (List.replicate m ' ' ++ rest) :=
    Cursor.rest_skip_of (t := [left, right]) hbehind
  have hcolumn' : (indent : Int) < (c.skip 1).column := by
    have := hw.deeper
    omega
  refine YieldsFrom.spaces (m := 1) (yieldsFrom_brackets hkind hbehind (Int.le_of_lt hcolumn') ?_)
    hspace hstarts
  refine YieldsFrom.newline (m := m) ?_ hafter hrest fun k hk => ?_
  · rw [Cursor.skip_add] at hnext
    exact hnext
  · rw [of_noted hk]
    exact ⟨beq_eq_false_iff_ne.mpr (Int.ne_of_lt hcolumn'), Cursor.line_le_skip 2 _⟩

end scalars

/-! ## Blocks -/

/-- **A writer wrote a block at a column**, which a lexer reads there as tokens.  The block may be
    one that is already open, and deeper blocks before it end where it starts. -/
def LexesBlock (w : Writer) (column : Nat) (start : Token) (w' : Writer) (tokens : List Token) :
    Prop :=
  w'.shared = [] ∧ w'.pen.inIndent = false ∧
    ∃ (t : List Char) (emitted : List Token) (opened : List Int),
    (w.pen.indentTo column).Wrote t w'.pen ∧ (∀ rest, StartsToken (t ++ '\n' :: rest)) ∧
    emitted ++ List.replicate opened.length .blockEnd = tokens ∧
    (∀ o ∈ opened, (column : Int) < o) ∧
    ∀ (before : List Int) {c : Cursor} {ts : List Token} {n : Int} {outer : List Int} {m : Nat}
      {rest : List Char} {all : List Token}, c.rest = t ++ '\n' :: (List.replicate m ' ' ++ rest) →
      StartsToken rest → m ≤ column → c.column = column → n ≤ column →
      (∀ o ∈ before, (column : Int) < o) →
      YieldsFrom (outside (c.skip (t.length + (m + 1)))
        (emitted.reverse ++ (opening n column start ++
          (List.replicate before.length .blockEnd ++ ts)))
        (opened ++ (column : Int) :: (around n column ++ outer)) true none) all →
      YieldsFrom (outside c ts (before ++ n :: outer) true none) all

/-- **A writer went on at the column of a block that is open**, which a lexer reads there as
    tokens. -/
def LexesFurther (w : Writer) (column : Nat) (w' : Writer) (tokens : List Token) : Prop :=
  w'.shared = [] ∧ w'.pen.inIndent = false ∧
    ∃ (t : List Char) (emitted : List Token) (opened : List Int),
    (w.pen.indentTo column).Wrote t w'.pen ∧ (∀ rest, StartsToken (t ++ '\n' :: rest)) ∧
    emitted ++ List.replicate opened.length .blockEnd = tokens ∧
    (∀ o ∈ opened, (column : Int) < o) ∧
    ∀ (before : List Int) {c : Cursor} {ts : List Token} {outer : List Int} {m : Nat}
      {rest : List Char} {all : List Token}, c.rest = t ++ '\n' :: (List.replicate m ' ' ++ rest) →
      StartsToken rest → m ≤ column → c.column = column → (∀ o ∈ before, (column : Int) < o) →
      YieldsFrom (outside (c.skip (t.length + (m + 1)))
        (emitted.reverse ++ (List.replicate before.length .blockEnd ++ ts))
        (opened ++ (column : Int) :: outer) true none) all →
      YieldsFrom (outside c ts (before ++ (column : Int) :: outer) true none) all

section blocks
variable {w w' : Writer} {indent column : Nat} {start : Token} {tokens : List Token}

theorem gapTo_of_line {p : Pen} (h : p.inIndent = false) (column : Nat) :
    p.gapTo column = '\n' :: List.replicate column ' ' := by
  rw [Pen.gapTo, if_pos (by simp [Pen.mustBreak, h])]

/-- A pen that is still in the indentation goes on behind one space. -/
theorem gapTo_of_ready (hw : Ready w indent) (hin : w.pen.inIndent = true) :
    w.pen.gapTo (indent + 2) = [' '] := by
  have hcolumn := hw.column hin
  have hone : indent + 2 - w.pen.column = 1 := by omega
  rw [Pen.gapTo, if_neg, hone]
  · rfl
  · simp only [Pen.mustBreak, hin, hw.afterBlank, Bool.not_true, Bool.false_or, Bool.not_false,
      Bool.and_true, Bool.or_eq_true, decide_eq_true_eq, beq_iff_eq]
    omega

/-- A block starts on a new line, or behind one space where the pen is still in the
    indentation. -/
theorem yields_of_gap (ts : List Token) (stack : List Int) (all : List Token) (hw : Ready w indent)
    (hcolumn : w.pen.inIndent = true → column = indent + 2) {c : Cursor} {rest : List Char}
    (hc : c.rest = w.pen.gapTo column ++ rest) (hrest : StartsToken rest)
    (hplace : c.column = w.pen.column) :
    (c.skip (w.pen.gapTo column).length).rest = rest ∧
      (c.skip (w.pen.gapTo column).length).column = column ∧
      (YieldsFrom (outside (c.skip (w.pen.gapTo column).length) ts stack true none) all →
        (outside c ts stack w.pen.inIndent none).Yields all) := by
  cases hin : w.pen.inIndent with
  | false =>
    rw [gapTo_of_line hin] at hc ⊢
    have hline : c.rest = '\n' :: (List.replicate column ' ' ++ rest) := hc
    obtain ⟨hgone, hat, -⟩ := skip_newline hline
    rw [List.length_cons, List.length_replicate]
    exact ⟨hgone, hat, fun h => h.newline hline hrest fun k hk => by cases hk⟩
  | true =>
    obtain rfl := hcolumn hin
    rw [gapTo_of_ready hw hin] at hc ⊢
    have hspace : c.rest = List.replicate 1 ' ' ++ rest := hc
    refine ⟨rest_skip_spaces hspace, ?_, fun h => h.spaces hspace hrest⟩
    rw [List.length_singleton, column_skip_spaces hspace, hplace, hw.column hin]

/-- A value that is written as a deeper block. -/
theorem LexesBlock.deeper (h : LexesBlock w (indent + 2) start w' tokens) (hw : Ready w indent) :
    Lexes w indent w' (start :: (tokens ++ [.blockEnd])) := by
  obtain ⟨hshared, hin, t, emitted, opened, hwrote, hstarts, htokens, hopened, hread⟩ := h
  refine ⟨hshared, hin, w.pen.gapTo (indent + 2) ++ t, start :: emitted,
    opened ++ [((indent + 2 : Nat) : Int)], (Pen.wrote_indentTo _ _).trans hwrote, ?_, ?_, ?_, ?_⟩
  · intro rest
    cases hline : w.pen.inIndent with
    | false => rw [gapTo_of_line hline]; rfl
    | true => rw [gapTo_of_ready hw hline]; rfl
  · rw [← htokens, List.length_append, List.length_singleton, List.replicate_succ']
    simp
  · intro o ho
    rcases List.mem_append.mp ho with ho | ho
    · have := hopened o ho
      omega
    · obtain rfl := List.mem_singleton.mp ho
      omega
  · intro c ts outer m rest all hc hrest hm hplace hnext
    rw [List.append_assoc] at hc
    obtain ⟨hgone, hat, hyields⟩ := yields_of_gap ts ((indent : Int) :: outer) all hw
      (fun _ => rfl) hc (hstarts _) hplace
    refine hyields (hread [] hgone hrest (by omega) hat (by omega)
      (fun _ h => absurd h List.not_mem_nil) ?_)
    have hless : (indent : Int) < (indent + 2 : Nat) := by omega
    rw [opening, if_pos hless, around, if_pos hless, ← Cursor.skip_add, ← Nat.add_assoc,
      ← List.length_append]
    simpa using hnext

/-- A list that is written at the column of the block around it. -/
theorem LexesBlock.level (h : LexesBlock w indent start w' tokens) (hw : Ready w indent)
    (hline : w.pen.inIndent = false) : Lexes w indent w' tokens := by
  obtain ⟨hshared, hin, t, emitted, opened, hwrote, hstarts, htokens, hopened, hread⟩ := h
  refine ⟨hshared, hin, w.pen.gapTo indent ++ t, emitted, opened,
    (Pen.wrote_indentTo _ _).trans hwrote, ?_, htokens, hopened, ?_⟩
  · intro rest
    rw [gapTo_of_line hline]
    rfl
  · intro c ts outer m rest all hc hrest hm hplace hnext
    rw [List.append_assoc] at hc
    obtain ⟨hgone, hat, hyields⟩ := yields_of_gap ts ((indent : Int) :: outer) all hw
      (fun h => by rw [hline] at h; cases h) hc (hstarts _) hplace
    refine hyields (hread [] hgone hrest hm hat (Int.le_refl _)
      (fun _ h => absurd h List.not_mem_nil) ?_)
    rw [opening, if_neg (Int.lt_irrefl _), around, if_neg (Int.lt_irrefl _), ← Cursor.skip_add,
      ← Nat.add_assoc, ← List.length_append]
    exact hnext

/-- What starts a block may also go on with it. -/
theorem LexesBlock.further (h : LexesBlock w column start w' tokens) :
    LexesFurther w column w' tokens := by
  obtain ⟨hshared, hline, t, emitted, opened, hwrote, hstarts, htokens, hopened, hread⟩ := h
  refine ⟨hshared, hline, t, emitted, opened, hwrote, hstarts, htokens, hopened, ?_⟩
  intro before c ts outer m rest all hc hrest hm hat hbefore hnext
  refine hread before hc hrest hm hat (Int.le_refl _) hbefore ?_
  rwa [opening, if_neg (Int.lt_irrefl _), around, if_neg (Int.lt_irrefl _)]

/-- One part of a block after the other. -/
theorem LexesBlock.trans {w'' : Writer} {tokens' : List Token}
    (h : LexesBlock w column start w' tokens) (h' : LexesFurther w' column w'' tokens') :
    LexesBlock w column start w'' (tokens ++ tokens') := by
  obtain ⟨-, hline, t, emitted, opened, hwrote, hstarts, htokens, hopened, hread⟩ := h
  obtain ⟨hshared', hline', t', emitted', opened', hwrote', hstarts', htokens', hopened', hread'⟩ :=
    h'
  have hgap : w'.pen.Wrote ('\n' :: List.replicate column ' ') (w'.pen.indentTo column) := by
    rw [← gapTo_of_line hline]
    exact Pen.wrote_indentTo _ _
  refine ⟨hshared', hline', t ++ '\n' :: (List.replicate column ' ' ++ t'),
    emitted ++ (List.replicate opened.length .blockEnd ++ emitted'), opened', ?_, ?_, ?_, hopened',
    ?_⟩
  · simpa using hwrote.trans (hgap.trans hwrote')
  · intro rest
    rw [List.append_assoc]
    exact hstarts _
  · rw [← htokens, ← htokens']
    simp
  · intro before c ts n outer m rest all hc hrest hm hat hn hbefore hnext
    have hfirst : c.rest = t ++ '\n' :: (List.replicate column ' ' ++
        (t' ++ '\n' :: (List.replicate m ' ' ++ rest))) := by simpa using hc
    obtain ⟨hgone, hat', -⟩ := skip_newline (Cursor.rest_skip_of hfirst)
    rw [← Cursor.skip_add] at hgone hat'
    refine hread before hfirst (hstarts' _) (Nat.le_refl _) hat hn hbefore
      (hread' opened hgone hrest hm hat' hopened ?_)
    rw [← Cursor.skip_add]
    have hlength : t.length + (column + 1) + (t'.length + (m + 1)) =
        (t ++ '\n' :: (List.replicate column ' ' ++ t')).length + (m + 1) := by
      simp
      omega
    rw [hlength]
    simpa using hnext

/-! ## Indicators -/

/-- Behind an indicator a pen is still in the indentation. -/
theorem ready_indicator (ch : Char) (hshared : w.shared = []) (hch : isBreak ch = false)
    (hclean : isClean ch = true) (column : Nat) :
    Ready (w.onPen fun p => (p.indentTo column).indicator [ch] true true) column ∧
      (w.onPen fun p => (p.indentTo column).indicator [ch] true true).pen.inIndent = true ∧
      (w.pen.indentTo column).Wrote [ch]
        (w.onPen fun p => (p.indentTo column).indicator [ch] true true).pen := by
  obtain ⟨hcolumn, hblank, hin⟩ := Pen.indentTo_fields w.pen column
  have hwrote := @Pen.wrote_indicator (w.pen.indentTo column) [ch] true true (by simpa) (by simpa)
  rw [Pen.indicatorText, hblank] at hwrote
  have hat : ((w.pen.indentTo column).indicator [ch] true true).column = column + 1 := by
    rw [hwrote.column, hcolumn]
    simp [columnBehind, hch]
  refine ⟨⟨hshared, rfl, ?_, fun _ => hat⟩, ?_, hwrote⟩
  · show column < ((w.pen.indentTo column).indicator [ch] true true).column
    omega
  · show ((w.pen.indentTo column).inIndent && true) = true
    rw [hin]
    rfl

/-- **A value behind an indicator**: the blocks before it end there, and the indicator is read as
    a token, whatever that token starts. -/
theorem Lexes.behindIndicator {ch : Char} (mark : Token) (hclean : isClean ch = true)
    (hstarts : ∀ rest, StartsToken (ch :: rest)) (hshared : w.shared = [])
    (h : Lexes (w.onPen fun p => (p.indentTo column).indicator [ch] true true) column w' tokens) :
    w'.shared = [] ∧ w'.pen.inIndent = false ∧
      ∃ (t : List Char) (emitted : List Token) (opened : List Int),
      (w.pen.indentTo column).Wrote t w'.pen ∧ (∀ rest, StartsToken (t ++ '\n' :: rest)) ∧
      emitted ++ List.replicate opened.length .blockEnd = mark :: tokens ∧
      (∀ o ∈ opened, (column : Int) < o) ∧
      ∀ (before : List Int) {c : Cursor} {ts front : List Token} {n : Int} {outer stack : List Int}
        {m : Nat} {rest : List Char} {all : List Token},
        c.rest = t ++ '\n' :: (List.replicate m ' ' ++ rest) → StartsToken rest → m ≤ column →
        c.column = column → n ≤ column → (∀ o ∈ before, (column : Int) < o) →
        (∀ more, c.rest = ch :: more → endsWord more = true →
          (outside c (List.replicate before.length .blockEnd ++ ts) (n :: outer) true none).token ch
            more = .ok (outside c.next (mark :: front) ((column : Int) :: stack) true none)) →
        YieldsFrom (outside (c.skip (t.length + (m + 1))) (emitted.reverse ++ front)
          (opened ++ (column : Int) :: stack) true none) all →
        YieldsFrom (outside c ts (before ++ n :: outer) true none) all := by
  obtain ⟨-, -, hmarkless, hbreak⟩ := hstarts [] ch rfl
  obtain ⟨hready, hkeeps, hmark⟩ := ready_indicator ch hshared hbreak hclean column
  obtain ⟨hshared', hline, t, emitted, opened, hwrote, hword, htokens, hopened, hread⟩ := h
  rw [hkeeps] at hread
  refine ⟨hshared', hline, ch :: t, mark :: emitted, opened, hmark.trans hwrote,
    fun rest => hstarts _, congrArg (mark :: ·) htokens, hopened, ?_⟩
  intro before c ts front n outer stack m rest all hc hrest hm hat hn hbefore htoken hnext
  have hplace : c.next.column = column + 1 := by
    rw [(Cursor.next_fields hc).2.1 hmarkless, hat, hbreak]
    rfl
  refine yieldsFrom_token (by rwa [hat]) (by rwa [hat]) hc (htoken _ hc (hword _))
    (remaining_next_lt hc) ?_
  refine hread (Cursor.rest_next_of hc) hrest hm (by rw [hplace, hready.column hkeeps]) ?_
  have hlength : (ch :: t).length + (m + 1) = 1 + (t.length + (m + 1)) := by
    rw [List.length_cons]
    omega
  rw [hlength, Cursor.skip_add, show c.skip 1 = c.next from rfl] at hnext
  simpa using hnext

/-- An indicator that may start a block. -/
theorem Lexes.block {ch : Char} (mark : Token) (hclean : isClean ch = true)
    (hstarts : ∀ rest, StartsToken (ch :: rest)) (hshared : w.shared = [])
    (htoken : ∀ {c : Cursor} {ts : List Token} {n : Int} {outer : List Int} {more : List Char},
      c.rest = ch :: more → endsWord more = true → n ≤ c.column →
      (outside c ts (n :: outer) true none).token ch more =
        .ok (outside c.next (mark :: (opening n c.column start ++ ts))
          (c.column :: (around n c.column ++ outer)) true none))
    (h : Lexes (w.onPen fun p => (p.indentTo column).indicator [ch] true true) column w' tokens) :
    LexesBlock w column start w' (mark :: tokens) := by
  obtain ⟨hshared', hline, t, emitted, opened, hwrote, hfirst, htokens, hopened, hread⟩ :=
    h.behindIndicator mark hclean hstarts hshared
  refine ⟨hshared', hline, t, emitted, opened, hwrote, hfirst, htokens, hopened, ?_⟩
  intro before c ts n outer m rest all hc hrest hm hat hn hbefore hnext
  refine hread before hc hrest hm hat hn hbefore (fun more hmore hword => ?_) hnext
  rw [htoken hmore hword (by rwa [hat]), hat]

/-! ## Lists -/

/-- An item is a hyphen and its value. -/
theorem lexesBlock_item (hshared : w.shared = [])
    (h : Lexes (w.onPen fun p => (p.indentTo column).indicator ['-'] true true) column w' tokens) :
    LexesBlock w column .blockSequenceStart w' (.blockEntry :: tokens) :=
  h.block .blockEntry (by decide) (fun _ => by simp [StartsToken, isBreak]) hshared
    fun hc hword hn => token_blockEntry hc hword rfl hn

/-- **The items of a list are read one by one.** -/
theorem lexesBlock_items {xs : List Value} (hne : xs ≠ [])
    (hitem : ∀ x ∈ xs, ∀ w, Ready w column → w.pen.inIndent = true →
      Lexes w column (w.value column .item x) (tokensOf true x)) (hshared : w.shared = []) :
    LexesBlock w column .blockSequenceStart (w.items column xs) (itemTokens xs) := by
  induction xs generalizing w with
  | nil => exact absurd rfl hne
  | cons x xs ih =>
    obtain ⟨hready, hkeeps, -⟩ := ready_indicator '-' hshared rfl (by decide) column
    rw [List.forall_mem_cons] at hitem
    have hfirst := hitem.1 _ hready hkeeps
    have hblock := lexesBlock_item hshared hfirst
    rw [Writer.items, itemTokens]
    by_cases hnil : xs = []
    · subst hnil
      rw [itemTokens, List.append_nil]
      exact hblock
    · exact hblock.trans (ih hnil hitem.2 hfirst.1).further

/-! ## Mappings -/

/-- A text as a key. -/
def keyScalar (s : String) : Scalar := ⟨.str, s.toList, false⟩

section entries
variable {s : String} {v : Value}

theorem isLegible_keyScalar (h : isLegibleKey column s = true) :
    (keyScalar s).IsLegible column := by
  rw [isLegibleKey, Bool.and_eq_true] at h
  exact ⟨rfl, .inl rfl, h.1⟩

theorem of_fits (h : Writer.isShortKey.fits (.text s) 0 = true) :
    s.toList.length < 128 ∧ ∀ x ∈ s.toList, isBreak x = false := by
  rw [Writer.isShortKey.fits] at h
  simp only [Scalar.ofValue?, Bool.and_eq_true, decide_eq_true_eq, Bool.not_eq_true',
    List.any_eq_false] at h
  exact ⟨by omega, fun x hx => by simpa using h.2 x hx⟩

theorem shared_scalar (w : Writer) (indent : Nat) (pos : Position) (s : Scalar) :
    (w.scalar indent pos s).shared = w.shared := by
  unfold Writer.scalar
  dsimp only
  split <;> rfl

theorem keyWritten_of_fits (hshared : w.shared = [])
    (hfits : Writer.isShortKey.fits (.text s) 0 = true) :
    keyWritten w column (.text s) =
      ((w.onPen (·.indentTo column)).scalar column (.key true) (keyScalar s)).onPen
        (·.indicator [':'] false false) := by
  have hmoved : (w.onPen (·.indentTo column)).shared = [] := hshared
  unfold keyWritten
  dsimp only
  rw [isShortKey_of_unshared hmoved, hfits, if_pos rfl, value_of_unshared hmoved]
  rfl

theorem keyWritten_of_not_fits (hshared : w.shared = [])
    (hfits : Writer.isShortKey.fits (.text s) 0 = false) :
    keyWritten w column (.text s) =
      (((w.onPen fun p => (p.indentTo column).indicator ['?'] true true).scalar column (.key false)
        (keyScalar s)).onPen fun p => (p.indentTo column).indicator [':'] true true) := by
  have hmoved : (w.onPen (·.indentTo column)).shared = [] := hshared
  have hmarked : (w.onPen fun p => (p.indentTo column).indicator ['?'] true true).shared = [] :=
    hshared
  unfold keyWritten
  dsimp only
  rw [isShortKey_of_unshared hmoved, hfits, if_neg Bool.false_ne_true]
  exact congrArg (Writer.onPen · _) (value_of_unshared hmarked column (.key false) (.text s))

/-- Behind the colon of a key on its line a value is not in the indentation any more. -/
theorem exists_keyWritten (hshared : w.shared = []) (hkey : isLegibleKey column s = true)
    (hfits : Writer.isShortKey.fits (.text s) 0 = true) :
    ∃ t, (w.pen.indentTo column).Wrote (t ++ [':']) (keyWritten w column (.text s)).pen ∧
      Ready (keyWritten w column (.text s)) column ∧
      (keyWritten w column (.text s)).pen.inIndent = false ∧
      (keyWritten w column (.text s)).pen.column = column + t.length + 1 ∧
      Spells column t ((keyScalar s).spelling true == .plain) s.toList ∧
      (∀ x ∈ t, isBreak x = false) ∧ t.length ≤ 1024 := by
  have hscalar := isLegible_keyScalar hkey
  obtain ⟨hlength, hbreaks⟩ := of_fits hfits
  have hwidth : quotedWidth s.toList ≤ 1022 := by
    rw [isLegibleKey, Bool.and_eq_true, hfits] at hkey
    simpa using hkey.2
  obtain ⟨hcolumn, hblank, -⟩ := Pen.indentTo_fields w.pen column
  obtain ⟨t, hwrote, hspells, hline, hnear⟩ :=
    wrote_key hscalar (w.onPen (·.indentTo column)) hbreaks hlength hwidth
  have hkept := shared_scalar (w.onPen (·.indentTo column)) column (.key true) (keyScalar s)
  rw [keyWritten_of_fits hshared hfits]
  generalize (w.onPen (·.indentTo column)).scalar column (.key true) (keyScalar s) = w'
    at hwrote hkept ⊢
  rw [leadingBlank, show (w.onPen (·.indentTo column)).pen.afterBlank = true from hblank, if_pos rfl,
    List.nil_append] at hwrote
  have hcolon : w'.pen.Wrote [':'] (w'.pen.indicator [':'] false false) :=
    Pen.wrote_indicator w'.pen false false (List.forall_mem_singleton.mpr rfl)
      (List.forall_mem_singleton.mpr (by decide))
  have hwrote' : (w.pen.indentTo column).Wrote (t ++ [':']) (w'.onPen (·.indicator [':'] false
    false)).pen := hwrote.trans hcolon
  have hin : (w'.onPen (·.indicator [':'] false false)).pen.inIndent = false := Bool.and_false _
  have hplace : (w'.onPen (·.indicator [':'] false false)).pen.column = column + t.length + 1 := by
    rw [hwrote'.column, hcolumn, columnBehind_of_no_break, List.length_append,
      List.length_singleton, Nat.add_assoc]
    exact List.forall_mem_append.mpr ⟨hline, List.forall_mem_singleton.mpr rfl⟩
  refine ⟨t, hwrote', ⟨hkept.trans hshared, rfl, ?_, fun h => ?_⟩, hin, hplace, hspells, hline,
    hnear⟩
  · omega
  · rw [hin] at h
    cases h

/-- An entry whose key stands on one line with its value. -/
theorem lexesBlock_shortEntry (hshared : w.shared = []) (hkey : isLegibleKey column s = true)
    (hfits : Writer.isShortKey.fits (.text s) 0 = true)
    (hvalue : ∀ w, Ready w column → w.pen.inIndent = false →
      Lexes w column (w.value column .value v) (tokensOf false v)) :
    LexesBlock w column .blockMappingStart
      ((keyWritten w column (.text s)).value column .value v)
      (.key :: (scalarTokens true (.text s) ++ .value :: tokensOf false v)) := by
  obtain ⟨t, hwrote, hready, hin, hplace, hspells, hline, hnear⟩ :=
    exists_keyWritten hshared hkey hfits
  obtain ⟨hshared', hline', t', emitted, opened, hwrote', hword, htokens, hopened, hread⟩ :=
    hvalue _ hready hin
  rw [hin, hplace] at hread
  refine ⟨hshared', hline', t ++ ':' :: t', .key :: (scalarTokens true (.text s) ++
    .value :: emitted), opened, ?_, ?_, ?_, hopened, ?_⟩
  · simpa using hwrote.trans hwrote'
  · intro rest
    rw [List.append_assoc]
    exact hspells.starts (hword _)
  · rw [← htokens]
    simp
  · intro before c ts n outer m rest all hc hrest hm hat hn hbefore hnext
    have hkeyed : c.rest = t ++ ':' :: (t' ++ '\n' :: (List.replicate m ' ' ++ rest)) := by
      simpa using hc
    have hclean : ∀ x ∈ t, isClean x = true :=
      fun x hx => hwrote.clean x (List.mem_append_left _ hx)
    have hgone : (c.skip (t.length + 1)).rest = t' ++ '\n' :: (List.replicate m ' ' ++ rest) := by
      rw [Cursor.skip_add]
      exact Cursor.rest_next_of (Cursor.rest_skip_of hkeyed)
    have hcolumn : (c.skip (t.length + 1)).column = column + t.length + 1 := by
      have hsplit : c.rest = (t ++ [':']) ++ (t' ++ '\n' :: (List.replicate m ' ' ++ rest)) := by
        simpa using hc
      have hbehind := Cursor.column_skip_of hsplit (not_mark_of_clean hwrote.clean)
      rw [columnBehind_of_no_break (List.forall_mem_append.mpr
        ⟨hline, List.forall_mem_singleton.mpr rfl⟩)] at hbehind
      rw [List.length_append, List.length_singleton, hat] at hbehind
      omega
    refine hspells.key hkeyed (hword _) hline hclean hnear (by rwa [hat]) (by rwa [hat]) hn ?_
    rw [hat]
    refine hread hgone hrest hm hcolumn ?_
    rw [← Cursor.skip_add]
    have hlength : t.length + 1 + (t'.length + (m + 1)) =
        (t ++ ':' :: t').length + (m + 1) := by
      simp
      omega
    rw [hlength]
    simpa [scalarTokens, Scalar.ofValue?, keyScalar] using hnext

/-- A value behind a colon of its own goes on with the mapping of its key. -/
theorem Lexes.further (hshared : w.shared = [])
    (h : Lexes (w.onPen fun p => (p.indentTo column).indicator [':'] true true) column w' tokens) :
    LexesFurther w column w' (.value :: tokens) := by
  obtain ⟨hshared', hline, t, emitted, opened, hwrote, hfirst, htokens, hopened, hread⟩ :=
    h.behindIndicator .value (by decide) (fun _ => by simp [StartsToken, isBreak]) hshared
  refine ⟨hshared', hline, t, emitted, opened, hwrote, hfirst, htokens, hopened, ?_⟩
  intro before c ts outer m rest all hc hrest hm hat hbefore hnext
  refine hread before hc hrest hm hat (Int.le_refl _) hbefore (fun more hmore hword => ?_) hnext
  exact token_value hmore hword rfl (by rw [hat])

/-- An entry whose key stands on lines of its own. -/
theorem lexesBlock_longEntry (hshared : w.shared = []) (hkey : isLegibleKey column s = true)
    (hfits : Writer.isShortKey.fits (.text s) 0 = false)
    (hvalue : ∀ w, Ready w column → w.pen.inIndent = true →
      Lexes w column (w.value column .value v) (tokensOf true v)) :
    LexesBlock w column .blockMappingStart
      ((keyWritten w column (.text s)).value column .value v)
      (.key :: (scalarTokens false (.text s) ++ .value :: tokensOf true v)) := by
  obtain ⟨hready, -, -⟩ := ready_indicator '?' hshared rfl (by decide) column
  have hscalar := lexes_scalar hready (isLegible_keyScalar hkey)
    (show Position.key false ≠ .key true by decide)
  obtain ⟨hready', hkeeps', -⟩ := ready_indicator ':' hscalar.1 rfl (by decide) column
  have hquestion := hscalar.block .key (by decide) (fun _ => by simp [StartsToken, isBreak]) hshared
    fun hc hword hn => token_explicitKey hc hword rfl hn
  rw [keyWritten_of_not_fits hshared hfits]
  exact hquestion.trans ((hvalue _ hready' hkeeps').further hscalar.1)

/-- **The entries of a mapping are read one by one.** -/
theorem lexesBlock_entries {es : Entries} (hne : es ≠ [])
    (hkey : ∀ e ∈ es, ∃ s, e.1 = .text s ∧ isLegibleKey column s = true)
    (hvalue : ∀ e ∈ es, ∀ w, Ready w column →
      Lexes w column (w.value column .value e.2) (tokensOf w.pen.inIndent e.2))
    (hshared : w.shared = []) :
    LexesBlock w column .blockMappingStart (w.entries column es) (entryTokens es) := by
  induction es generalizing w with
  | nil => exact absurd rfl hne
  | cons e es ih =>
    obtain ⟨k, v⟩ := e
    rw [List.forall_mem_cons] at hkey hvalue
    obtain ⟨⟨s, rfl, hfirst⟩, hrest⟩ := hkey
    have hblock : LexesBlock w column .blockMappingStart
        ((keyWritten w column (.text s)).value column .value v)
        (.key :: (scalarTokens (Writer.isShortKey.fits (.text s) 0) (.text s) ++
          .value :: tokensOf (!Writer.isShortKey.fits (.text s) 0) v)) := by
      cases hfits : Writer.isShortKey.fits (.text s) 0 with
      | true => exact lexesBlock_shortEntry hshared hfirst hfits fun w hw hin =>
          hin ▸ hvalue.1 w hw
      | false => exact lexesBlock_longEntry hshared hfirst hfits fun w hw hin =>
          hin ▸ hvalue.1 w hw
    rw [entries_cons, entryTokens]
    by_cases hnil : es = []
    · subst hnil
      rw [entryTokens, List.append_nil]
      exact hblock
    · have := hblock.trans (ih hnil hrest hvalue.2 hblock.1).further
      simpa using this

end entries

end blocks

/-! ## Values -/

theorem Scalar.IsLegible.mono {s : Scalar} {indent column : Nat} (h : s.IsLegible indent)
    (hle : column ≤ indent) : s.IsLegible column :=
  ⟨h.asBlock, h.untagged, isLegibleText_mono hle h.legible⟩

theorem tokensOf_scalar {v : Value} {s : Scalar} (h : Scalar.ofValue? v = some s)
    (indented : Bool) : tokensOf indented v = [.scalar (s.spelling false == .plain) s.text] := by
  have htokens : scalarTokens false v = [.scalar (s.spelling false == .plain) s.text] := by
    rw [scalarTokens, h]
  cases v with
  | list | map | tuple | set => cases h
  | _ => rw [← htokens, tokensOf] <;> nofun

/-- **What is written of a legible value is read as its tokens.** -/
theorem lexes_value {indent : Nat} {v : Value} (hv : v.isLegible indent = true) {column : Nat}
    (hle : column ≤ indent) {w : Writer} (hw : Ready w column) {pos : Position}
    (hpos : pos ≠ .key true) (hitem : pos = .item → w.pen.inIndent = true) :
    Lexes w column (w.value column pos v) (tokensOf w.pen.inIndent v) := by
  rw [value_of_unshared hw.shared]
  induction indent, v, hv using Value.isLegible_induction generalizing column w pos with
  | scalar indent v hv hscalar =>
    obtain ⟨s, hs⟩ := Option.isSome_iff_exists.mp hscalar
    rw [content_of_scalar hs, tokensOf_scalar hs]
    exact lexes_scalar hw ((isLegible_of_value hs hv).1.mono hle) hpos
  | list indent xs label hxs ih =>
    have hitems : ∀ column ≤ indent + 2, ∀ x ∈ xs, ∀ w, Ready w column → w.pen.inIndent = true →
        Lexes w column (w.value column .item x) (tokensOf true x) := by
      intro column hle x hx w hw hin
      rw [value_of_unshared hw.shared, ← hin]
      exact ih x hx (areLegible_iff.mp hxs x hx) hle hw (by decide) fun _ => hin
    cases xs with
    | nil => exact lexes_brackets hw (.inl ⟨rfl, rfl, rfl, rfl⟩)
    | cons x xs =>
      show Lexes w column (w.items _ _) _
      cases hin : w.pen.inIndent with
      | true =>
        rw [if_neg (by simp)]
        exact (lexesBlock_items (List.cons_ne_nil x xs) (hitems _ (by omega)) hw.shared).deeper hw
      | false =>
        have hkind : pos ≠ .item := fun h => by simp [hitem h] at hin
        rw [if_pos (by simp [hkind])]
        exact (lexesBlock_items (List.cons_ne_nil x xs) (hitems _ (by omega)) hw.shared).level hw hin
  | map indent es label hes ih =>
    cases es with
    | nil => exact lexes_brackets hw (.inr ⟨rfl, rfl, rfl, rfl⟩)
    | cons e es =>
      show Lexes w column (w.entries _ _) _
      refine (lexesBlock_entries (List.cons_ne_nil e es) ?_ ?_ hw.shared).deeper hw
      · intro f hf
        obtain ⟨s, hs, hkey⟩ := (of_mem_areLegibleEntries hes hf).1
        exact ⟨s, hs, isLegibleKey_mono (by omega) hkey⟩
      · intro f hf w hw
        rw [value_of_unshared hw.shared]
        exact ih f hf (of_mem_areLegibleEntries hes hf).2 (by omega) hw (by decide) nofun

/-! ## Documents -/

/-- A document's entries are a block at the first column, and a line end is written behind it. -/
theorem exists_write {es : Entries} (hne : es ≠ []) (hes : areLegibleEntries 0 es = true)
    (hshare : (meetEntries ⟨[], []⟩ es).again = []) :
    (∀ c ∈ write es, isClean c = true) ∧ StartsToken (write es) ∧
      YieldsFrom (outside (Cursor.start (write es)) [] [-1] true none)
        (.blockMappingStart :: (entryTokens es ++ [.blockEnd])) := by
  have hentries : LexesBlock ⟨.start, [], []⟩ 0 .blockMappingStart
      (Writer.entries ⟨.start, [], []⟩ 0 es) (entryTokens es) :=
    lexesBlock_entries hne (fun e he => (of_mem_areLegibleEntries hes he).1)
      (fun e he w hw => lexes_value (of_mem_areLegibleEntries hes he).2 (Nat.le_refl _) hw
        (by decide) nofun) rfl
  obtain ⟨-, hline, t, emitted, opened, hwrote, hstarts, htokens, hopened, hread⟩ := hentries
  have hlast := hwrote.trans (Pen.wrote_indentTo _ 0)
  rw [gapTo_of_line hline] at hlast
  have hwritten : write es = t ++ ['\n'] := by
    rw [write, hshare]
    exact hlast.text
  rw [hwritten]
  refine ⟨hlast.clean, hstarts [], ?_⟩
  have hend : ((Cursor.start (t ++ ['\n'])).skip (t.length + 1)).rest = [] ∧
      ((Cursor.start (t ++ ['\n'])).skip (t.length + 1)).column = 0 := by
    rw [Cursor.skip_add]
    have hbehind : ((Cursor.start (t ++ ['\n'])).skip t.length).rest = ['\n'] :=
      Cursor.rest_skip_of (t := t) rfl
    have := @skip_newline _ 0 [] hbehind
    exact ⟨this.1, this.2.1⟩
  have hclosed := @yieldsFrom_end _ (emitted.reverse ++ [.blockMappingStart]) _ hopened hend.1
    hend.2
  rw [List.reverse_append, List.reverse_reverse, List.reverse_singleton, List.singleton_append,
    List.cons_append, htokens, List.cons_append] at hclosed
  exact @hread [] _ [] (-1) [] 0 [] _ rfl nofun (Nat.le_refl _) rfl (by decide) nofun hclosed

/-- **A legible document that shares nothing is read as the tokens of its entries.** -/
theorem tokens_write {es : Entries} (hne : es ≠ []) (hes : areLegibleEntries 0 es = true)
    (hshare : (meetEntries ⟨[], []⟩ es).again = []) :
    tokens (write es) = .ok ⟨.blockMappingStart :: (entryTokens es ++ [.blockEnd]), none⟩ := by
  obtain ⟨hclean, hstarts, hyields⟩ := exists_write hne hes hshare
  have hallowed : (write es).all isAllowed = true := by
    refine List.all_eq_true.mpr fun c hc => ?_
    have := hclean c hc
    simp only [isClean, Bool.and_eq_true] at this
    exact this.1.1
  rw [tokens, if_pos hallowed]
  exact hyields.line hstarts (k := none) (fun _ h => absurd h (Option.not_mem_none _)) _
    (Nat.lt_succ_of_lt (Nat.lt_succ_self _))

end Regen.Yaml
