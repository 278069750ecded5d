import Regen.Proofs.Yaml.Escaped
import Regen.Proofs.Yaml.Plain
import Regen.Yaml.Lexer

/-! # A lexer between two tokens

    Outside brackets a lexer is a place, the tokens so far, the indentations of the open blocks,
    whether a key may start here, and one key candidate.  What it yields from there on is said of
    the place behind the blanks in front of it, because it is the same wherever among them the
    token before them ended. -/

namespace Regen.Yaml

namespace Lexer

/-- A lexer outside brackets.  The tokens are the latest first, the indentations the innermost
    first. -/
def outside (c : Cursor) (ts : List Token) (stack : List Int) (allowed : Bool)
    (k : Option KeyCandidate) : Lexer where
  cursor := c
  tokens := ts
  count := ts.length
  indent := stack.headD (-1)
  outer := stack.drop 1
  keyAllowed := allowed
  candidates := [k]
  count_eq := rfl

/-- **A lexer yields tokens** with enough fuel. -/
def Yields (x : Lexer) (tokens : List Token) : Prop :=
  ∀ fuel, x.cursor.remaining < fuel → x.run fuel = .ok ⟨tokens, none⟩

/-- **Tokens are yielded from a place behind blanks**, wherever a lexer comes from. -/
def YieldsFrom (z : Lexer) (tokens : List Token) : Prop :=
  ∀ x : Lexer, x.skipBlanks.dropStale = .ok z → z.cursor.remaining ≤ x.cursor.remaining →
    x.Yields tokens

section steps
variable {c : Cursor} {ts : List Token} {n : Int} {outer stack : List Int} {allowed : Bool}
  {k : Option KeyCandidate} {tokens : List Token} {ch : Char} {rest : List Char}

/-- Closing blocks. -/
theorem unwind_go {column : Int} {fuel : Nat} {opened : List Int} (hfuel : opened.length ≤ fuel)
    (hopened : ∀ o ∈ opened, column < o) (hn : n ≤ column) :
    unwind.go column fuel (outside c ts (opened ++ n :: outer) allowed k) =
      outside c (List.replicate opened.length .blockEnd ++ ts) (n :: outer) allowed k := by
  induction opened generalizing fuel ts with
  | nil =>
    cases fuel with
    | zero => rfl
    | succ fuel => exact if_neg (Int.not_lt.mpr hn)
  | cons o opened ih =>
    cases fuel with
    | zero => exact absurd hfuel (Nat.not_succ_le_zero _)
    | succ fuel =>
      rw [List.forall_mem_cons] at hopened
      have hstep : unwind.go column (fuel + 1)
          (outside c ts (o :: opened ++ n :: outer) allowed k) =
            unwind.go column fuel
              (outside c (.blockEnd :: ts) (opened ++ n :: outer) allowed k) := by
        rw [unwind.go, if_pos (show column < (outside c ts (o :: opened ++ n :: outer) allowed
          k).indent from hopened.1)]
        cases opened <;> rfl
      rw [hstep, ih (Nat.le_of_succ_le_succ hfuel) hopened.2, List.length_cons,
        List.replicate_succ', List.append_assoc]
      rfl

theorem unwind_outside {column : Int} {opened : List Int} (hopened : ∀ o ∈ opened, column < o)
    (hn : n ≤ column) :
    (outside c ts (opened ++ n :: outer) allowed k).unwind column =
      outside c (List.replicate opened.length .blockEnd ++ ts) (n :: outer) allowed k := by
  rw [unwind, if_neg (by simp [inFlow, outside])]
  apply unwind_go _ hopened hn
  simp only [outside, List.length_drop, List.length_append, List.length_cons]
  omega

theorem unwind_of_le {column : Int} (hn : n ≤ column) :
    (outside c ts (n :: outer) allowed k).unwind column =
      outside c ts (n :: outer) allowed k :=
  @unwind_outside c ts n outer allowed k column [] (fun _ h => absurd h List.not_mem_nil) hn

/-! ## Blanks -/

/-- The text ends, or goes on with a character that starts a token. -/
def StartsToken (cs : List Char) : Prop :=
  ∀ ch ∈ cs.head?, ch ≠ ' ' ∧ ch ≠ '#' ∧ ch ≠ '\uFEFF' ∧ isBreak ch = false

theorem skipSpaces_of {m : Nat} (h : c.rest = List.replicate m ' ' ++ rest)
    (hrest : ∀ x ∈ rest.head?, x ≠ ' ') : c.skipSpaces = c.skip m := by
  have hspan := Cursor.span_of (p := (· == ' ')) h
    (fun x hx => by simp [List.eq_of_mem_replicate hx]) fun x hx => by simpa using hrest x hx
  rw [List.length_replicate] at hspan
  exact congrArg Prod.snd hspan

theorem rest_skip_spaces {m : Nat} (h : c.rest = List.replicate m ' ' ++ rest) :
    (c.skip m).rest = rest := by
  have := Cursor.rest_skip_of h
  rwa [List.length_replicate] at this

theorem column_skip_spaces {m : Nat} (h : c.rest = List.replicate m ' ' ++ rest) :
    (c.skip m).column = c.column + m := by
  have hmark : '\uFEFF' ∉ List.replicate m ' ' := not_mark_of_clean (isClean_replicate_space m)
  have := Cursor.column_skip_of h hmark
  rwa [List.length_replicate, columnBehind_of_no_break (isBreak_replicate_space m),
    List.length_replicate] at this

theorem skipComment_of (h : c.rest.head? ≠ some '#') : c.skipComment = c :=
  if_neg (by simpa using h)

variable {x : Lexer}

/-- The last round of skipping: spaces in front of a token or of the end. -/
theorem skipBlanks_go_spaces {m fuel : Nat}
    (h : x.cursor.rest = List.replicate m ' ' ++ rest) (hrest : StartsToken rest) :
    skipBlanks.go (fuel + 1) x = { x with cursor := x.cursor.skip m } := by
  have hbehind := rest_skip_spaces h
  have hcomment : (x.cursor.skip m).skipComment = x.cursor.skip m :=
    skipComment_of fun hsign => (hrest _ (hbehind ▸ hsign)).2.1 rfl
  have hnone : (x.cursor.skip m).lineBreak? = none :=
    Cursor.lineBreak?_eq_none fun y hy => (hrest y (hbehind ▸ hy)).2.2.2
  simp only [skipBlanks.go, skipSpaces_of h fun y hy => (hrest y hy).1, hcomment, hnone]

theorem skipBlanks_eq (h : x.cursor.rest.head? ≠ some '\uFEFF') :
    x.skipBlanks = skipBlanks.go (x.cursor.remaining + 1) x := by
  have hmark : ¬(x.cursor.index = 0 && x.cursor.rest.head? == some '\uFEFF') = true := by simp [h]
  simp only [skipBlanks, if_neg hmark]

/-- **Spaces in front of a token are skipped.** -/
theorem skipBlanks_spaces {m : Nat} (h : x.cursor.rest = List.replicate m ' ' ++ rest)
    (hrest : StartsToken rest) : x.skipBlanks = { x with cursor := x.cursor.skip m } := by
  rw [skipBlanks_eq, skipBlanks_go_spaces h hrest]
  rw [h]
  cases m with
  | zero => exact fun hmark => (hrest _ hmark).2.2.1 rfl
  | succ m => simp [List.replicate_succ]

theorem skipBlanks_token (h : StartsToken x.cursor.rest) : x.skipBlanks = x :=
  skipBlanks_spaces (m := 0) rfl h

/-- **A new line is gone to**, and outside brackets a key may start there. -/
theorem skipBlanks_newline {m : Nat}
    (h : x.cursor.rest = '\n' :: (List.replicate m ' ' ++ rest)) (hrest : StartsToken rest) :
    x.skipBlanks = { x with
      cursor := x.cursor.skip (m + 1), keyAllowed := x.keyAllowed || !x.inFlow } := by
  have hnext := Cursor.rest_next_of h
  have hspaces : x.cursor.skipSpaces = x.cursor := skipSpaces_of (m := 0) h (by simp)
  have hcomment : x.cursor.skipComment = x.cursor := skipComment_of (by simp [h])
  rw [skipBlanks_eq (by simp [h]), remaining_next h, skipBlanks.go]
  simp only [hspaces, hcomment, Cursor.lineBreak?_of_break h rfl]
  rw [skipBlanks_go_spaces hnext hrest]
  rfl

/-! ## Steps -/

theorem remaining_skip_le (m : Nat) (c : Cursor) : (c.skip m).remaining ≤ c.remaining := by
  rw [Cursor.remaining_eq, Cursor.remaining_eq, Cursor.rest_skip, List.length_drop]
  exact Nat.sub_le _ _

theorem dropStale_none :
    (outside c ts stack allowed none).dropStale = .ok (outside c ts stack allowed none) := rfl

/-- A candidate on another line is out of reach. -/
theorem dropStale_line {candidate : KeyCandidate} (hrequired : candidate.required = false)
    (hline : candidate.line ≠ c.line) :
    (outside c ts stack allowed (some candidate)).dropStale =
      .ok (outside c ts stack allowed none) := by
  have hstale : (outside c ts stack allowed (some candidate)).isStale candidate = true := by
    simp [isStale, outside, hline]
  rw [dropStale, show (outside c ts stack allowed (some candidate)).candidates =
    [some candidate] from rfl]
  simp only [List.any_cons, List.any_nil, Option.any_some, hrequired, Bool.and_false, Bool.or_false,
    List.map_cons, List.map_nil, Option.filter_some, hstale]
  rfl

/-- Candidates within reach are kept. -/
theorem dropStale_fresh {x : Lexer}
    (h : ∀ k ∈ x.candidates, ∀ candidate ∈ k, x.isStale candidate = false) :
    x.dropStale = .ok x := by
  have hnone : (x.candidates.any fun k => k.any fun k => x.isStale k && k.required) = false := by
    rw [List.any_eq_false]
    intro k hk
    cases k with
    | none => simp
    | some candidate => simp [h _ hk candidate rfl]
  have hsame : (x.candidates.map fun k => k.filter fun k => !x.isStale k) = x.candidates := by
    rw [List.map_congr_left (g := id), List.map_id]
    intro k hk
    cases k with
    | none => rfl
    | some candidate => simp [h _ hk candidate rfl]
  rw [dropStale, hnone, hsame]
  rfl

/-- A candidate on the same line is kept if it is near. -/
theorem dropStale_near {candidate : KeyCandidate} (hline : candidate.line = c.line)
    (hnear : c.index - candidate.index ≤ 1024) :
    (outside c ts stack allowed (some candidate)).dropStale =
      .ok (outside c ts stack allowed (some candidate)) := by
  refine dropStale_fresh fun k hk candidate' hcandidate => ?_
  obtain rfl := List.mem_singleton.mp hk
  obtain rfl := Option.mem_some_iff.mp hcandidate
  simp [isStale, outside, hline, hnear]

/-- What a run does behind the blanks, by what stands there. -/
theorem run_settled {x z : Lexer} (h : x.skipBlanks.dropStale = .ok z) (fuel : Nat) :
    x.run (fuel + 1) = match (z.unwind z.cursor.column).cursor.rest with
      | [] => do
        let y ← ((z.unwind z.cursor.column).unwind (-1)).dropCandidate
        pure ⟨y.tokens.reverse, none⟩
      | c :: rest =>
        match (z.unwind z.cursor.column).token c rest with
        | .ok y => run fuel y
        | .error .malformed => .error .malformed
        | .error (.fault f) => pure ⟨x.tokens.reverse.take x.settled, some f⟩ := by
  rw [run, h]
  rfl

/-- One token is read, and what follows it yields the rest. -/
theorem Yields.of_token {x y z z' : Lexer} (hsettle : x.skipBlanks.dropStale = .ok z)
    (hunwind : z.unwind z.cursor.column = z') (hrest : z'.cursor.rest = ch :: rest)
    (htoken : z'.token ch rest = .ok y) (hless : y.cursor.remaining < x.cursor.remaining)
    (h : y.Yields tokens) : x.Yields tokens := by
  intro fuel hfuel
  cases fuel with
  | zero => exact absurd hfuel (Nat.not_lt_zero _)
  | succ fuel =>
    have hstep : x.run (fuel + 1) = y.run fuel := by
      rw [run_settled hsettle, hunwind, hrest]
      simp only [htoken]
    rw [hstep]
    exact h fuel (by omega)

/-- At the end of the text all blocks are closed, the outermost one last. -/
theorem yieldsFrom_end {opened : List Int} (hopened : ∀ o ∈ opened, (0 : Int) < o)
    (hrest : c.rest = []) (hcolumn : c.column = 0) :
    YieldsFrom (outside c ts (opened ++ [0, -1]) true none)
      (ts.reverse ++ List.replicate opened.length .blockEnd ++ [.blockEnd]) := by
  intro x hsettle _ fuel hfuel
  cases fuel with
  | zero => exact absurd hfuel (Nat.not_lt_zero _)
  | succ fuel =>
    have hfirst : (outside c ts (opened ++ [0, -1]) true none).unwind c.column =
        outside c (List.replicate opened.length .blockEnd ++ ts) [0, -1] true none := by
      rw [hcolumn]
      exact unwind_outside hopened (Int.le_refl 0)
    have hlast : (outside c (List.replicate opened.length .blockEnd ++ ts) [0, -1] true
        none).unwind (-1) =
        outside c (.blockEnd :: (List.replicate opened.length .blockEnd ++ ts)) [-1] true none :=
      @unwind_outside c _ (-1) [] true none (-1) [0] (by simp) (Int.le_refl _)
    have hunwind : (outside c ts (opened ++ [0, -1]) true none).unwind
        (outside c ts (opened ++ [0, -1]) true none).cursor.column =
          outside c (List.replicate opened.length .blockEnd ++ ts) [0, -1] true none := hfirst
    rw [run, hsettle]
    simp only [bind, Except.bind, hunwind]
    rw [show (outside c (List.replicate opened.length .blockEnd ++ ts) [0, -1] true
      none).cursor.rest = [] from hrest]
    simp only [hlast]
    show Except.ok (TokenRun.mk _ none) = _
    simp [outside]

/-- Spaces in front of a token do not matter. -/
theorem YieldsFrom.spaces {m : Nat}
    (h : YieldsFrom (outside (c.skip m) ts stack allowed none) tokens)
    (hc : c.rest = List.replicate m ' ' ++ rest) (hrest : StartsToken rest) :
    (outside c ts stack allowed none).Yields tokens := by
  refine h _ ?_ (remaining_skip_le m c)
  rw [skipBlanks_spaces (x := outside c ts stack allowed none) hc hrest]
  exact dropStale_none

/-- **On a new line a key may start.**  What was a candidate on a line before is none any more. -/
theorem YieldsFrom.newline {m : Nat}
    (h : YieldsFrom (outside (c.skip (m + 1)) ts stack true none) tokens)
    (hc : c.rest = '\n' :: (List.replicate m ' ' ++ rest)) (hrest : StartsToken rest)
    (hk : ∀ candidate ∈ k, candidate.required = false ∧ candidate.line ≤ c.line) :
    (outside c ts stack allowed k).Yields tokens := by
  refine h _ ?_ (remaining_skip_le (m + 1) c)
  have hskip : (outside c ts stack allowed k).skipBlanks =
      outside (c.skip (m + 1)) ts stack true k := by
    rw [skipBlanks_newline (x := outside c ts stack allowed k) hc hrest]
    simp [outside, inFlow]
  rw [hskip]
  cases k with
  | none => exact dropStale_none
  | some candidate =>
    obtain ⟨hrequired, hline⟩ := hk candidate rfl
    have hlater : c.line < (c.skip (m + 1)).line := by
      have := Cursor.line_skip_of (t := '\n' :: List.replicate m ' ') (r := rest) (by simpa using hc)
      rw [List.length_cons, List.length_replicate, List.countP_cons] at this
      rw [this, if_pos (show isBreak '\n' = true from rfl)]
      omega
    exact dropStale_line hrequired (by omega)

/-- A lexer that has already gone to a new line. -/
theorem YieldsFrom.line (h : YieldsFrom (outside c ts stack allowed none) tokens)
    (hrest : StartsToken c.rest)
    (hk : ∀ candidate ∈ k, candidate.required = false ∧ candidate.line ≠ c.line) :
    (outside c ts stack allowed k).Yields tokens := by
  refine h _ ?_ (Nat.le_refl _)
  rw [skipBlanks_token (x := outside c ts stack allowed k) hrest]
  cases k with
  | none => exact dropStale_none
  | some candidate => exact dropStale_line (hk candidate rfl).1 (hk candidate rfl).2

/-- Blocks that are deeper than the place are closed, and a token is read there. -/
theorem yieldsFrom_token {opened : List Int} {y : Lexer}
    (hopened : ∀ o ∈ opened, (c.column : Int) < o) (hn : n ≤ c.column)
    (hrest : c.rest = ch :: rest)
    (htoken : (outside c (List.replicate opened.length .blockEnd ++ ts) (n :: outer) allowed
      none).token ch rest = .ok y)
    (hless : y.cursor.remaining < c.remaining) (h : y.Yields tokens) :
    YieldsFrom (outside c ts (opened ++ n :: outer) allowed none) tokens :=
  fun _ hsettle hle => .of_token hsettle (unwind_outside hopened hn) hrest htoken
    (Nat.lt_of_lt_of_le hless hle) h

/-! ## Indicators -/

/-- What a token at a column opens: a block if the column is deeper than the blocks so far. -/
def opening (n : Int) (column : Nat) (t : Token) : List Token := if n < column then [t] else []

/-- The block around what stands at a column, if it is another one. -/
def around (n : Int) (column : Nat) : List Int := if n < column then [n] else []

theorem insertAt_outside (front : List Token) (t : Token) :
    (outside c (front ++ ts) (n :: outer) allowed k).insertAt ts.length t =
      outside c (front ++ t :: ts) (n :: outer) allowed k := by
  simp [insertAt, outside, Nat.add_assoc]

theorem openBlock_outside {column : Nat} (hn : n ≤ column) (front : List Token) (t : Token) :
    (outside c (front ++ ts) (n :: outer) allowed k).openBlock column ts.length t =
      outside c (front ++ (opening n column t ++ ts)) (column :: (around n column ++ outer))
        allowed k := by
  unfold openBlock opening around
  by_cases hless : n < column
  · rw [if_pos (show (outside c (front ++ ts) (n :: outer) allowed k).indent < column from hless),
      insertAt_outside, if_pos hless, if_pos hless]
    rfl
  · obtain rfl : n = column := by omega
    rw [if_neg (show ¬(outside c (front ++ ts) (column :: outer) allowed k).indent < column from
      Int.lt_irrefl _), if_neg hless, if_neg hless]
    rfl

theorem remaining_next_lt (h : c.rest = ch :: rest) : c.next.remaining < c.remaining := by
  rw [remaining_next h]
  exact Nat.lt_succ_self _

/-- A mark is three equal characters, and an indicator in front of a blank is none. -/
theorem not_atMark (mark : Char) (hmark : endsWord [mark] = false) (h : c.rest = ch :: rest)
    (hrest : endsWord rest = true) : c.atMark mark = false := by
  rw [Cursor.atMark, h, Bool.and_eq_false_iff]
  left
  cases rest with
  | nil => simp
  | cons d rest =>
    have hne : d ≠ mark := by
      rintro rfl
      rw [show endsWord (d :: rest) = endsWord [d] from rfl, hmark] at hrest
      cases hrest
    simp [hne]

section indicators
variable (h : c.rest = ch :: rest) (hrest : endsWord rest = true)
include h hrest

theorem token_blockEntry (hch : ch = '-') (hn : n ≤ c.column) :
    (outside c ts (n :: outer) true none).token ch rest =
      .ok (outside c.next (.blockEntry :: (opening n c.column .blockSequenceStart ++ ts))
        (c.column :: (around n c.column ++ outer)) true none) := by
  subst hch
  have hopen := @openBlock_outside c ts n outer true none _ hn [] .blockSequenceStart
  have hentry : (outside c ts (n :: outer) true none).blockEntry =
      .ok (outside c.next (.blockEntry :: (opening n c.column .blockSequenceStart ++ ts))
        (c.column :: (around n c.column ++ outer)) true none) := by
    show (do
      let x ← ({ (outside c ([] ++ ts) (n :: outer) true none).openBlock c.column ts.length
        .blockSequenceStart with keyAllowed := true } : Lexer).dropCandidate
      pure (x.simple .blockEntry)) = _
    rw [hopen]
    rfl
  rw [← hentry]
  simp [token, outside, not_atMark '-' rfl h hrest, not_atMark '.' rfl h hrest,
    hrest]

theorem token_explicitKey (hch : ch = '?') (hn : n ≤ c.column) :
    (outside c ts (n :: outer) true none).token ch rest =
      .ok (outside c.next (.key :: (opening n c.column .blockMappingStart ++ ts))
        (c.column :: (around n c.column ++ outer)) true none) := by
  subst hch
  have hopen := @openBlock_outside c ts n outer true none _ hn [] .blockMappingStart
  have hkey : (outside c ts (n :: outer) true none).explicitKey =
      .ok (outside c.next (.key :: (opening n c.column .blockMappingStart ++ ts))
        (c.column :: (around n c.column ++ outer)) true none) := by
    show (fun x : Lexer => do
      let x ← { x with keyAllowed := !x.inFlow }.dropCandidate
      pure (x.simple .key)) ((outside c ([] ++ ts) (n :: outer) true none).openBlock c.column
        ts.length .blockMappingStart) = _
    rw [hopen]
    rfl
  rw [← hkey]
  simp [token, outside, not_atMark '-' rfl h hrest, not_atMark '.' rfl h hrest,
    hrest]

/-- A colon at the column of the block belongs to a key that was announced. -/
theorem token_value (hch : ch = ':') (hn : n = c.column) :
    (outside c ts (n :: outer) true none).token ch rest =
      .ok (outside c.next (.value :: ts) (n :: outer) true none) := by
  subst hch
  have hvalue : (outside c ts (n :: outer) true none).valueMark =
      .ok (outside c.next (.value :: ts) (n :: outer) true none) := by
    have hopen : (outside c ts (n :: outer) true none).openBlock c.column ts.length
        .blockMappingStart = outside c ts (n :: outer) true none :=
      if_neg (by rw [hn]; exact Int.lt_irrefl _)
    show (fun x : Lexer => do
      let x ← { x with keyAllowed := !x.inFlow }.dropCandidate
      pure (x.simple .value)) ((outside c ts (n :: outer) true none).openBlock c.column ts.length
        .blockMappingStart) = _
    rw [hopen]
    rfl
  rw [← hvalue]
  simp [token, outside, not_atMark '-' rfl h hrest, not_atMark '.' rfl h hrest,
    hrest]

/-- A colon behind a candidate makes it a key, which may open a block. -/
theorem token_keyValue {t : Token} {candidate : KeyCandidate} (hch : ch = ':')
    (hcount : candidate.tokenCount = ts.length) (hn : n ≤ candidate.column) :
    (outside c (t :: ts) (n :: outer) allowed (some candidate)).token ch rest =
      .ok (outside c.next
        (.value :: t :: .key :: (opening n candidate.column .blockMappingStart ++ ts))
        (candidate.column :: (around n candidate.column ++ outer)) false none) := by
  subst hch
  have hkey := @insertAt_outside c ts n outer allowed none [t] .key
  have hopen := @openBlock_outside c ts n outer allowed none _ hn [t, .key] .blockMappingStart
  have hvalue : (outside c (t :: ts) (n :: outer) allowed (some candidate)).valueMark =
      .ok (outside c.next
        (.value :: t :: .key :: (opening n candidate.column .blockMappingStart ++ ts))
        (candidate.column :: (around n candidate.column ++ outer)) false none) := by
    show Except.ok (({ ((outside c ([t] ++ ts) (n :: outer) allowed none).insertAt
      candidate.tokenCount .key).openBlock candidate.column candidate.tokenCount
        .blockMappingStart with keyAllowed := false } : Lexer).simple .value) = _
    rw [hcount, hkey]
    show Except.ok (({ (outside c ([t, .key] ++ ts) (n :: outer) allowed none).openBlock
      candidate.column ts.length .blockMappingStart with keyAllowed := false } : Lexer).simple
        .value) = _
    rw [hopen]
    rfl
  rw [← hvalue]
  simp [token, outside, not_atMark '-' rfl h hrest, not_atMark '.' rfl h hrest,
    hrest]

end indicators

/-! ## Tokens that may be keys -/

/-- The candidate that a token at a place becomes. -/
def noted (c : Cursor) (ts : List Token) (n : Int) (allowed : Bool) : Option KeyCandidate :=
  if allowed then some ⟨ts.length, n == c.column, c.index, c.line, c.column⟩ else none

theorem of_noted {candidate : KeyCandidate} (h : noted c ts n allowed = some candidate) :
    candidate = ⟨ts.length, n == c.column, c.index, c.line, c.column⟩ := by
  unfold noted at h
  split at h
  · exact (Option.some.inj h).symm
  · cases h

theorem noteCandidate_outside :
    (outside c ts (n :: outer) allowed none).noteCandidate =
      .ok (outside c ts (n :: outer) allowed (noted c ts n allowed)) := by
  cases allowed
  · rfl
  · simp [noteCandidate, dropCandidate, candidate?, outside, noted, setCandidate, inFlow]

theorem possibleKey_outside {read : Cursor → Except ReadError (Token × Cursor)} {t : Token}
    {e : Cursor} (h : read c = .ok (t, e)) :
    (outside c ts (n :: outer) allowed none).possibleKey read =
      .ok (outside e (t :: ts) (n :: outer) false (noted c ts n allowed)) := by
  rw [possibleKey, noteCandidate_outside]
  show Except.bind (read c) _ = _
  generalize read c = result at h ⊢
  subst h
  rfl

theorem possibleKey_quoted {double : Bool} {cs : List Char} {e : Cursor}
    (hread : quotedScalar double c = .ok (cs, e)) :
    (outside c ts (n :: outer) allowed none).possibleKey
        (fun c => (quotedScalar double c).map fun (s, c) => (.scalar false s, c)) =
      .ok (outside e (.scalar false cs :: ts) (n :: outer) false (noted c ts n allowed)) := by
  refine possibleKey_outside ?_
  show Except.map _ (quotedScalar double c) = _
  rw [hread]
  rfl

/-- **A quoted scalar is a token.** -/
theorem token_quoted {double : Bool} {cs : List Char} {e : Cursor}
    (h : c.rest = (if double then '"' else '\'') :: rest)
    (hread : quotedScalar double c = .ok (cs, e)) :
    (outside c ts (n :: outer) allowed none).token (if double then '"' else '\'') rest =
      .ok (outside e (.scalar false cs :: ts) (n :: outer) false (noted c ts n allowed)) := by
  rw [← possibleKey_quoted hread]
  cases double <;> simp [token, outside, Cursor.atMark, h]

/-- **A plain scalar is a token.** -/
theorem token_plain {cs : List Char} {e : Cursor} {broke : Bool} (h : c.rest = ch :: rest)
    (hstarts : StartsPlainly ch rest)
    (hread : plainScalar false (n + 1) c = (cs, broke, e)) :
    (outside c ts (n :: outer) allowed none).token ch rest =
      .ok (outside e (.scalar true cs :: ts) (n :: outer) broke (noted c ts n allowed)) := by
  have hplain : (outside c ts (n :: outer) allowed none).plain =
      .ok (outside e (.scalar true cs :: ts) (n :: outer) broke (noted c ts n allowed)) := by
    rw [plain, noteCandidate_outside]
    show (let r := plainScalar false (n + 1) c
      pure { (outside c ts (n :: outer) allowed (noted c ts n allowed)).push (.scalar true r.1) with
        cursor := r.2.2, keyAllowed := r.2.1 } : Except ReadError Lexer) = _
    rw [hread]
    rfl
  rw [← hplain]
  obtain ⟨hindicator, ⟨hspace, hbreak⟩, halone, hhyphens, hdots⟩ := hstarts
  have hmarks : c.atMark '-' = false ∧ c.atMark '.' = false := by
    rw [Cursor.atMark, Cursor.atMark, h, beq_eq_false_iff_ne.mpr hhyphens,
      beq_eq_false_iff_ne.mpr hdots]
    exact ⟨rfl, rfl⟩
  have hlist : "#,[]\x7b\x7d&*!|>'\"%@`".toList =
      ['#', ',', '[', ']', '\x7b', '\x7d', '&', '*', '!', '|', '>', '\'', '"', '%', '@', '`'] := by
    simp
  have hlist' : "-?:,[]\x7b\x7d#&*!|>'\"%@`".toList =
      ['-', '?', ':', ',', '[', ']', '\x7b', '\x7d', '#', '&', '*', '!', '|', '>', '\'', '"', '%',
        '@', '`'] := by
    simp
  rw [hlist] at hindicator
  simp only [List.mem_cons, List.not_mem_nil, or_false, not_or] at hindicator
  have hstart : startsPlain false ch rest = true := by
    rw [startsPlain, hlist', hspace, hbreak]
    by_cases hch : ch = '?' ∨ ch = ':' ∨ ch = '-'
    · rw [halone hch]
      rcases hch with rfl | rfl | rfl <;> rfl
    · simp_all
  have hflow : (outside c ts (n :: outer) allowed none).inFlow = false := rfl
  have hword : ∀ d, (d = '?' ∨ d = ':' ∨ d = '-') → (ch == d && endsWord rest) = false := by
    rintro d hd
    by_cases hch : ch = d
    · rw [halone (hch ▸ hd), Bool.and_false]
    · rw [beq_eq_false_iff_ne.mpr hch, Bool.false_and]
  obtain ⟨-, hcomma, hopen, hclose, hopen', hclose', hand, hstar, hbang, hbar, hgreater, hquote,
    hdouble, hpercent, -⟩ := hindicator
  simp [token, hflow, hmarks, hstart, hword, hcomma, hopen, hclose, hopen', hclose', hand, hstar,
    hbang, hbar, hgreater, hquote, hdouble, hpercent, show (outside c ts (n :: outer) allowed
      none).cursor = c from rfl]

/-- **A pair of brackets is two tokens**, and a key may not start behind it. -/
theorem yieldsFrom_brackets {left right : Char} {start finish : Token}
    (hkind : (left = '[' ∧ right = ']' ∧ start = .flowSequenceStart ∧ finish = .flowSequenceEnd) ∨
      (left = '\x7b' ∧ right = '\x7d' ∧ start = .flowMappingStart ∧ finish = .flowMappingEnd))
    (h : c.rest = left :: right :: rest) (hn : n ≤ c.column)
    (hnext : (outside (c.skip 2) (finish :: start :: ts) (n :: outer) false
      (noted c ts n allowed)).Yields tokens) :
    YieldsFrom (outside c ts (n :: outer) allowed none) tokens := by
  have hrest := Cursor.rest_next_of h
  -- Between the brackets there is one more level, on which nothing is a candidate.
  let y : Lexer := { outside c.next (start :: ts) (n :: outer) true none with
    candidates := [none, noted c ts n allowed] }
  have hopen : (outside c ts (n :: outer) allowed none).token left (right :: rest) = .ok y := by
    have hbracket : (outside c ts (n :: outer) allowed none).openBracket start = .ok y := by
      rw [openBracket, noteCandidate_outside]
      rfl
    rw [← hbracket]
    rcases hkind with ⟨rfl, rfl, rfl, rfl⟩ | ⟨rfl, rfl, rfl, rfl⟩ <;>
      simp [token, outside, Cursor.atMark, h]
  have hclose : y.token right rest = .ok (outside (c.skip 2) (finish :: start :: ts) (n :: outer)
      false (noted c ts n allowed)) := by
    have hbracket : y.closeBracket finish = .ok (outside (c.skip 2) (finish :: start :: ts)
        (n :: outer) false (noted c ts n allowed)) := rfl
    rw [← hbracket]
    rcases hkind with ⟨rfl, rfl, rfl, rfl⟩ | ⟨rfl, rfl, rfl, rfl⟩ <;>
      simp [token, y, outside, Cursor.atMark, hrest]
  have hskip : y.skipBlanks = y := by
    refine skipBlanks_token ?_
    rw [show y.cursor.rest = right :: rest from hrest]
    rcases hkind with ⟨rfl, rfl, rfl, rfl⟩ | ⟨rfl, rfl, rfl, rfl⟩ <;>
      simp [StartsToken, isBreak]
  have hstale : y.dropStale = .ok y := by
    have hbreak : isBreak left = false := by
      rcases hkind with ⟨rfl, -⟩ | ⟨rfl, -⟩ <;> rfl
    obtain ⟨hindex, -, hline⟩ := Cursor.next_fields h
    rw [if_neg (by simp [hbreak])] at hline
    have hfresh : ∀ k ∈ noted c ts n allowed, y.isStale k = false := by
      intro k hk
      simp [isStale, y, outside, hline, hindex, of_noted hk]
    refine dropStale_fresh fun k hk candidate hcandidate => ?_
    rcases List.mem_cons.mp hk with rfl | hk
    · cases hcandidate
    · exact hfresh candidate (List.mem_singleton.mp hk ▸ hcandidate)
  have hunwind : y.unwind y.cursor.column = y := by
    rw [unwind, if_pos (show y.inFlow = true from rfl)]
  exact @yieldsFrom_token c ts n outer allowed tokens left _ [] y
    (fun _ h => absurd h List.not_mem_nil) hn h hopen (remaining_next_lt h)
    (.of_token (hskip.symm ▸ hstale) hunwind hrest hclose (remaining_next_lt hrest) hnext)

end steps

end Lexer

end Regen.Yaml
