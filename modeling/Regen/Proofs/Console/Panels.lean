import Mathlib.Data.List.Basic
import Regen.Console.Boxes
import Regen.Proofs.Console.Shown
import Regen.Proofs.Disk.PathText

/-! # Lines in panels

    A line of a text is printed in a panel as it is, if it consists of characters that take a
    column each and start nothing: no tag, no tab and no further line.  The text in front of it may
    be anything without a tag, and the text behind it anything at all. -/

namespace Regen

/-- **A simple text**: visible ASCII without an opening bracket. -/
def Simple (cs : List Char) : Prop := ∀ c ∈ cs, 0x20 ≤ c.toNat ∧ c.toNat ≤ 0x7E ∧ c ≠ '['

instance (cs : List Char) : Decidable (Simple cs) :=
  List.decidableBAll (fun c : Char => 0x20 ≤ c.toNat ∧ c.toNat ≤ 0x7E ∧ c ≠ '[') cs

/-- **A line stands in a text**: a line feed is behind it, and in front of it is the start of the
    text or a line feed. -/
inductive StandsIn (line : List Char) : List Char → Prop
  | first (after : List Char) : StandsIn line (line ++ '\n' :: after)
  | later (before after : List Char) : StandsIn line (before ++ '\n' :: (line ++ '\n' :: after))

section simple
variable {line text : List Char} {c : Char}

theorem Simple.append {cs : List Char} (hline : Simple line) (hcs : Simple cs) :
    Simple (line ++ cs) := by
  intro c hc
  rcases List.mem_append.mp hc with hc | hc
  · exact hline c hc
  · exact hcs c hc

theorem simple_of_isDigit (h : ∀ c ∈ line, c.isDigit) : Simple line := by
  intro c hc
  have hdigit := h c hc
  simp only [Char.isDigit, Bool.and_eq_true, decide_eq_true_eq] at hdigit
  have hlow : 48 ≤ c.toNat := hdigit.1
  have hhigh : c.toNat ≤ 57 := hdigit.2
  refine ⟨by omega, by omega, ?_⟩
  rintro rfl
  exact absurd hhigh (by decide)

theorem Simple.ne_of_lt (h : Simple line) (hc : c.toNat < 0x20) : c ∉ line := by
  intro hmem
  have := (h c hmem).1
  omega

/-- A simple text takes a column for each character. -/
theorem Simple.width_eq (h : Simple line) : Text.width line = line.length := by
  have hplain : ∀ c ∈ line, c ≠ Text.joiner ∧ c ≠ Text.emojiMark := by
    intro c hc
    obtain ⟨-, hhigh, -⟩ := h c hc
    constructor
    · rintro rfl
      exact absurd hhigh (by decide)
    · rintro rfl
      exact absurd hhigh (by decide)
  have hone : ∀ c ∈ line, Text.charWidth c = 1 := by
    intro c hc
    obtain ⟨hlow, hhigh, -⟩ := h c hc
    have hvisible : Text.isControl c = false := by
      simp only [Text.isControl, Bool.or_eq_false_iff, Bool.and_eq_false_iff,
        decide_eq_false_iff_not]
      omega
    rw [Text.charWidth, hvisible, if_neg Bool.false_ne_true, if_pos (by omega)]
  rw [Text.width, Text.widthFrom_of_plain none hplain, List.map_congr_left hone]
  clear h hplain hone
  induction line with
  | nil => rfl
  | cons c rest ih =>
    rw [List.map_cons, List.foldr_cons, ih, List.length_cons, Nat.add_comm]

theorem Simple.not_isLineEnd (h : Simple line) (hc : c ∈ line) : Text.isLineEnd c = false := by
  obtain ⟨hlow, hhigh, -⟩ := h c hc
  simp only [Text.isLineEnd, Bool.or_eq_false_iff, Bool.and_eq_false_iff, decide_eq_false_iff_not,
    beq_eq_false_iff_ne]
  omega

end simple

/-! ## Lines of a text -/

namespace Text

variable {line text : List Char}

/-- **A line feed ends what is in front of it**: the lines behind it are those of the rest. -/
theorem linesFrom_append_newline (before rest piece : List Char) :
    ∃ front, linesFrom piece (before ++ '\n' :: rest) = front ++ linesFrom [] rest := by
  -- A carriage return and the line feed behind it are one end.
  have hnext {c : Char} {before : List Char} (hno : ∀ r, c = '\r' → before = '\n' :: r → False)
      (hlast : ¬(c = '\r' ∧ before = [])) :
      ∀ r, c = '\r' → before ++ '\n' :: rest = '\n' :: r → False := by
    rintro r rfl heq
    cases before with
    | nil => exact hlast ⟨rfl, rfl⟩
    | cons d before =>
      obtain rfl := (List.cons.inj heq).1
      exact hno before rfl rfl
  fun_induction linesFrom piece before with
  | case1 piece => exact ⟨[_], rfl⟩
  | case2 piece => exact ⟨[_], rfl⟩
  | case3 piece before ih =>
    obtain ⟨front, hfront⟩ := ih
    exact ⟨_ :: front, congrArg (List.cons _) hfront⟩
  | case4 piece c before hno hend ih =>
    by_cases hlast : c = '\r' ∧ before = []
    · obtain ⟨rfl, rfl⟩ := hlast
      exact ⟨[_], rfl⟩
    · obtain ⟨front, hfront⟩ := ih
      refine ⟨piece.reverse :: front, ?_⟩
      rw [List.cons_append, linesFrom, if_pos hend, hfront, List.cons_append]
      exact hnext hno hlast
  | case5 piece c before hno hend ih =>
    by_cases hlast : c = '\r' ∧ before = []
    · obtain ⟨rfl, rfl⟩ := hlast
      exact ⟨[_], rfl⟩
    · obtain ⟨front, hfront⟩ := ih
      refine ⟨front, ?_⟩
      rw [List.cons_append, linesFrom, if_neg hend, hfront]
      exact hnext hno hlast

/-- A simple text in front of a line feed is a line. -/
theorem linesFrom_simple (h : Simple line) (rest piece : List Char) :
    linesFrom piece (line ++ '\n' :: rest) = (piece.reverse ++ line) :: linesFrom [] rest := by
  induction line generalizing piece with
  | nil => simp [linesFrom, isLineEnd]
  | cons c line ih =>
    have hc := h.not_isLineEnd List.mem_cons_self
    have hno : c ≠ '\r' := by
      rintro rfl
      exact absurd hc (by decide)
    rw [List.cons_append, linesFrom, hc, if_neg Bool.false_ne_true,
      ih fun d hd => h d (List.mem_cons_of_mem _ hd)]
    · simp
    · simp [hno]

/-- A simple line that stands in a text is one of its lines. -/
theorem mem_lines (h : Simple line) (hstands : StandsIn line text) : line ∈ lines text := by
  cases hstands with
  | first after =>
    rw [lines, linesFrom_simple h]
    exact List.mem_cons_self
  | later before after =>
    obtain ⟨front, hfront⟩ := linesFrom_append_newline before (line ++ '\n' :: after) []
    rw [lines, hfront, linesFrom_simple h]
    exact List.mem_append_right _ List.mem_cons_self

/-- It is also a piece between line feeds. -/
theorem mem_splitAt (h : Simple line) (hstands : StandsIn line text) :
    line ∈ splitAt (· == '\n') text := by
  have hone : line.splitOnP (· == '\n') = [line] := by
    refine List.splitOnP_eq_singleton fun c hc => ?_
    rw [beq_eq_false_iff_ne]
    rintro rfl
    exact h.ne_of_lt (by decide) hc
  have hcut (front after : List Char) : (front ++ '\n' :: after).splitOnP (· == '\n') =
      front.splitOnP (· == '\n') ++ after.splitOnP (· == '\n') :=
    List.splitOnP_append_cons front after rfl
  have hpiece (after : List Char) : line ∈ (line ++ '\n' :: after).splitOnP (· == '\n') := by
    rw [hcut, hone]
    exact List.mem_cons_self
  rw [splitAt_eq_splitOnP]
  cases hstands with
  | first after => exact hpiece after
  | later before after =>
    rw [hcut]
    exact List.mem_append_right _ (hpiece after)

end Text

/-! ## Rendered text -/

namespace Markup

variable {front rest : List Char}

/-- The first piece begins with the plain text so far. -/
theorem exists_piecesFrom (fuel position : Nat) (plain cs : List Char) :
    ∃ more ps, piecesFrom fuel position plain cs = .plain (plain.reverse ++ more) :: ps := by
  induction fuel generalizing position plain cs with
  | zero => exact ⟨cs, [], rfl⟩
  | succ fuel ih =>
    cases cs with
    | nil => exact ⟨[], [], by simp [piecesFrom]⟩
    | cons c cs =>
      rw [piecesFrom]
      dsimp only
      split
      · split
        · exact ⟨[], _, by rw [List.append_nil]⟩
        · obtain ⟨more, ps, hps⟩ := ih _ _ _
          exact ⟨_, ps, by rw [hps, List.reverse_append, List.append_assoc]⟩
      · split
        · obtain ⟨more, ps, hps⟩ := ih _ _ _
          exact ⟨_, ps, by rw [hps, List.reverse_cons, List.append_assoc]⟩
        · obtain ⟨more, ps, hps⟩ := ih _ _ _
          exact ⟨_, ps, by rw [hps, List.reverse_append, List.append_assoc]⟩

/-- Text without a bracket has nothing to unescape, nor has what is behind it if it does not end
    with a backslash. -/
theorem dropEscapes_append (hfront : Clear front) (rest : List Char) :
    dropEscapes (front ++ rest) = front ++ dropEscapes rest := by
  induction front with
  | nil => rfl
  | cons c front ih =>
    have hno : ∀ more, c = '\\' → front ++ rest = '[' :: more → False := by
      rintro more rfl heq
      cases front with
      | nil => exact hfront.noSlash rfl
      | cons d front =>
        obtain rfl := (List.cons.inj heq).1
        exact hfront.noBracket (List.mem_cons_of_mem _ List.mem_cons_self)
    rw [List.cons_append, dropEscapes, ih hfront.tail, List.cons_append]
    exact hno

/-- Closing a tag leaves the text as it is. -/
theorem reversed_of_closeTag {r r' : Rendering} {tag name : List Char} {position : Nat}
    (h : r.closeTag tag name position = .ok r') : r'.reversed = r.reversed := by
  unfold Rendering.closeTag at h
  dsimp only at h
  split at h
  -- With or without a name, the tag that is closed is looked at in the same way.
  all_goals
    obtain ⟨wanted, -, h⟩ := bind_eq_ok.mp h
    split at h
    · cases h
    · split at h
      · split at h
        · obtain ⟨_, -, h⟩ := bind_eq_ok.mp h
          obtain rfl := Except.ok.inj h
          rfl
        · obtain rfl := Except.ok.inj h
          rfl
      · obtain rfl := Except.ok.inj h
        rfl

/-- Adding a piece only adds to the text. -/
theorem suffix_of_add {r r' : Rendering} {p : Piece} (h : r.add p = .ok r') :
    r.reversed <:+ r'.reversed := by
  cases p with
  | plain cs =>
    obtain rfl := Except.ok.inj h
    rw [Rendering.put, List.reverseAux_eq]
    exact List.suffix_append _ _
  | tag cs position =>
    unfold Rendering.add at h
    dsimp only at h
    split at h
    · exact ⟨[], (reversed_of_closeTag h).symm⟩
    · obtain ⟨name, -, h⟩ := bind_eq_ok.mp h
      obtain rfl := Except.ok.inj h
      exact List.suffix_refl _

theorem suffix_of_foldlM {r r' : Rendering} {ps : List Piece}
    (h : ps.foldlM Rendering.add r = .ok r') : r.reversed <:+ r'.reversed := by
  induction ps generalizing r with
  | nil =>
    obtain rfl := Except.ok.inj h
    exact List.suffix_refl _
  | cons p ps ih =>
    obtain ⟨r₁, hadd, h⟩ := bind_eq_ok.mp h
    exact (suffix_of_add hadd).trans (ih h)

/-- **What is in front of the first tag is printed first**, without its silent characters. -/
theorem exists_text_of_render {text : String} {r : Rendered} (htext : text.toList = front ++ rest)
    (hfront : Clear front) (h : render text = .ok r) :
    ∃ after, r.text = front.filter (!isSilent ·) ++ after := by
  obtain ⟨r₁, hpieces, h⟩ := bind_eq_ok.mp h
  obtain rfl := Except.ok.inj h
  have hfuel : front.length ≤ (front ++ rest).length + 1 := by
    rw [List.length_append]
    omega
  obtain ⟨fuel, position, plain, -, hplain, hgoes⟩ := piecesFrom_front 0 [] rest hfront hfuel
  obtain ⟨more, ps, hfirst⟩ := exists_piecesFrom fuel position plain rest
  rw [pieces, htext, hgoes, hfirst, List.foldlM_cons] at hpieces
  obtain ⟨r₂, hadd, hpieces⟩ := bind_eq_ok.mp hpieces
  obtain rfl := Except.ok.inj hadd
  obtain ⟨added, hadded⟩ := suffix_of_foldlM hpieces
  have hfirst : printable (plain.reverse ++ more) =
      front.filter (!isSilent ·) ++ (dropEscapes more).filter (!isSilent ·) := by
    rw [hplain, List.reverse_nil, List.nil_append, printable, dropEscapes_append hfront,
      List.filter_append]
  rw [Rendering.put, List.reverseAux_eq, hfirst] at hadded
  refine ⟨(dropEscapes more).filter (!isSilent ·) ++ added.reverse, ?_⟩
  rw [Rendering.finish, ← hadded]
  simp [Rendering.start]

/-- The texts in front of a line, each with its line feed. -/
def linesBefore (texts : List String) : List Char := texts.flatMap fun t => t.toList ++ ['\n']

theorem toList_intercalate_line {before after : List String} {line : String} (hafter : after ≠ []) :
    (String.intercalate "\n" (before ++ line :: after)).toList = linesBefore before ++
      (line.toList ++ '\n' :: (String.intercalate "\n" after).toList) := by
  induction before with
  | nil =>
    rw [List.nil_append, String.intercalate_cons_of_ne_nil hafter]
    simp [linesBefore]
  | cons t before ih =>
    have hmore : before ++ line :: after ≠ [] := by simp
    rw [List.cons_append, String.intercalate_cons_of_ne_nil hmore, String.toList_append, ih]
    simp [linesBefore]

/-- **A simple line among others stands in what is printed of them**, if no tag is in front of
    it. -/
theorem standsIn_of_render {before after : List String} {line : String} {r : Rendered}
    (hbefore : ∀ t ∈ before, Bare t) (hline : Simple line.toList) (hafter : after ≠ [])
    (h : render (String.intercalate "\n" (before ++ line :: after)) = .ok r) :
    StandsIn line.toList r.text := by
  have hclear : Clear (linesBefore before ++ (line.toList ++ ['\n'])) := by
    refine ⟨?_, by simp⟩
    intro hmem
    rcases List.mem_append.mp hmem with hmem | hmem
    · obtain ⟨t, ht, hmem⟩ := List.mem_flatMap.mp hmem
      rcases List.mem_append.mp hmem with hmem | hmem
      · exact hbefore t ht hmem
      · exact absurd hmem (by decide)
    · rcases List.mem_append.mp hmem with hmem | hmem
      · exact (hline _ hmem).2.2 rfl
      · exact absurd hmem (by decide)
  have htext : (String.intercalate "\n" (before ++ line :: after)).toList =
      linesBefore before ++ (line.toList ++ ['\n']) ++ (String.intercalate "\n" after).toList := by
    rw [toList_intercalate_line hafter]
    simp
  obtain ⟨more, hmore⟩ := exists_text_of_render htext hclear h
  have hheard : line.toList.filter (!isSilent ·) = line.toList := by
    refine List.filter_eq_self.mpr fun c hc => ?_
    have hlow := (hline c hc).1
    simp only [isSilent, Bool.not_eq_true', Bool.or_eq_false_iff, beq_eq_false_iff_ne,
      Bool.and_eq_false_iff, decide_eq_false_iff_not]
    omega
  rw [hmore, List.filter_append, List.filter_append, hheard]
  rcases List.eq_nil_or_concat before with rfl | ⟨texts, t, rfl⟩
  · simpa [linesBefore, isSilent] using @StandsIn.first line.toList more
  · have hends : (linesBefore (texts.concat t)).filter (!isSilent ·) =
        (linesBefore texts ++ t.toList).filter (!isSilent ·) ++ ['\n'] := by
      simp [linesBefore, isSilent]
    rw [hends]
    simpa [isSilent] using
      StandsIn.later ((linesBefore texts ++ t.toList).filter (!isSilent ·)) more

end Markup

/-! ## Lines that fit -/

namespace Console

variable {line text : List Char} {limit : Nat}

theorem le_foldl_max {heights : List Nat} (n : Nat) :
    n ≤ heights.foldl max n ∧ ∀ k ∈ heights, k ≤ heights.foldl max n := by
  induction heights generalizing n with
  | nil => exact ⟨Nat.le_refl n, fun k hk => absurd hk List.not_mem_nil⟩
  | cons k heights ih =>
    obtain ⟨hstart, hall⟩ := ih (max n k)
    refine ⟨Nat.le_trans (Nat.le_max_left n k) hstart, fun j hj => ?_⟩
    rcases List.mem_cons.mp hj with rfl | hj
    · exact Nat.le_trans (Nat.le_max_right n j) hstart
    · exact hall j hj

/-- A text is at least as wide as its lines. -/
theorem width_le_measure (h : line ∈ Text.lines text) : Text.width line ≤ measure text :=
  (le_foldl_max 0).2 _ (List.mem_map_of_mem h)

/-- A line without tabs stays as it is. -/
theorem expandTabs_of_simple (h : Simple line) : expandTabs line = line := by
  have hone : Text.splitAt (· == '\t') line = [line] := by
    rw [Text.splitAt_eq_splitOnP]
    refine List.splitOnP_eq_singleton fun c hc => ?_
    rw [beq_eq_false_iff_ne]
    rintro rfl
    exact h.ne_of_lt (by decide) hc
  simp [expandTabs, hone]

/-- Words that fit on the line are placed on it. -/
theorem place_of_fits {folds : Bool} {f : Filling} {word : List Char} (hword : Simple word)
    (hfits : f.column + word.length ≤ limit) :
    Filling.place limit folds f word =
      { f with line := f.line ++ word, column := f.column + word.length } := by
  have htrimmed : (word.reverse.dropWhile Text.isBlank).reverse <+: word := by
    have hsuffix := List.dropWhile_suffix (l := word.reverse) Text.isBlank
    simpa using List.reverse_prefix.mpr hsuffix
  have hneeded : Text.width (word.reverse.dropWhile Text.isBlank).reverse ≤ word.length := by
    have hsimple : Simple (word.reverse.dropWhile Text.isBlank).reverse := fun c hc =>
      hword c (htrimmed.subset hc)
    rw [hsimple.width_eq]
    exact htrimmed.length_le
  rw [Filling.place, if_pos (by omega), hword.width_eq]

/-- **A line that fits is not cut.** -/
theorem cut_of_fits (folds : Bool) (h : Simple line) (hfits : line.length ≤ limit) :
    cut limit folds line = [line] := by
  have hplaced (ws : List (List Char)) (f : Filling) (hws : Simple ws.flatten)
      (hroom : f.column + ws.flatten.length ≤ limit) :
      ∃ column, ws.foldl (Filling.place limit folds) f =
        { f with line := f.line ++ ws.flatten, column } := by
    induction ws generalizing f with
    | nil => exact ⟨f.column, by simp⟩
    | cons word ws ih =>
      rw [List.flatten_cons, List.length_append] at hroom
      rw [List.flatten_cons] at hws
      have hword : Simple word := fun c hc => hws c (List.mem_append_left _ hc)
      have hrest : Simple ws.flatten := fun c hc => hws c (List.mem_append_right _ hc)
      rw [List.foldl_cons, place_of_fits hword (by omega)]
      obtain ⟨column, hall⟩ := ih { f with line := f.line ++ word, column := f.column + word.length }
        hrest (by dsimp only; omega)
      exact ⟨column, by simp [hall]⟩
  have hwords : (words line).flatten = line := flatten_wordsFrom _ _
  obtain ⟨column, hall⟩ := hplaced (words line) .empty (hwords.symm ▸ h)
    (by rw [hwords]; simpa [Filling.empty] using hfits)
  rw [cut, hall, hwords]
  rfl

theorem cropBlanks_of_fits (hfits : line.length ≤ limit) : cropBlanks limit line = line := by
  rw [cropBlanks, Nat.sub_eq_zero_of_le hfits, Nat.min_zero, Nat.sub_zero, List.take_length]

/-- A simple line is printed as it is where it fits. -/
theorem mem_printedLines (overflow : Overflow) (h : Simple line) (hstands : StandsIn line text)
    (hfits : line.length ≤ limit) : line ∈ printedLines limit overflow text := by
  refine List.mem_flatMap.mpr ⟨line, Text.mem_splitAt h hstands, ?_⟩
  rw [expandTabs_of_simple h, cut_of_fits _ h hfits, List.map_singleton, cropBlanks_of_fits hfits]
  exact List.mem_cons_self

/-- **A simple line stands in the panel** around its text, filled up with blanks. -/
theorem exists_panel_line (title : String) (h : Simple line) (hstands : StandsIn line text) :
    ∃ n, "│ ".toList ++ (line ++ blanks n) ++ " │".toList ∈ panel title text := by
  have hwide := width_le_measure (Text.mem_lines h hstands)
  have hwidth := h.width_eq
  have hprinted : line ∈ printedLines (max (measure text) (title.length + 2)) .fold text :=
    mem_printedLines .fold h hstands (by omega)
  have hshort : shorten (max (measure text) (title.length + 2)) .fold line = line := by
    rw [shorten, if_pos (by omega)]
  have hbody : line ∈ (printedLines (max (measure text) (title.length + 2)) .fold text).map
      (shorten (max (measure text) (title.length + 2)) .fold) :=
    List.mem_map.mpr ⟨line, hprinted, hshort⟩
  exact ⟨_, List.mem_cons_of_mem _ (List.mem_append_left _ (List.mem_map.mpr ⟨line, hbody, rfl⟩))⟩

end Console

end Regen
