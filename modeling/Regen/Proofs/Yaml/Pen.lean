import Mathlib.Data.List.Chain
import Regen.Proofs.Yaml.Cursor
import Regen.Yaml.Pen

/-! # What a pen writes

    Whatever is written, the pen's text grows by some characters, its column is the one behind
    them, and all of them may stand in a document. -/

namespace Regen.Yaml

/-- May the character be written: may it stand in a document, and is it neither a carriage return
    nor a byte order mark? -/
def isClean (c : Char) : Bool := isAllowed c && c != '\r' && c != '\uFEFF'

theorem isClean_space : isClean ' ' = true := by decide

theorem isClean_replicate_space (n : Nat) : ∀ c ∈ List.replicate n ' ', isClean c = true := by
  intro c hc
  rw [List.eq_of_mem_replicate hc]
  exact isClean_space

theorem isBreak_replicate_space (n : Nat) : ∀ c ∈ List.replicate n ' ', isBreak c = false := by
  intro c hc
  rw [List.eq_of_mem_replicate hc]
  rfl

theorem not_mark_of_clean {t : List Char} (h : ∀ c ∈ t, isClean c = true) : '\uFEFF' ∉ t :=
  fun hmem => absurd (h _ hmem) (by decide)

namespace Pen

/-- **A pen wrote a text**, and went on to the column behind it. -/
structure Wrote (p : Pen) (t : List Char) (p' : Pen) : Prop where
  reversed : p'.reversed = t.reverse ++ p.reversed
  column : p'.column = columnBehind p.column t
  clean : ∀ c ∈ t, isClean c = true

section wrote
variable {p p' p'' : Pen} {t u : List Char}

theorem Wrote.refl (p : Pen) : p.Wrote [] p := ⟨rfl, rfl, fun _ h => absurd h List.not_mem_nil⟩

theorem Wrote.trans (h : p.Wrote t p') (h' : p'.Wrote u p'') : p.Wrote (t ++ u) p'' where
  reversed := by rw [h'.reversed, h.reversed, List.reverse_append, List.append_assoc]
  column := by rw [h'.column, h.column, columnBehind_append]
  clean c hc := (List.mem_append.mp hc).elim (h.clean c) (h'.clean c)

/-- Only the text and the column of a pen matter. -/
theorem Wrote.congr {q q' : Pen} (h : p.Wrote t p') (hreversed : q.reversed = p.reversed)
    (hcolumn : q.column = p.column) (hreversed' : q'.reversed = p'.reversed)
    (hcolumn' : q'.column = p'.column) : q.Wrote t q' :=
  ⟨by rw [hreversed', hreversed, h.reversed], by rw [hcolumn', hcolumn, h.column], h.clean⟩

theorem Wrote.text (h : p.Wrote t p') : p'.text = p.text ++ t := by
  rw [Pen.text, Pen.text, h.reversed, List.reverse_append, List.reverse_reverse]

theorem wrote_put (p : Pen) {cs : List Char} (hbreaks : ∀ c ∈ cs, isBreak c = false)
    (hclean : ∀ c ∈ cs, isClean c = true) : p.Wrote cs (p.put cs) where
  reversed := by rw [put, List.reverseAux_eq]
  column := (columnBehind_of_no_break hbreaks p.column).symm
  clean := hclean

theorem wrote_spaces (p : Pen) (n : Nat) :
    p.Wrote (List.replicate n ' ') (p.put (List.replicate n ' ')) :=
  wrote_put p (isBreak_replicate_space n) (isClean_replicate_space n)

theorem wrote_breakLine (p : Pen) {c : Char} (hbreak : isBreak c = true)
    (hclean : isClean c = true) : p.Wrote [c] (p.breakLine c) where
  reversed := rfl
  column := by simp [breakLine, columnBehind, hbreak]
  clean := by simpa using hclean

end wrote

/-! ## Indentation -/

/-- Must the pen go to a new line to reach a column? -/
def mustBreak (p : Pen) (indent : Nat) : Bool :=
  !p.inIndent || indent < p.column || (p.column == indent && !p.afterBlank)

/-- What the pen writes to reach a column. -/
def gapTo (p : Pen) (indent : Nat) : List Char :=
  if p.mustBreak indent then '\n' :: List.replicate indent ' '
  else List.replicate (indent - p.column) ' '

/-- The pen at a column of its line. -/
def reach (p : Pen) (indent : Nat) : Pen :=
  if p.column < indent then
    { p.put (List.replicate (indent - p.column) ' ') with afterBlank := true }
  else p

theorem indentTo_eq (p : Pen) (indent : Nat) :
    p.indentTo indent = (if p.mustBreak indent then p.breakLine '\n' else p).reach indent := rfl

theorem wrote_reach (p : Pen) (indent : Nat) :
    p.Wrote (List.replicate (indent - p.column) ' ') (p.reach indent) := by
  unfold reach
  split
  · exact (wrote_spaces p _).congr rfl rfl rfl rfl
  · next hle =>
    rw [Nat.sub_eq_zero_of_le (Nat.le_of_not_lt hle)]
    exact .refl p

theorem wrote_indentTo (p : Pen) (indent : Nat) : p.Wrote (p.gapTo indent) (p.indentTo indent) := by
  rw [indentTo_eq, gapTo]
  split
  · exact (wrote_breakLine p rfl rfl).trans (wrote_reach (p.breakLine '\n') indent)
  · exact wrote_reach p indent

theorem reach_fields {p : Pen} {indent : Nat} (hle : p.column ≤ indent) (hin : p.inIndent = true)
    (hblank : p.column = indent → p.afterBlank = true) :
    (p.reach indent).column = indent ∧ (p.reach indent).afterBlank = true ∧
      (p.reach indent).inIndent = true := by
  unfold reach
  split
  · refine ⟨?_, rfl, hin⟩
    show p.column + (List.replicate (indent - p.column) ' ').length = indent
    rw [List.length_replicate]
    omega
  · have heq : p.column = indent := by omega
    exact ⟨heq, hblank heq, hin⟩

/-- In the indentation the pen stands at the column, behind a blank. -/
theorem indentTo_fields (p : Pen) (indent : Nat) :
    (p.indentTo indent).column = indent ∧ (p.indentTo indent).afterBlank = true ∧
      (p.indentTo indent).inIndent = true := by
  rw [indentTo_eq]
  split
  · exact reach_fields (Nat.zero_le _) rfl fun _ => rfl
  · next hbreak =>
    simp only [mustBreak, Bool.not_eq_true, Bool.or_eq_false_iff, Bool.not_eq_false',
      decide_eq_false_iff_not, Bool.and_eq_false_iff, beq_eq_false_iff_ne] at hbreak
    obtain ⟨⟨hin, hle⟩, hblank⟩ := hbreak
    exact reach_fields (by omega) hin fun heq => hblank.resolve_left fun hne => hne heq

/-- What an indicator writes. -/
def indicatorText (p : Pen) (cs : List Char) (needsBlank : Bool) : List Char :=
  if needsBlank && !p.afterBlank then ' ' :: cs else cs

theorem wrote_indicator (p : Pen) {cs : List Char} (needsBlank keepsIndent : Bool)
    (hbreaks : ∀ c ∈ cs, isBreak c = false) (hclean : ∀ c ∈ cs, isClean c = true) :
    p.Wrote (p.indicatorText cs needsBlank) (p.indicator cs needsBlank keepsIndent) := by
  have hput : p.Wrote (p.indicatorText cs needsBlank) (p.put (p.indicatorText cs needsBlank)) := by
    apply wrote_put
    · unfold indicatorText
      split
      · exact List.forall_mem_cons.mpr ⟨rfl, hbreaks⟩
      · exact hbreaks
    · unfold indicatorText
      split
      · exact List.forall_mem_cons.mpr ⟨rfl, hclean⟩
      · exact hclean
  exact hput.congr rfl rfl rfl rfl

/-! ## Runs -/

/-- The characters of a run. -/
def Run.chars : Run → List Char
  | .spaces n => List.replicate n ' '
  | .breaks cs | .word cs => cs

def Run.isWord : Run → Bool
  | .word _ => true
  | _ => false

/-- A run is not empty and its characters are of its kind. -/
def Run.IsProper : Run → Prop
  | .spaces n => 0 < n
  | .breaks cs => cs ≠ [] ∧ ∀ c ∈ cs, isBreak c = true
  | .word cs => cs ≠ [] ∧ ∀ c ∈ cs, c ≠ ' ' ∧ isBreak c = false

/-- The runs of a text make it up. -/
theorem flatMap_runs (cs : List Char) : (runs cs).flatMap Run.chars = cs := by
  induction cs with
  | nil => rfl
  | cons c cs ih =>
    rw [runs]
    split
    · next hspace =>
      obtain rfl := eq_of_beq hspace
      split
      · next n more hmore =>
        rw [hmore] at ih
        simp only [List.flatMap_cons, Run.chars, List.replicate_succ, List.cons_append] at ih ⊢
        rw [ih]
      · simp only [List.flatMap_cons, Run.chars, ih]
        rfl
    · split
      · split
        · next bs more hmore =>
          rw [hmore] at ih
          simp only [List.flatMap_cons, Run.chars, List.cons_append] at ih ⊢
          rw [ih]
        · simp only [List.flatMap_cons, Run.chars, ih]
          rfl
      · split
        · next ws more hmore =>
          rw [hmore] at ih
          simp only [List.flatMap_cons, Run.chars, List.cons_append] at ih ⊢
          rw [ih]
        · simp only [List.flatMap_cons, Run.chars, ih]
          rfl

theorem isProper_of_mem_runs {cs : List Char} : ∀ r ∈ runs cs, r.IsProper := by
  induction cs with
  | nil => exact fun _ h => absurd h List.not_mem_nil
  | cons c cs ih =>
    rw [runs]
    split
    · split
      · next n more hmore =>
        rw [hmore, List.forall_mem_cons] at ih
        exact List.forall_mem_cons.mpr ⟨Nat.succ_pos n, ih.2⟩
      · exact List.forall_mem_cons.mpr ⟨Nat.one_pos, ih⟩
    · next hspace =>
      split
      · next hbreak =>
        split
        · next bs more hmore =>
          rw [hmore, List.forall_mem_cons] at ih
          exact List.forall_mem_cons.mpr
            ⟨⟨List.cons_ne_nil _ _, List.forall_mem_cons.mpr ⟨hbreak, ih.1.2⟩⟩, ih.2⟩
        · exact List.forall_mem_cons.mpr ⟨⟨List.cons_ne_nil _ _, by simpa using hbreak⟩, ih⟩
      · next hbreak =>
        have hc : c ≠ ' ' ∧ isBreak c = false := ⟨by simpa using hspace, by simpa using hbreak⟩
        split
        · next ws more hmore =>
          rw [hmore, List.forall_mem_cons] at ih
          exact List.forall_mem_cons.mpr
            ⟨⟨List.cons_ne_nil _ _, List.forall_mem_cons.mpr ⟨hc, ih.1.2⟩⟩, ih.2⟩
        · exact List.forall_mem_cons.mpr ⟨⟨List.cons_ne_nil _ _, by simpa using hc⟩, ih⟩

/-- The first run of a text holds its first character. -/
theorem exists_of_head?_runs {cs : List Char} {r : Run} (h : (runs cs).head? = some r) :
    ∃ c rest, cs = c :: rest ∧ c ∈ r.chars := by
  obtain ⟨more, hmore⟩ := List.head?_eq_some_iff.mp h
  have htext := flatMap_runs cs
  rw [hmore, List.flatMap_cons] at htext
  have hproper := isProper_of_mem_runs r (show r ∈ runs cs by simp [hmore])
  match hr : r.chars with
  | [] =>
    cases r with
    | spaces n =>
      have hzero : n = 0 := by simpa [Run.chars] using hr
      exact absurd hproper (by simp [Run.IsProper, hzero])
    | breaks bs => exact absurd hr hproper.1
    | word ws => exact absurd hr hproper.1
  | c :: more' =>
    rw [hr] at htext
    exact ⟨c, _, htext.symm, List.mem_cons_self⟩

/-- **Words alternate with other runs** where no space stands beside a line end. -/
theorem isChain_runs {cs : List Char}
    (hspace : adjacent (· == ' ') isBreak cs = false)
    (hbreak : adjacent isBreak (· == ' ') cs = false) :
    (runs cs).IsChain fun r s => r.isWord ≠ s.isWord := by
  induction cs with
  | nil => exact .nil
  | cons c cs ih =>
    have hfirst : ∀ d rest, cs = d :: rest →
        ¬(c = ' ' ∧ isBreak d = true) ∧ ¬(isBreak c = true ∧ d = ' ') ∧
          adjacent (· == ' ') isBreak cs = false ∧ adjacent isBreak (· == ' ') cs = false := by
      rintro d rest rfl
      simp only [adjacent, Bool.or_eq_false_iff, Bool.and_eq_false_iff, beq_eq_false_iff_ne] at *
      refine ⟨?_, ?_, hspace.2, hbreak.2⟩
      · rintro ⟨rfl, hd⟩
        simp [hd] at hspace
      · rintro ⟨hc, rfl⟩
        simp [hc] at hbreak
    have ih : (runs cs).IsChain fun r s => r.isWord ≠ s.isWord := by
      match cs with
      | [] => exact .nil
      | d :: rest => exact ih (hfirst d rest rfl).2.2.1 (hfirst d rest rfl).2.2.2
    have hnext : ∀ r ∈ (runs cs).head?, ∃ d rest, cs = d :: rest ∧ d ∈ r.chars ∧ r.IsProper := by
      intro r hr
      obtain ⟨d, rest, hcs, hd⟩ := exists_of_head?_runs hr
      exact ⟨d, rest, hcs, hd, isProper_of_mem_runs r (List.mem_of_mem_head? hr)⟩
    rw [runs]
    split
    · next hc =>
      obtain rfl := eq_of_beq hc
      split
      · next n more hmore =>
        rw [hmore, List.isChain_cons] at ih
        exact List.isChain_cons.mpr ih
      · next hother =>
        refine List.isChain_cons.mpr ⟨fun r hr => ?_, ih⟩
        obtain ⟨d, rest, hcs, hd, hproper⟩ := hnext r hr
        cases r with
        | word _ => simp [Run.isWord]
        | spaces n =>
          obtain ⟨more, hmore⟩ := List.head?_eq_some_iff.mp hr
          exact absurd hmore (hother n more)
        | breaks bs => exact absurd ⟨rfl, hproper.2 d hd⟩ (hfirst d rest hcs).1
    · split
      · next hc =>
        split
        · next bs more hmore =>
          rw [hmore, List.isChain_cons] at ih
          exact List.isChain_cons.mpr ih
        · next hother =>
          refine List.isChain_cons.mpr ⟨fun r hr => ?_, ih⟩
          obtain ⟨d, rest, hcs, hd, hproper⟩ := hnext r hr
          cases r with
          | word _ => simp [Run.isWord]
          | spaces n =>
            have hd : d = ' ' := List.eq_of_mem_replicate hd
            exact absurd ⟨hc, hd⟩ (hfirst d rest hcs).2.1
          | breaks bs =>
            obtain ⟨more, hmore⟩ := List.head?_eq_some_iff.mp hr
            exact absurd hmore (hother bs more)
      · split
        · next ws more hmore =>
          rw [hmore, List.isChain_cons] at ih
          exact List.isChain_cons.mpr ih
        · next hother =>
          refine List.isChain_cons.mpr ⟨fun r hr => ?_, ih⟩
          cases r with
          | spaces _ | breaks _ => simp [Run.isWord]
          | word ws =>
            obtain ⟨more, hmore⟩ := List.head?_eq_some_iff.mp hr
            exact absurd hmore (hother ws more)

end Pen

end Regen.Yaml
