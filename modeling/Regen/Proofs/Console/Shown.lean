import Regen.Console.Markup
import Regen.Proofs.Outcome

/-! # Texts that are shown

    A text with markup is shown if its tags fit together and its styles can be shown.  Nothing but
    an opening bracket starts a tag, so a text without one is shown, and so is one that is put
    together from such texts and from styled ones (`shown_of_marked`).  That is how messages are
    put together, as long as what they quote has no bracket. -/

namespace Regen.Markup

/-- **A text is shown**: it is markup, and all of its styles can be shown. -/
def Shown (text : String) : Prop := ∃ r, render text = .ok r ∧ r.fault? = none

/-- The styles that messages use. -/
def usedStyles : List String := ["yellow", "green", "red", "bold", "dim"]

/-- Text that may stand in front of a tag: no bracket, and no backslash at its end. -/
structure Clear (cs : List Char) : Prop where
  noBracket : '[' ∉ cs
  noSlash : cs.getLast? ≠ some '\\'

/-- **Marked text**: styled pieces, with text in front of each and at the end. -/
inductive Marked : List Char → Prop where
  | plain {cs : List Char} (h : '[' ∉ cs) : Marked cs
  | styled {front inner rest : List Char} {style : String} (hfront : Clear front)
      (hstyle : style ∈ usedStyles) (hinner : Clear inner) (hrest : Marked rest) :
      Marked (front ++ '[' :: style.toList ++ ']' :: inner ++ '[' :: '/' :: ']' :: rest)

/-! ## Pieces -/

section pieces
variable {fuel position : Nat} {plain cs front rest tag : List Char}

theorem Clear.tail {c : Char} (h : Clear (c :: cs)) : Clear cs := by
  refine ⟨fun hmem => h.noBracket (List.mem_cons_of_mem _ hmem), fun hlast => h.noSlash ?_⟩
  rw [List.getLast?_cons, hlast]
  rfl

/-- Behind backslashes at its front a clear text goes on. -/
theorem Clear.behind_slashes {c : Char} (h : Clear (c :: cs)) :
    ∃ d more, d ≠ '[' ∧ d ≠ '\\' ∧ (c :: cs).dropWhile (· == '\\') = d :: more ∧
      Clear (d :: more) := by
  induction cs generalizing c with
  | nil =>
    have hc : c ≠ '\\' := fun heq => h.noSlash (by rw [heq]; rfl)
    refine ⟨c, [], fun heq => h.noBracket (heq ▸ List.mem_cons_self), hc, ?_, h⟩
    rw [List.dropWhile_cons, if_neg (by simpa using hc)]
  | cons d cs ih =>
    by_cases hc : c = '\\'
    · obtain ⟨e, more, hbracket, hslash, hdrop, hclear⟩ := ih h.tail
      refine ⟨e, more, hbracket, hslash, ?_, hclear⟩
      rw [List.dropWhile_cons, if_pos (by simpa using hc), hdrop]
    · refine ⟨c, d :: cs, fun heq => h.noBracket (heq ▸ List.mem_cons_self), hc, ?_, h⟩
      rw [List.dropWhile_cons, if_neg (by simpa using hc)]

/-- Where no bracket follows, backslashes are plain, or else the character is. -/
theorem piecesFrom_plain {c : Char}
    (hno : ∀ inner, (c :: cs).dropWhile (· == '\\') ≠ '[' :: inner) :
    piecesFrom (fuel + 1) position plain (c :: cs) =
      if ((c :: cs).takeWhile (· == '\\')).length = 0 then
        piecesFrom fuel (position + 1) (c :: plain) cs
      else
        piecesFrom fuel (position + ((c :: cs).takeWhile (· == '\\')).length)
          ((c :: cs).takeWhile (· == '\\') ++ plain) ((c :: cs).dropWhile (· == '\\')) := by
  rw [piecesFrom]
  dsimp only
  split
  · next heq => exact absurd heq (hno _)
  · rfl

/-- Where a character is neither a bracket nor a backslash it is plain. -/
theorem piecesFrom_char {c : Char} (hbracket : c ≠ '[') (hslash : c ≠ '\\') :
    piecesFrom (fuel + 1) position plain (c :: cs) =
      piecesFrom fuel (position + 1) (c :: plain) cs := by
  have hdrop : (c :: cs).dropWhile (· == '\\') = c :: cs := by
    rw [List.dropWhile_cons, if_neg (by simpa using hslash)]
  have htake : (c :: cs).takeWhile (· == '\\') = [] := by
    rw [List.takeWhile_cons, if_neg (by simpa using hslash)]
  rw [piecesFrom_plain fun inner heq => hbracket (List.cons.inj (hdrop.symm.trans heq)).1, htake]
  rfl

/-- Backslashes that no bracket follows are plain. -/
theorem piecesFrom_slashes (fuel position : Nat) (plain : List Char) {d : Char} {more : List Char}
    (hbracket : d ≠ '[') (hdrop : ('\\' :: cs).dropWhile (· == '\\') = d :: more) :
    ∃ count plain', plain'.reverse ++ d :: more = plain.reverse ++ '\\' :: cs ∧
      piecesFrom (fuel + 1) position plain ('\\' :: cs) =
        piecesFrom fuel (position + count) plain' (d :: more) := by
  have hcount : (('\\' :: cs).takeWhile (· == '\\')).length ≠ 0 := by
    rw [List.takeWhile_cons, if_pos (beq_self_eq_true _)]
    exact Nat.succ_ne_zero _
  have hslashes : (('\\' :: cs).takeWhile (· == '\\')).reverse =
      ('\\' :: cs).takeWhile (· == '\\') := by
    have hsame : ∀ c ∈ ('\\' :: cs).takeWhile (· == '\\'), c = '\\' := fun c hc =>
      eq_of_beq (List.all_eq_true.mp List.all_takeWhile c hc)
    rw [List.eq_replicate_of_mem hsame, List.reverse_replicate]
  have hall := List.takeWhile_append_dropWhile (p := (· == '\\')) (l := '\\' :: cs)
  rw [hdrop] at hall
  rw [piecesFrom_plain fun inner heq => hbracket (List.cons.inj (hdrop.symm.trans heq)).1,
    if_neg hcount, hdrop]
  refine ⟨_, _, ?_, rfl⟩
  rw [List.reverse_append, hslashes, List.append_assoc, hall]

/-- **Clear text** is taken in, with no more steps than it has characters. -/
theorem piecesFrom_front (position : Nat) (plain rest : List Char) (hfront : Clear front)
    (hfuel : front.length ≤ fuel) :
    ∃ fuel' position' plain', fuel ≤ fuel' + front.length ∧
      plain'.reverse = plain.reverse ++ front ∧
      piecesFrom fuel position plain (front ++ rest) =
        piecesFrom fuel' position' plain' rest := by
  -- The induction is on the length, since backslashes are taken in together.
  induction hlength : front.length using Nat.strongRecOn
    generalizing front fuel position plain with
  | ind n ih =>
    subst hlength
    cases front with
    | nil => exact ⟨fuel, position, plain, Nat.le_refl _, (List.append_nil _).symm, rfl⟩
    | cons c cs =>
      obtain ⟨fuel, rfl⟩ : ∃ k, fuel = k + 1 := ⟨fuel - 1, by
        rw [List.length_cons] at hfuel
        omega⟩
      rw [List.length_cons] at hfuel
      have hc : c ≠ '[' := fun heq => hfront.noBracket (heq ▸ List.mem_cons_self)
      by_cases hslash : c = '\\'
      · subst hslash
        obtain ⟨d, more, hd, -, hdrop, hclear⟩ := hfront.behind_slashes
        have hall : ('\\' :: (cs ++ rest)).dropWhile (· == '\\') = d :: (more ++ rest) := by
          rw [← List.cons_append, List.dropWhile_append, hdrop]
          rfl
        have hshorter : (d :: more).length ≤ cs.length := by
          have hsuffix : (d :: more) <:+ cs := by
            rw [List.dropWhile_cons, if_pos (beq_self_eq_true _)] at hdrop
            exact hdrop ▸ List.dropWhile_suffix _
          exact hsuffix.length_le
        obtain ⟨count, plain', htaken, hstep⟩ :=
          piecesFrom_slashes fuel position plain hd hall
        rw [List.cons_append, hstep, ← List.cons_append]
        have hroom : (d :: more).length ≤ fuel := by omega
        obtain ⟨fuel', position', plain'', hmore, hplain, hgoes⟩ :=
          ih _ (Nat.lt_succ_of_le hshorter) _ _ hclear hroom rfl
        refine ⟨fuel', position', plain'', by rw [List.length_cons]; omega, ?_, hgoes⟩
        rw [hplain]
        rw [← List.cons_append, ← List.append_assoc] at htaken
        exact List.append_cancel_right (by simpa using htaken)
      · rw [List.cons_append, piecesFrom_char hc hslash]
        have hroom : cs.length ≤ fuel := by omega
        obtain ⟨fuel', position', plain', hmore, hplain, hgoes⟩ :=
          ih cs.length (Nat.lt_succ_self _) _ _ hfront.tail hroom rfl
        refine ⟨fuel', position', plain', by rw [List.length_cons]; omega, ?_, hgoes⟩
        rw [hplain, List.reverse_cons, List.append_assoc]
        rfl

/-- Text without a bracket has no tags. -/
theorem plain_of_piecesFrom (hcs : '[' ∉ cs) :
    ∀ p ∈ piecesFrom fuel position plain cs, ∃ t, p = .plain t := by
  induction fuel generalizing position plain cs with
  | zero =>
    intro p hp
    exact ⟨_, List.mem_singleton.mp hp⟩
  | succ fuel ih =>
    cases cs with
    | nil =>
      intro p hp
      exact ⟨_, List.mem_singleton.mp hp⟩
    | cons c cs =>
      have hrest : '[' ∉ (c :: cs).dropWhile (· == '\\') :=
        fun hmem => hcs ((List.dropWhile_suffix _).subset hmem)
      rw [piecesFrom_plain fun inner heq => hrest (heq ▸ List.mem_cons_self)]
      split
      · exact ih fun hmem => hcs (List.mem_cons_of_mem _ hmem)
      · exact ih hrest

/-- **A tag** is a piece of its own. -/
theorem piecesFrom_tag (htag : tag.head?.any startsTag) (hno : ∀ c ∈ tag, c ≠ '[' ∧ c ≠ ']') :
    piecesFrom (fuel + 1) position plain ('[' :: (tag ++ ']' :: rest)) =
      .plain plain.reverse :: .plain [] :: .tag tag position ::
        piecesFrom fuel (position + tag.length + 2) [] rest := by
  have htake : takeTag? (tag ++ ']' :: rest) = some (tag, rest) := by
    cases tag with
    | nil => cases htag
    | cons c tag =>
      have hinner : ∀ d ∈ tag, d ≠ '[' ∧ d ≠ ']' := fun d hd => hno d (List.mem_cons_of_mem _ hd)
      have hdrop : (tag ++ ']' :: rest).dropWhile (fun c => c != '[' && c != ']') =
          ']' :: rest := by
        rw [List.dropWhile_append_of_pos (by simpa using hinner)]
        rfl
      have hfront : (tag ++ ']' :: rest).takeWhile (· != ']') = tag := by
        rw [List.takeWhile_append_of_pos (by simpa using fun d hd => (hinner d hd).2)]
        simp
      rw [List.cons_append, takeTag?, if_pos (by simpa using htag), hdrop, hfront]
      rfl
  rw [piecesFrom]
  dsimp only
  have hslashes : ('[' :: (tag ++ ']' :: rest)).takeWhile (· == '\\') = [] := rfl
  have hdrop : ('[' :: (tag ++ ']' :: rest)).dropWhile (· == '\\') =
      '[' :: (tag ++ ']' :: rest) := rfl
  rw [hslashes, hdrop]
  simp only [htake]
  rfl

end pieces

/-! ## Rendering -/

/-- No tag is open, and all styles so far can be shown. -/
structure Rendering.Fine (r : Rendering) : Prop where
  opened : r.opened = []
  ranges : ∀ range ∈ r.ranges, Console.Style.fault? range.style = none

/-- What is known of a style that messages use. -/
structure IsUsed (style : String) : Prop where
  named : Console.Style.nameOf style.toList = .ok style
  shown : Console.Style.fault? style.toList = none
  noAction : style.startsWith "@" = false
  starts : style.toList.head?.any startsTag
  letters : ∀ c ∈ style.toList, c ≠ '[' ∧ c ≠ ']' ∧ c ≠ '=' ∧ c ≠ '/'

theorem isUsed_of_mem {style : String} (h : style ∈ usedStyles) : IsUsed style := by
  have hnamed : ∀ style ∈ usedStyles,
      (Console.Style.nameOf style.toList).toOption.any (· == style) := by decide +kernel
  have hshown : ∀ style ∈ usedStyles, Console.Style.fault? style.toList = none := by
    decide +kernel
  have hnoAction : ∀ style ∈ usedStyles, style.startsWith "@" = false := by decide +kernel
  have hstarts : ∀ style ∈ usedStyles, style.toList.head?.any startsTag := by decide
  have hletters : ∀ style ∈ usedStyles, style.toList.all fun c =>
      c != '[' && c != ']' && c != '=' && c != '/' := by decide
  obtain ⟨name, hname, hsame⟩ := exists_ok_of_any (hnamed style h)
  exact ⟨eq_of_beq hsame ▸ hname, hshown style h, hnoAction style h, hstarts style h,
    fun c hc => by simpa [and_assoc] using List.all_eq_true.mp (hletters style h) c hc⟩

section rendering
variable {r : Rendering} {style : String} {position : Nat} {cs : List Char}

/-- Plain pieces are added to the text. -/
theorem foldlM_plain {ps : List Piece} (hplain : ∀ p ∈ ps, ∃ t, p = .plain t) :
    ∃ r', ps.foldlM Rendering.add r = .ok r' ∧ r'.opened = r.opened ∧ r'.ranges = r.ranges := by
  induction ps generalizing r with
  | nil => exact ⟨r, rfl, rfl, rfl⟩
  | cons p ps ih =>
    obtain ⟨t, rfl⟩ := hplain p List.mem_cons_self
    obtain ⟨r', hr', hopened, hranges⟩ :=
      @ih (r.put (printable t)) fun p hp => hplain p (List.mem_cons_of_mem _ hp)
    exact ⟨r', hr', hopened, hranges⟩

/-- A style's tag opens it. -/
theorem add_style (hstyle : IsUsed style) : r.add (.tag style.toList position) =
    .ok { r with opened := ⟨style, none, r.length⟩ :: r.opened } := by
  have hname : style.toList.takeWhile (· != '=') = style.toList := by
    have hall : ∀ c ∈ style.toList, (c != '=') = true := fun c hc => by
      simpa using (hstyle.letters c hc).2.2.1
    simpa using @List.takeWhile_append_of_pos _ _ style.toList [] hall
  have hcontains : style.toList.contains '=' = false := by
    rw [Bool.eq_false_iff]
    intro hmem
    exact (hstyle.letters '=' (List.contains_iff_mem.mp hmem)).2.2.1 rfl
  rw [Rendering.add, hname, hcontains]
  split
  · next name heq =>
    have hslash : '/' ∈ style.toList := heq ▸ List.mem_cons_self
    exact absurd rfl (hstyle.letters '/' hslash).2.2.2
  · rw [Rendering.openTag, hstyle.named]
    rfl

/-- A closing tag without a name closes the style that was opened last. -/
theorem add_close (hstyle : IsUsed style) {start : Nat} {opened : List OpenTag}
    (hopened : r.opened = ⟨style, none, start⟩ :: opened) : r.add (.tag ['/'] position) =
      .ok { r with opened, ranges := ⟨start, r.length, style.toList⟩ :: r.ranges } := by
  have hlatest : r.latest? none = some ⟨style, none, start⟩ := by
    rw [Rendering.latest?, hopened]
    rfl
  have hrest : (r.opened.eraseP fun t => (none : Option String).all (· == t.name)) = opened := by
    rw [hopened]
    rfl
  show r.closeTag ['/'] [] position = _
  have hname : Text.trimBoth Text.isBlank [] = [] := rfl
  simp only [Rendering.closeTag, hname, List.isEmpty_nil, if_true, pure_bind, hlatest]
  rw [hrest, if_neg (by simp [OpenTag.isAction, hstyle.noAction])]
  rfl

/-- A clear text and the tag behind it are added to a text. -/
theorem foldlM_tagged (r : Rendering) (fuel position : Nat) (plain tag rest : List Char)
    {front : List Char} (hfront : Clear front) (htag : tag.head?.any startsTag)
    (hno : ∀ c ∈ tag, c ≠ '[' ∧ c ≠ ']') (hfuel : front.length < fuel) :
    ∃ (fuel' position' place : Nat) (r' : Rendering), fuel ≤ fuel' + front.length + 1 ∧
      r'.opened = r.opened ∧ r'.ranges = r.ranges ∧
      (piecesFrom fuel position plain (front ++ '[' :: (tag ++ ']' :: rest))).foldlM
          Rendering.add r =
        r'.add (.tag tag place) >>= (piecesFrom fuel' position' [] rest).foldlM Rendering.add := by
  obtain ⟨fuel₁, place, plain', hmore, -, hgoes⟩ :=
    piecesFrom_front position plain ('[' :: (tag ++ ']' :: rest)) hfront (Nat.le_of_lt hfuel)
  obtain ⟨fuel', rfl⟩ : ∃ k, fuel₁ = k + 1 := ⟨fuel₁ - 1, by omega⟩
  rw [hgoes, piecesFrom_tag htag hno]
  exact ⟨fuel', _, place, (r.put (printable plain'.reverse)).put (printable []), by omega, rfl,
    rfl, rfl⟩

/-- **Marked text fits together.** -/
theorem Marked.rendered (h : Marked cs) {fuel : Nat} (position : Nat) (plain : List Char)
    (hfuel : cs.length ≤ fuel) (hr : r.Fine) :
    ∃ r', (piecesFrom fuel position plain cs).foldlM Rendering.add r = .ok r' ∧ r'.Fine := by
  induction h generalizing fuel position plain r with
  | plain h =>
    obtain ⟨r', hr', hopened, hranges⟩ := foldlM_plain (plain_of_piecesFrom h)
    exact ⟨r', hr', ⟨hopened.trans hr.opened, hranges ▸ hr.ranges⟩⟩
  | @styled front inner rest style hfront hstyle hinner _ ih =>
    have hused := isUsed_of_mem hstyle
    have hsame : front ++ '[' :: style.toList ++ ']' :: inner ++ '[' :: '/' :: ']' :: rest =
        front ++ '[' :: (style.toList ++ ']' :: (inner ++ '[' :: (['/'] ++ ']' :: rest))) := by
      simp
    rw [hsame] at hfuel ⊢
    simp only [List.length_append, List.length_cons] at hfuel
    -- The style's tag is opened, and the next one closes it.
    obtain ⟨fuel₁, position₁, place₁, r₁, hmore₁, hopened₁, hranges₁, hopen⟩ :=
      foldlM_tagged r fuel position plain style.toList
        (inner ++ '[' :: (['/'] ++ ']' :: rest)) hfront hused.starts
        (fun c hc => ⟨(hused.letters c hc).1, (hused.letters c hc).2.1⟩) (by omega)
    obtain ⟨fuel₂, position₂, place₂, r₂, hmore₂, hopened₂, hranges₂, hclose⟩ :=
      foldlM_tagged { r₁ with opened := ⟨style, none, r₁.length⟩ :: r₁.opened } fuel₁ position₁ []
        ['/'] rest hinner (by decide) (by simp) (by omega)
    have hfine : { r₂ with
        opened := r₁.opened
        ranges := ⟨r₁.length, r₂.length, style.toList⟩ :: r₂.ranges : Rendering }.Fine := by
      refine ⟨hopened₁.trans hr.opened, fun range hrange => ?_⟩
      rcases List.mem_cons.mp hrange with rfl | hrange
      · exact hused.shown
      · exact hr.ranges range (hranges₁ ▸ hranges₂ ▸ hrange)
    have hroom : rest.length ≤ fuel₂ := by omega
    obtain ⟨r', hr', hdone⟩ := ih position₂ [] hroom hfine
    refine ⟨r', ?_, hdone⟩
    rw [hopen, add_style hused]
    refine hclose.trans ?_
    rw [add_close hused hopened₂]
    exact hr'

/-- **Marked text is shown.** -/
theorem shown_of_marked {text : String} (h : Marked text.toList) : Shown text := by
  have hstart : Rendering.start.Fine := ⟨rfl, fun _ hrange => absurd hrange List.not_mem_nil⟩
  obtain ⟨r, hr, hfine⟩ := h.rendered 0 [] (Nat.le_succ _) hstart
  refine ⟨r.finish, bind_eq_ok.mpr ⟨r, hr, rfl⟩, ?_⟩
  refine List.findSome?_eq_none_iff.mpr fun range hrange => ?_
  have hmem := (mem_sortBy).mp (List.mem_filter.mp hrange).1
  rw [hfine.opened] at hmem
  exact hfine.ranges range hmem

end rendering

/-! ## Texts without a bracket -/

instance (text : String) : Decidable (Shown text) :=
  decidable_of_iff ((render text).toOption.any fun r => r.fault?.isNone) (by
    unfold Shown
    cases render text with
    | ok r => simp [Except.toOption]
    | error f => simp [Except.toOption])

/-- Text without an opening bracket. -/
def Bare (text : String) : Prop := '[' ∉ text.toList

instance (text : String) : Decidable (Bare text) :=
  inferInstanceAs (Decidable ('[' ∉ text.toList))

theorem bare_append {s t : String} : Bare (s ++ t) ↔ Bare s ∧ Bare t := by
  rw [Bare, String.toList_append, List.mem_append, not_or]
  rfl

theorem bare_intercalate {sep : String} {texts : List String} (hsep : Bare sep)
    (htexts : ∀ t ∈ texts, Bare t) : Bare (String.intercalate sep texts) := by
  induction texts with
  | nil =>
    rw [String.intercalate_nil]
    decide
  | cons t rest ih =>
    have hrest := ih fun u hu => htexts u (List.mem_cons_of_mem _ hu)
    have ht := htexts t List.mem_cons_self
    by_cases hnil : rest = []
    · rw [hnil, String.intercalate_singleton]
      exact ht
    · rw [String.intercalate_cons_of_ne_nil hnil]
      exact bare_append.mpr ⟨bare_append.mpr ⟨ht, hsep⟩, hrest⟩

/-- A number is written in digits. -/
theorem isDigit_of_mem_nat {n : Nat} {c : Char} (h : c ∈ (toString n).toList) : c.isDigit := by
  have hlist : (toString n).toList = Nat.toDigits 10 n := Nat.toList_repr
  rw [hlist] at h
  exact Nat.isDigit_of_mem_toDigits (by decide) (by decide) h

theorem bare_nat (n : Nat) : Bare (toString n) := by
  intro hmem
  exact absurd (isDigit_of_mem_nat hmem) (by decide)

theorem clear_nat (n : Nat) : Clear (toString n).toList := by
  refine ⟨bare_nat n, fun hlast => ?_⟩
  exact absurd (isDigit_of_mem_nat (List.mem_of_getLast? hlast)) (by decide)

theorem bare_int (n : Int) : Bare (toString n) := by
  cases n with
  | ofNat m => exact bare_nat m
  | negSucc m => exact bare_append.mpr ⟨(by decide : Bare "-"), bare_nat (m + 1)⟩

theorem shown_of_bare {text : String} (h : Bare text) : Shown text := shown_of_marked (.plain h)

instance (cs : List Char) : Decidable (Clear cs) :=
  decidable_of_iff ('[' ∉ cs ∧ cs.getLast? ≠ some '\\')
    ⟨fun h => ⟨h.1, h.2⟩, fun h => ⟨h.noBracket, h.noSlash⟩⟩

/-- A styled piece in front of marked text. -/
theorem Marked.behind_styled {front style inner rest : String} (hrest : Marked rest.toList)
    (hfront : Clear front.toList) (hstyle : style ∈ usedStyles) (hinner : Clear inner.toList) :
    Marked (front ++ "[" ++ style ++ "]" ++ inner ++ "[/]" ++ rest).toList := by
  have hmarked := Marked.styled hfront hstyle hinner hrest
  simpa [String.toList_append] using hmarked

/-- A styled piece between texts is marked. -/
theorem marked_styled {text : String} (front style inner rest : String)
    (hsplit : text = front ++ "[" ++ style ++ "]" ++ inner ++ "[/]" ++ rest ∧
      Clear front.toList ∧ style ∈ usedStyles ∧ Clear inner.toList ∧ Bare rest) :
    Marked text.toList := by
  obtain ⟨rfl, hfront, hstyle, hinner, hrest⟩ := hsplit
  exact Marked.behind_styled (.plain hrest) hfront hstyle hinner

/-- **Text without a bracket may stand behind marked text.** -/
theorem Marked.append {mark rest : String} (hmark : Marked mark.toList) (hrest : Bare rest) :
    Marked (mark ++ rest).toList := by
  rw [String.toList_append]
  unfold Bare at hrest
  generalize mark.toList = cs at hmark ⊢
  induction hmark with
  | plain h => exact .plain (by simp [h, hrest])
  | styled hfront hstyle hinner _ ih => simpa using Marked.styled hfront hstyle hinner ih

/-- One line of marked text behind the other. -/
theorem Marked.append_line {cs more : List Char} (h : Marked cs) (hmore : Marked more) :
    Marked (cs ++ '\n' :: more) := by
  induction h with
  | @plain cs hplain =>
    cases hmore with
    | plain hmore => exact .plain (by simp [hplain, hmore])
    | @styled front inner rest style hfront hstyle hinner hrest =>
      have hclear : Clear (cs ++ '\n' :: front) := by
        refine ⟨by simp [hplain, hfront.noBracket], ?_⟩
        rw [List.getLast?_append_cons, List.getLast?_cons]
        cases hlast : front.getLast? with
        | none => decide
        | some c => exact hlast ▸ hfront.noSlash
      simpa using Marked.styled hclear hstyle hinner hrest
  | styled hfront hstyle hinner _ ih => simpa using Marked.styled hfront hstyle hinner ih

/-- **Lines of marked text are marked text.** -/
theorem marked_lines {lines : List String} (h : ∀ line ∈ lines, Marked line.toList) :
    Marked (String.intercalate "\n" lines).toList := by
  induction lines with
  | nil => exact .plain (by decide)
  | cons line rest ih =>
    have hline := h line List.mem_cons_self
    have hrest := ih fun l hl => h l (List.mem_cons_of_mem _ hl)
    by_cases hnil : rest = []
    · rwa [hnil, String.intercalate_singleton]
    · rw [String.intercalate_cons_of_ne_nil hnil, String.append_assoc, String.toList_append,
        String.toList_append]
      exact hline.append_line hrest

end Regen.Markup
