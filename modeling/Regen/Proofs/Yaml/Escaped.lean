import Mathlib.Algebra.Group.Nat.Defs
import Regen.Proofs.Yaml.Quoted

/-! # Double-quoted scalars both ways

    Between double quotes every character can stand, most of them as an escape.  A long line is
    ended with a backslash, and a backslash protects a space at the start of the next one.  A space
    that is not yet written can get this protection twice, so that the reader finds a backslash
    instead: behind an escape, where the indentation alone goes beyond the width. -/

namespace Regen

namespace Text

/-- The code point that a character stands for gives the character back. -/
theorem ofCode_codeOf (c : Char) : ofCode (codeOf c) = c := by
  by_cases hstand : isStandIn c = true
  · have hcode : codeOf c = c.toNat - 0x10F000 + 0xD800 := by
      rw [codeOf, if_pos hstand]
      rfl
    rw [isStandIn, Bool.and_eq_true, decide_eq_true_iff, decide_eq_true_iff] at hstand
    obtain ⟨hlow, hhigh⟩ : 0x10F000 ≤ c.toNat ∧ c.toNat < 0x10F800 := hstand
    have hhalf : isHalf (codeOf c) = true := by
      rw [isHalf, Bool.and_eq_true, decide_eq_true_iff, decide_eq_true_iff, firstHalf, halfCount]
      omega
    have hback : codeOf c - firstHalf + firstStandIn = c.toNat := by
      rw [firstHalf, firstStandIn]
      omega
    rw [ofCode, if_pos hhalf, hback, Char.ofNat_toNat]
  · have hcode : codeOf c = c.toNat := by rw [codeOf, if_neg hstand]
    have hvalid : c.toNat < 0xD800 ∨ 0xDFFF < c.toNat ∧ c.toNat < 0x110000 := c.valid
    have hhalf : ¬isHalf (codeOf c) = true := by
      rw [isHalf, Bool.and_eq_true, decide_eq_true_iff, decide_eq_true_iff, firstHalf, halfCount]
      omega
    rw [ofCode, if_neg hhalf, hcode, Char.ofNat_toNat]

theorem codeOf_lt (c : Char) : codeOf c < 0x110000 := by
  have hvalid : c.toNat < 0xD800 ∨ 0xDFFF < c.toNat ∧ c.toNat < 0x110000 := c.valid
  unfold codeOf
  split
  · next hstand =>
    rw [isStandIn, Bool.and_eq_true, decide_eq_true_iff, decide_eq_true_iff] at hstand
    obtain ⟨hlow, hhigh⟩ : 0x10F000 ≤ c.toNat ∧ c.toNat < 0x10F800 := hstand
    have hshift : c.toNat - firstStandIn + firstHalf = c.toNat - 0x10F000 + 0xD800 := rfl
    omega
  · omega

end Text

namespace Yaml

/-! ## Escapes -/

/-- The digits behind a numeric escape, added to those in front. -/
def hexFold (front : Option Nat) (ds : List Char) : Option Nat :=
  ds.foldl (fun acc c => acc.bind fun a => (hexValue? c).map (a * 16 + ·)) front

theorem hexValue?_digit {d : Nat} (h : d < 16) : hexValue? (Nat.digitChar d).toUpper = some d := by
  have hall : ∀ d < 16, hexValue? (Nat.digitChar d).toUpper = some d := by decide
  exact hall d h

theorem hexFold_toDigits (n : Nat) :
    hexFold (some 0) ((Nat.toDigits 16 n).map Char.toUpper) = some n := by
  induction n using Nat.strongRecOn with
  | ind n ih =>
    by_cases hless : n < 16
    · rw [Nat.toDigits_of_lt_base hless]
      simp [hexFold, hexValue?_digit hless]
    · have hmod : n % 16 < 16 := Nat.mod_lt n (by decide)
      rw [Nat.toDigits_of_base_le (by decide) (by omega), List.map_append, hexFold,
        List.foldl_append]
      have hfront := ih (n / 16) (by omega)
      rw [hexFold] at hfront
      rw [hfront]
      simp only [List.map_cons, List.map_nil, List.foldl_cons, List.foldl_nil, Option.bind_some,
        hexValue?_digit hmod, Option.map_some]
      congr 1
      omega

theorem hexFold_zeros (k : Nat) (ds : List Char) :
    hexFold (some 0) (List.replicate k '0' ++ ds) = hexFold (some 0) ds := by
  induction k with
  | zero => rfl
  | succ k ih => exact ih

theorem length_hex {width n : Nat} (hwidth : 0 < width) (h : n < 16 ^ width) :
    (Text.hex width n).length = width := by
  have hlength := (Nat.length_toDigits_le_iff (by decide : 1 < 16) hwidth).mpr h
  rw [Text.hex, List.length_append, List.length_replicate]
  omega

/-- Hexadecimal digits are read as the number that they spell. -/
theorem hexNumber?_hex {width n : Nat} (hwidth : 0 < width) (h : n < 16 ^ width)
    (rest : List Char) :
    hexNumber? width ((Text.hex width n).map Char.toUpper ++ rest) = some n := by
  have hlength : ((Text.hex width n).map Char.toUpper).length = width := by
    rw [List.length_map, length_hex hwidth h]
  have hnumber : hexFold (some 0) ((Text.hex width n).map Char.toUpper) = some n := by
    rw [Text.hex, List.map_append, List.map_replicate]
    exact (hexFold_zeros _ _).trans (hexFold_toDigits n)
  rw [hexNumber?, List.take_left' hlength, if_neg (by omega)]
  exact hnumber

/-- A letter that stands for a character is read as it. -/
theorem escaped?_escapeLetter? {c e : Char} (h : Pen.escapeLetter? c = some e) :
    escaped? e = some c := by
  unfold Pen.escapeLetter? at h
  split at h <;> first | (obtain rfl := Option.some.inj h; rfl) | cases h

/-- A numeric escape is read as the character that it spells. -/
theorem escape_numeric {c : Cursor} {ch letter : Char} {width : Nat} {rest : List Char}
    (hletter : escaped? letter = none ∧ escapeDigits? letter = some width) (hwidth : 0 < width)
    (hcode : Text.codeOf ch < 16 ^ width)
    (h : c.rest = letter :: ((Text.hex width (Text.codeOf ch)).map Char.toUpper ++ rest)) :
    escape c = .ok ([ch], c.skip (width + 1)) := by
  have hnumber := hexNumber?_hex hwidth hcode rest
  have hcharacter : numericCharacter (Text.codeOf ch) = .ok ch := by
    have hless := Text.codeOf_lt ch
    rw [numericCharacter, if_pos (by omega), Text.ofCode_codeOf]
  rw [escape]
  split
  · next hnil =>
    rw [h] at hnil
    cases hnil
  · next x more hx =>
    obtain ⟨rfl, rfl⟩ := List.cons.inj (h.symm.trans hx)
    simp only [hletter.1, hletter.2, hnumber, hcharacter]
    rfl

theorem length_upper_hex {width n : Nat} (hwidth : 0 < width) (h : n < 16 ^ width) :
    ((Text.hex width n).map Char.toUpper).length = width := by
  rw [List.length_map, length_hex hwidth h]

/-- **An escape is read as the character that it was written for.** -/
theorem escape_escaped {c : Cursor} {ch : Char} {rest : List Char}
    (h : c.rest = Pen.escaped ch ++ rest) :
    escape c.next = .ok ([ch], c.skip (Pen.escaped ch).length) := by
  unfold Pen.escaped at h ⊢
  match hletter : Pen.escapeLetter? ch with
  | some e =>
    rw [hletter] at h
    have hnext := Cursor.rest_next_of (h : c.rest = '\\' :: e :: rest)
    rw [escape]
    split
    · next hnil =>
      rw [hnext] at hnil
      cases hnil
    · next x more hx =>
      obtain ⟨rfl, rfl⟩ := List.cons.inj (hnext.symm.trans hx)
      rw [escaped?_escapeLetter? hletter]
      rfl
  | none =>
    rw [hletter] at h
    have hless := Text.codeOf_lt ch
    dsimp only at h ⊢
    split
    · next hbyte =>
      rw [if_pos hbyte] at h
      have hcode : Text.codeOf ch < 16 ^ 2 := by omega
      rw [escape_numeric ⟨rfl, rfl⟩ Nat.two_pos hcode (Cursor.rest_next_of h), List.length_cons,
        List.length_cons, length_upper_hex Nat.two_pos hcode]
      rfl
    · next hbyte =>
      rw [if_neg hbyte] at h
      split
      · next hword =>
        rw [if_pos hword] at h
        have hcode : Text.codeOf ch < 16 ^ 4 := by omega
        rw [escape_numeric ⟨rfl, rfl⟩ (by decide) hcode (Cursor.rest_next_of h), List.length_cons,
          List.length_cons, length_upper_hex (by decide) hcode]
        rfl
      · next hword =>
        rw [if_neg hword] at h
        have hcode : Text.codeOf ch < 16 ^ 8 := by omega
        rw [escape_numeric ⟨rfl, rfl⟩ (by decide) hcode (Cursor.rest_next_of h), List.length_cons,
          List.length_cons, length_upper_hex (by decide) hcode]
        rfl

theorem exists_of_escaped (ch : Char) :
    ∃ e more, Pen.escaped ch = '\\' :: e :: more := by
  unfold Pen.escaped
  split
  · exact ⟨_, [], rfl⟩
  · dsimp only
    split
    · exact ⟨_, _, rfl⟩
    · split
      · exact ⟨_, _, rfl⟩
      · exact ⟨_, _, rfl⟩

theorem mem_toDigits_sixteen {n : Nat} {c : Char} (h : c ∈ Nat.toDigits 16 n) :
    ∃ d < 16, c = Nat.digitChar d := by
  induction n using Nat.strongRecOn with
  | ind n ih =>
    by_cases hless : n < 16
    · rw [Nat.toDigits_of_lt_base hless] at h
      exact ⟨n, hless, by simpa using h⟩
    · rw [Nat.toDigits_of_base_le (by decide) (by omega)] at h
      rcases List.mem_append.mp h with h | h
      · exact ih _ (by omega) h
      · exact ⟨n % 16, Nat.mod_lt n (by decide), by simpa using h⟩

/-- An escape takes one line and may stand in a document. -/
theorem escaped_chars (ch : Char) :
    ∀ x ∈ Pen.escaped ch, isBreak x = false ∧ isClean x = true := by
  have hdigits : ∀ d < 16, isBreak (Nat.digitChar d).toUpper = false ∧
      isClean (Nat.digitChar d).toUpper = true := by decide
  have hhex : ∀ width, ∀ x ∈ (Text.hex width (Text.codeOf ch)).map Char.toUpper,
      isBreak x = false ∧ isClean x = true := by
    intro width x hx
    obtain ⟨y, hy, rfl⟩ := List.mem_map.mp hx
    rcases List.mem_append.mp hy with hy | hy
    · rw [List.eq_of_mem_replicate hy]
      exact ⟨rfl, by decide⟩
    · obtain ⟨d, hd, rfl⟩ := mem_toDigits_sixteen hy
      exact hdigits d hd
  unfold Pen.escaped
  split
  · next e he =>
    have hletter : isBreak e = false ∧ isClean e = true := by
      unfold Pen.escapeLetter? at he
      split at he <;> first | (obtain rfl := Option.some.inj he; decide) | cases he
    intro x hx
    rcases List.mem_cons.mp hx with rfl | hx
    · decide
    · exact List.mem_singleton.mp hx ▸ hletter
  · have hmark : isBreak '\\' = false ∧ isClean '\\' = true := by decide
    dsimp only
    split
    · exact List.forall_mem_cons.mpr ⟨hmark, List.forall_mem_cons.mpr ⟨by decide, hhex 2⟩⟩
    · split
      · exact List.forall_mem_cons.mpr ⟨hmark, List.forall_mem_cons.mpr ⟨by decide, hhex 4⟩⟩
      · exact List.forall_mem_cons.mpr ⟨hmark, List.forall_mem_cons.mpr ⟨by decide, hhex 8⟩⟩

/-! ## Reading between double quotes -/

theorem isPlainInDouble_iff {c : Char} (h : Pen.isPlainInDouble c = true) :
    c ≠ '"' ∧ c ≠ '\\' ∧ c ≠ '\t' ∧ isBreak c = false ∧ isClean c = true := by
  simp only [Pen.isPlainInDouble, Bool.and_eq_true, Bool.or_eq_true, decide_eq_true_eq,
    bne_iff_ne] at h
  obtain ⟨⟨⟨⟨⟨⟨hquote, hbackslash⟩, hnext⟩, hline⟩, hparagraph⟩, hmark⟩, hrange⟩ := h
  have hout : ∀ d : Char, d.toNat < 0x20 → c ≠ d := by
    intro d hd
    rintro rfl
    omega
  have hfeed := hout '\n' (by decide)
  have hreturn := hout '\r' (by decide)
  refine ⟨hquote, hbackslash, hout '\t' (by decide), ?_, ?_⟩
  · simp [isBreak, hfeed, hnext, hline, hparagraph]
  · have hallowed : isAllowed c = true := by
      simp only [isAllowed, Bool.or_eq_true, Bool.and_eq_true, decide_eq_true_eq, beq_iff_eq]
      omega
    simp [isClean, hallowed, hreturn, hmark]

section reading
variable {c e : Cursor} {rest cs : List Char}

/-- A text of characters that stand for themselves goes on with spaces and then with something
    else. -/
theorem exists_goesOn {u : List Char} (hu : ∀ x ∈ u, Pen.isPlainInDouble x = true)
    (hrest : GoesOn rest) :
    ∃ n more, u ++ rest = List.replicate n ' ' ++ more ∧ GoesOn more := by
  induction u with
  | nil => exact ⟨0, rest, rfl, hrest⟩
  | cons x u ih =>
    by_cases hspace : x = ' '
    · obtain ⟨n, more, htext, hmore⟩ := ih fun y hy => hu y (List.mem_cons_of_mem _ hy)
      refine ⟨n + 1, more, ?_, hmore⟩
      rw [List.cons_append, htext, hspace]
      rfl
    · obtain ⟨-, -, htab, hbreak, -⟩ := isPlainInDouble_iff (hu x List.mem_cons_self)
      exact ⟨0, x :: (u ++ rest), rfl, x, u ++ rest, rfl, by simp [isSpaceOrTab, hspace, htab], hbreak⟩

/-- A space is read with all spaces behind it. -/
theorem ReadsQuoted.space {n : Nat} {more : List Char} (h : c.rest = ' ' :: rest)
    (hrest : rest = List.replicate n ' ' ++ more) (hmore : GoesOn more)
    (hreads : ReadsQuoted true c.next cs e) : ReadsQuoted true c (' ' :: cs) e := by
  subst hrest
  have hfront : quotedFront true c ' ' = .ok (' ' :: List.replicate n ' ', c.skip (n + 1)) := by
    have h' : c.rest = List.replicate (n + 1) ' ' ++ more := h
    exact quotedBlanks_spaces h' hmore
  match n with
  | 0 =>
    exact .front h rfl hfront (by rw [remaining_next h]; exact Nat.lt_succ_self _) hreads
  | n + 1 =>
    have hnext : c.next.rest = ' ' :: (List.replicate n ' ' ++ more) := Cursor.rest_next_of h
    have hfront' : quotedFront true c.next ' ' =
        .ok (List.replicate (n + 1) ' ', c.skip (n + 1 + 1)) := by
      have hnext' : c.next.rest = List.replicate (n + 1) ' ' ++ more := hnext
      exact quotedBlanks_spaces hnext' hmore
    exact .longer h rfl rfl hfront hfront' hreads

/-- Characters that stand for themselves are read as themselves. -/
theorem readsQuoted_asIs {u : List Char} (hu : ∀ x ∈ u, Pen.isPlainInDouble x = true)
    (h : c.rest = u ++ rest) (hrest : GoesOn rest)
    (hreads : ReadsQuoted true (c.skip u.length) cs e) : ReadsQuoted true c (u ++ cs) e := by
  induction u generalizing c with
  | nil => exact hreads
  | cons x u ih =>
    have hu' : ∀ y ∈ u, Pen.isPlainInDouble y = true :=
      fun y hy => hu y (List.mem_cons_of_mem _ hy)
    obtain ⟨hquote, hbackslash, htab, hbreak, -⟩ := isPlainInDouble_iff (hu x List.mem_cons_self)
    have hnext := Cursor.rest_next_of (h : c.rest = x :: (u ++ rest))
    have hmore : ReadsQuoted true c.next (u ++ cs) e := ih hu' hnext hreads
    by_cases hspace : x = ' '
    · subst hspace
      obtain ⟨n, more, htext, hgoes⟩ := exists_goesOn hu' hrest
      exact .space h htext hgoes hmore
    · exact .plain h (by simp [closesQuote, hquote]) (by simp [isSpaceOrTab, hspace, htab]) hbreak
        (fun _ => hbackslash) nofun hmore

/-- An escape is read as its character. -/
theorem readsQuoted_escaped {ch : Char} (h : c.rest = Pen.escaped ch ++ rest)
    (hreads : ReadsQuoted true (c.skip (Pen.escaped ch).length) cs e) :
    ReadsQuoted true c (ch :: cs) e := by
  obtain ⟨x, more, hescaped⟩ := exists_of_escaped ch
  have hhead : c.rest = '\\' :: (x :: more ++ rest) := by rw [h, hescaped]; rfl
  have hfront : quotedFront true c '\\' = .ok ([ch], c.skip (Pen.escaped ch).length) :=
    escape_escaped h
  refine .front hhead rfl hfront (remaining_skip_lt ?_ ?_) hreads
  · rw [hescaped]
    exact Nat.succ_pos _
  · rw [c.remaining_eq, h, List.length_append]
    exact Nat.le_add_right _ _

/-- A backslash in front of a space is dropped. -/
theorem readsQuoted_protected (h : c.rest = '\\' :: ' ' :: rest)
    (hreads : ReadsQuoted true (c.skip 2) cs e) : ReadsQuoted true c (' ' :: cs) e := by
  have hnext := Cursor.rest_next_of h
  have hfront : quotedFront true c '\\' = .ok ([' '], c.skip 2) := by
    show escape c.next = _
    rw [escape]
    split
    · next hnil =>
      rw [hnext] at hnil
      cases hnil
    · next x more hx =>
      obtain ⟨rfl, rfl⟩ := List.cons.inj (hnext.symm.trans hx)
      rfl
  refine .front h rfl hfront (remaining_skip_lt Nat.two_pos ?_) hreads
  rw [c.remaining_eq, h]
  simp

/-- What ends a line between double quotes and starts the next one. -/
def jointText (indent : Nat) : List Char := '\\' :: '\n' :: List.replicate indent ' '

/-- A line that was ended with a backslash goes on with the next one. -/
theorem readsQuoted_joint {indent : Nat} (hindent : 0 < indent)
    (h : c.rest = jointText indent ++ rest) (hrest : GoesOn rest)
    (hreads : ReadsQuoted true (c.skip (jointText indent).length) cs e) :
    ReadsQuoted true c cs e := by
  have hnext : c.next.rest = '\n' :: (List.replicate indent ' ' ++ rest) :=
    Cursor.rest_next_of h
  have hbehind := Cursor.rest_next_of hnext
  have hlength : (jointText indent).length = indent + 2 := by simp [jointText]
  have hbreaks : quotedBreaks c.next.remaining c.next.next = .ok ([], c.skip (indent + 2)) := by
    have hfuel : ([] : List Char).length < c.next.remaining := by
      rw [remaining_next hnext]
      exact Nat.succ_pos _
    have hread := quotedBreaks_read (show c.next.next.rest = [] ++ _ from hbehind) hindent
      (fun _ h => absurd h List.not_mem_nil) hrest hfuel
    rwa [List.length_nil, Nat.zero_add] at hread
  have hfront : quotedFront true c '\\' = .ok ([], c.skip (indent + 2)) := by
    show escape c.next = _
    rw [escape]
    split
    · next hnil =>
      rw [hnext] at hnil
      cases hnil
    · next x more hx =>
      obtain ⟨rfl, rfl⟩ := List.cons.inj (hnext.symm.trans hx)
      exact hbreaks
  rw [hlength] at hreads
  refine .front (h : c.rest = '\\' :: _) rfl hfront (remaining_skip_lt (by omega) ?_) hreads
  rw [c.remaining_eq, h, List.length_append, hlength]
  omega

end reading

/-! ## Writing between double quotes -/

open Pen in
/-- The end of a line and the start of the next one. -/
theorem wrote_foldDouble {p : Pen} (hpen : p.inIndent = false) (indent : Nat) (next : Option Char) :
    p.Wrote (jointText indent ++ if next == some ' ' then ['\\'] else [])
        (foldDouble p indent next) ∧
      (foldDouble p indent next).inIndent = false ∧ (foldDouble p indent next).column ≤ indent + 1 := by
  have hmark : ∀ x ∈ ['\\'], isBreak x = false ∧ isClean x = true :=
    List.forall_mem_singleton.mpr (by decide)
  have hfirst := wrote_put p (fun x hx => (hmark x hx).1) fun x hx => (hmark x hx).2
  have hgap : (p.put ['\\']).gapTo indent = '\n' :: List.replicate indent ' ' := by
    have hbreak : (p.put ['\\']).mustBreak indent = true := by
      have hin : (p.put ['\\']).inIndent = false := hpen
      rw [mustBreak, hin]
      rfl
    rw [gapTo, if_pos hbreak]
  have hindent := wrote_indentTo (p.put ['\\']) indent
  rw [hgap] at hindent
  have hcolumn := (indentTo_fields (p.put ['\\']) indent).1
  have hjoint : p.Wrote (jointText indent)
      { (p.put ['\\']).indentTo indent with afterBlank := false, inIndent := false } :=
    (hfirst.trans hindent).congr rfl rfl rfl rfl
  unfold foldDouble
  dsimp only
  split
  · refine ⟨hjoint.trans ?_, rfl, ?_⟩
    · exact wrote_put _ (fun x hx => (hmark x hx).1) fun x hx => (hmark x hx).2
    · show ((p.put ['\\']).indentTo indent).column + 1 ≤ indent + 1
      omega
  · refine ⟨by simpa using hjoint, rfl, ?_⟩
    show ((p.put ['\\']).indentTo indent).column ≤ indent + 1
    omega

/-- Nothing, or the backslash that protects a space. -/
def protection (guarded : Bool) : List Char := if guarded then ['\\'] else []

/-- Characters that stand for themselves are read as themselves, behind a protected space too. -/
theorem readsQuoted_flush {guarded : Bool} {u rest cs : List Char} {c e : Cursor}
    (hu : ∀ x ∈ u, Pen.isPlainInDouble x = true)
    (hguarded : guarded = true → u.head? = some ' ')
    (h : c.rest = protection guarded ++ (u ++ rest)) (hrest : GoesOn rest)
    (hreads : ReadsQuoted true (c.skip (protection guarded ++ u).length) cs e) :
    ReadsQuoted true c (u ++ cs) e := by
  cases guarded with
  | false => exact readsQuoted_asIs hu h hrest hreads
  | true =>
    obtain ⟨v, rfl⟩ := List.head?_eq_some_iff.mp (hguarded rfl)
    have hbehind : (c.skip 2).rest = v ++ rest :=
      Cursor.rest_next_of (Cursor.rest_next_of (h : c.rest = '\\' :: ' ' :: (v ++ rest)))
    have hreads' : ReadsQuoted true ((c.skip 2).skip v.length) cs e := hreads
    have hmore := readsQuoted_asIs (fun x hx => hu x (List.mem_cons_of_mem _ hx)) hbehind hrest
      hreads'
    exact readsQuoted_protected h hmore

/-- Pending characters and the escape behind them are read as themselves and its character. -/
theorem readsQuoted_flushEscape {guarded : Bool} {u rest cs : List Char} {x : Char} {c e : Cursor}
    (hu : ∀ y ∈ u, Pen.isPlainInDouble y = true)
    (hguarded : guarded = true → u.head? = some ' ')
    (h : c.rest = protection guarded ++ (u ++ (Pen.escaped x ++ rest)))
    (hreads : ReadsQuoted true
      ((c.skip (protection guarded ++ u).length).skip (Pen.escaped x).length) cs e) :
    ReadsQuoted true c (u ++ x :: cs) e := by
  have hbehind : (c.skip (protection guarded ++ u).length).rest = Pen.escaped x ++ rest := by
    apply Cursor.rest_skip_of
    rw [h, List.append_assoc]
  obtain ⟨y, more, hstart⟩ := exists_of_escaped x
  have hgoes : GoesOn (Pen.escaped x ++ rest) := by
    rw [hstart]
    exact ⟨'\\', _, rfl, rfl, rfl⟩
  exact readsQuoted_flush hu hguarded h hgoes (readsQuoted_escaped hbehind hreads)

/-- Does a text's first character, if there is one, differ from a space? -/
def StartsDark (cs : List Char) : Prop := ∀ x ∈ cs.head?, x ≠ ' '

theorem goesOn_backslash (rest : List Char) : GoesOn ('\\' :: rest) := ⟨'\\', rest, rfl, rfl, rfl⟩

theorem goesOn_of_startsDark {u : List Char} (hne : u ≠ [])
    (hu : ∀ x ∈ u, Pen.isPlainInDouble x = true) (hdark : StartsDark u) (rest : List Char) :
    GoesOn (u ++ rest) := by
  match u, hne with
  | x :: u, _ =>
    obtain ⟨-, -, htab, hbreak, -⟩ := isPlainInDouble_iff (hu x List.mem_cons_self)
    have hspace : x ≠ ' ' := hdark x rfl
    exact ⟨x, u ++ rest, rfl, by simp [isSpaceOrTab, hspace, htab], hbreak⟩

theorem StartsDark.left {u v : List Char} (h : StartsDark (u ++ v)) : StartsDark u := by
  match u with
  | [] => exact fun x hx => absurd hx (by simp)
  | x :: u => exact fun y hy => h y (by simpa using hy)

theorem wrote_asIs {u : List Char} (hu : ∀ x ∈ u, Pen.isPlainInDouble x = true) (p : Pen) :
    p.Wrote u (p.put u) :=
  Pen.wrote_put p (fun x hx => (isPlainInDouble_iff (hu x hx)).2.2.2.1)
    fun x hx => (isPlainInDouble_iff (hu x hx)).2.2.2.2

open Pen in
/-- **A text between double quotes is read as it was written**: from a place where some characters
    are pending, and where a backslash protects a space if the first of them, or the next one, is a
    space.  Beyond the width no escape may stand in front of a space. -/
theorem wrote_doubleQuotedFrom {indent : Nat} (fold : Bool) (hindent : 0 < indent) {cs : List Char}
    (hwidth : indent < width ∨ adjacent (!isPlainInDouble ·) (· == ' ') cs = false)
    (first : Bool) {pending : List Char} {p : Pen} (hpen : p.inIndent = false)
    (hpending : ∀ x ∈ pending.reverse, isPlainInDouble x = true) :
    ∃ t, p.Wrote t (doubleQuotedFrom indent fold cs first pending p) ∧
      (∀ rest, GoesOn rest → StartsDark (pending.reverse ++ cs) → GoesOn (t ++ rest)) ∧
      ∀ (guarded : Bool) (c e : Cursor) (rest out : List Char),
        (guarded = true → pending.reverse.head? = some ' ' ∨
          pending = [] ∧ cs.head? = some ' ' ∧ p.column ≤ width) →
        c.rest = protection guarded ++ (t ++ rest) → GoesOn rest →
        ReadsQuoted true (c.skip (protection guarded ++ t).length) out e →
        ReadsQuoted true c (pending.reverse ++ (cs ++ out)) e := by
  induction cs generalizing first pending p with
  | nil =>
    refine ⟨pending.reverse, wrote_asIs hpending p, ?_, ?_⟩
    · intro rest hrest hdark
      by_cases hnil : pending.reverse = []
      · rwa [hnil]
      · exact goesOn_of_startsDark hnil hpending hdark.left rest
    · intro guarded c e rest out hguarded h hrest hreads
      refine readsQuoted_flush hpending ?_ h hrest hreads
      intro htrue
      rcases hguarded htrue with hhead | ⟨-, hhead, -⟩
      · exact hhead
      · cases hhead
  | cons x cs ih =>
    have hwidth' : indent < width ∨ adjacent (!isPlainInDouble ·) (· == ' ') cs = false := by
      refine hwidth.imp_right fun hnone => ?_
      cases cs with
      | nil => rfl
      | cons y cs =>
        simp only [adjacent, Bool.or_eq_false_iff] at hnone
        exact hnone.2
    rw [doubleQuotedFrom]
    dsimp only
    by_cases hplain : isPlainInDouble x = true
    · rw [if_pos hplain]
      split
      · -- The line ends in front of the character.
        next hfold =>
        simp only [Bool.and_eq_true, decide_eq_true_eq] at hfold
        have hpen' : (p.put pending.reverse).inIndent = false := hpen
        obtain ⟨hjoint, hin, -⟩ := wrote_foldDouble hpen' indent (some x)
        have hpending' : ∀ y ∈ [x].reverse, isPlainInDouble y = true := by simpa using hplain
        obtain ⟨t, ht, hgoes, hread⟩ := ih hwidth' false hin hpending'
        refine ⟨_, (wrote_asIs hpending p).trans (hjoint.trans ht), ?_, ?_⟩
        · intro rest hrest hdark
          rw [List.append_assoc]
          by_cases hnil : pending.reverse = []
          · rw [hnil]
            exact goesOn_backslash _
          · exact goesOn_of_startsDark hnil hpending hdark.left _
        · intro guarded c e rest out hguarded h hrest hreads
          have hhead : guarded = true → pending.reverse.head? = some ' ' := by
            intro htrue
            rcases hguarded htrue with hhead | ⟨rfl, -, hcolumn⟩
            · exact hhead
            · simp only [List.length_nil] at hfold
              omega
          have hprotection : (if some x == some ' ' then ['\\'] else []) = protection (x == ' ') := by
            unfold protection
            by_cases hx : x = ' ' <;> simp [hx]
          rw [hprotection] at h hreads
          have hnow : c.rest = protection guarded ++ (pending.reverse ++
              (jointText indent ++ (protection (x == ' ') ++ (t ++ rest)))) := by
            simpa only [List.append_assoc] using h
          have hbehind : (c.skip (protection guarded ++ pending.reverse).length).rest =
              jointText indent ++ (protection (x == ' ') ++ (t ++ rest)) := by
            apply Cursor.rest_skip_of
            rw [hnow, List.append_assoc]
          have hreads' : ReadsQuoted true
              (((c.skip (protection guarded ++ pending.reverse).length).skip
                (jointText indent).length).skip (protection (x == ' ') ++ t).length) out e := by
            rw [← Cursor.skip_append, ← Cursor.skip_append]
            simpa only [List.append_assoc] using hreads
          have hgoes' : GoesOn (protection (x == ' ') ++ (t ++ rest)) := by
            by_cases hspace : x = ' '
            · subst hspace
              exact goesOn_backslash _
            · rw [beq_eq_false_iff_ne.mpr hspace]
              exact hgoes rest hrest (by simpa [StartsDark] using hspace)
          have hmore := hread (x == ' ') _ e rest out (fun hspace => .inl (by simpa using hspace))
            (Cursor.rest_skip_of hbehind) hrest hreads'
          refine readsQuoted_flush hpending hhead hnow (goesOn_backslash _) ?_
          exact readsQuoted_joint hindent hbehind hgoes' hmore
      · have hpending' : ∀ y ∈ (x :: pending).reverse, isPlainInDouble y = true := by
          rw [List.reverse_cons]
          exact List.forall_mem_append.mpr ⟨hpending, by simpa using hplain⟩
        obtain ⟨t, ht, hgoes, hread⟩ := ih hwidth' false hpen hpending'
        rw [List.reverse_cons] at hgoes hread
        refine ⟨t, ht, ?_, ?_⟩
        · intro rest hrest hdark
          rw [List.append_assoc] at hgoes
          exact hgoes rest hrest hdark
        · intro guarded c e rest out hguarded h hrest hreads
          have hmore := hread guarded c e rest out ?_ h hrest hreads
          · rw [List.append_assoc] at hmore
            exact hmore
          · intro htrue
            left
            rcases hguarded htrue with hhead | ⟨rfl, hhead, -⟩
            · rw [List.head?_append, hhead]
              rfl
            · exact hhead
    · rw [if_neg hplain]
      have hescaped : ∀ q : Pen, q.Wrote (escaped x) (q.put (escaped x)) := fun q =>
        wrote_put q (fun y hy => (escaped_chars x y hy).1) fun y hy => (escaped_chars x y hy).2
      have hfirst := (wrote_asIs hpending p).trans (hescaped (p.put pending.reverse))
      have hpen' : ((p.put pending.reverse).put (escaped x)).inIndent = false := hpen
      have hstarts : ∀ rest, StartsDark (pending.reverse ++ x :: cs) →
          GoesOn (pending.reverse ++ (escaped x ++ rest)) := by
        intro rest hdark
        by_cases hnil : pending.reverse = []
        · obtain ⟨y, more, hescape⟩ := exists_of_escaped x
          rw [hnil, hescape]
          exact goesOn_backslash _
        · exact goesOn_of_startsDark hnil hpending hdark.left _
      have hnone : ∀ y ∈ ([] : List Char).reverse, isPlainInDouble y = true :=
        fun _ h => absurd h List.not_mem_nil
      have hhead : ∀ guarded : Bool, (guarded = true → pending.reverse.head? = some ' ' ∨
          pending = [] ∧ (x :: cs).head? = some ' ' ∧ p.column ≤ width) →
          guarded = true → pending.reverse.head? = some ' ' := by
        intro guarded hguarded htrue
        rcases hguarded htrue with hhead | ⟨-, hspace, -⟩
        · exact hhead
        · obtain rfl : x = ' ' := by simpa using hspace
          exact absurd rfl hplain
      split
      · -- The line ends behind the escape.
        next hfold =>
        obtain ⟨hjoint, hin, hcolumn⟩ := wrote_foldDouble hpen' indent cs.head?
        obtain ⟨t, ht, hgoes, hread⟩ := ih hwidth' false hin hnone
        have hprotection : (if cs.head? == some ' ' then ['\\'] else []) =
            protection (cs.head? == some ' ') := rfl
        rw [hprotection] at hjoint
        refine ⟨_, hfirst.trans (hjoint.trans ht), ?_, ?_⟩
        · intro rest hrest hdark
          simp only [List.append_assoc]
          exact hstarts _ hdark
        · intro guarded c e rest out hguarded h hrest hreads
          simp only [List.append_assoc] at h
          have hbehind : ((c.skip (protection guarded ++ pending.reverse).length).skip
              (escaped x).length).rest =
                jointText indent ++ (protection (cs.head? == some ' ') ++ (t ++ rest)) := by
            apply Cursor.rest_skip_of
            apply Cursor.rest_skip_of
            rw [h, List.append_assoc]
          have hreads' : ReadsQuoted true ((((c.skip (protection guarded ++ pending.reverse).length).skip
              (escaped x).length).skip (jointText indent).length).skip
                (protection (cs.head? == some ' ') ++ t).length) out e := by
            rw [← Cursor.skip_append, ← Cursor.skip_append, ← Cursor.skip_append]
            simpa only [List.append_assoc] using hreads
          have hgoes' : GoesOn (protection (cs.head? == some ' ') ++ (t ++ rest)) := by
            by_cases hspace : cs.head? = some ' '
            · rw [hspace]
              exact goesOn_backslash _
            · rw [beq_eq_false_iff_ne.mpr hspace]
              apply hgoes rest hrest
              rintro y hy rfl
              exact hspace hy
          have hmore := hread (cs.head? == some ' ') _ e rest out ?_ (Cursor.rest_skip_of hbehind)
            hrest hreads'
          · exact readsQuoted_flushEscape hpending (hhead guarded hguarded) h
              (readsQuoted_joint hindent hbehind hgoes' hmore)
          · -- The space is not at the same time the start of another line.
            intro hspace
            have hspace : cs.head? = some ' ' := eq_of_beq hspace
            refine .inr ⟨rfl, hspace, ?_⟩
            rcases hwidth with hless | hnone
            · omega
            · obtain ⟨more, rfl⟩ := List.head?_eq_some_iff.mp hspace
              simp [adjacent, hplain] at hnone
      · obtain ⟨t, ht, hgoes, hread⟩ := ih hwidth' false hpen' hnone
        refine ⟨_, hfirst.trans ht, ?_, ?_⟩
        · intro rest hrest hdark
          simp only [List.append_assoc]
          exact hstarts _ hdark
        · intro guarded c e rest out hguarded h hrest hreads
          simp only [List.append_assoc] at h
          have hbehind : ((c.skip (protection guarded ++ pending.reverse).length).skip
              (escaped x).length).rest = t ++ rest := by
            apply Cursor.rest_skip_of
            apply Cursor.rest_skip_of
            rw [h, List.append_assoc]
          have hreads' : ReadsQuoted true (((c.skip (protection guarded ++ pending.reverse).length).skip
              (escaped x).length).skip t.length) out e := by
            rw [← Cursor.skip_append, ← Cursor.skip_append]
            simpa only [List.append_assoc] using hreads
          have hmore := hread false _ e rest out (absurd · Bool.false_ne_true) hbehind hrest hreads'
          exact readsQuoted_flushEscape hpending (hhead guarded hguarded) h hmore

open Pen in
/-- **A text between double quotes is read as it was written.** -/
theorem wrote_doubleQuoted {cs : List Char} (p : Pen) {indent : Nat} (fold : Bool)
    (hindent : 0 < indent)
    (hwidth : indent < width ∨ adjacent (!isPlainInDouble ·) (· == ' ') cs = false) :
    ∃ t, p.Wrote (leadingBlank p ++ '"' :: t) (p.doubleQuoted indent fold cs) ∧
      ∀ (c : Cursor) (rest : List Char), c.rest = '"' :: t ++ rest →
        quotedScalar true c = .ok (cs, c.skip (t.length + 1)) := by
  have hin : (p.indicator ['"'] true false).inIndent = false := by simp [indicator]
  obtain ⟨t, ht, -, hread⟩ := wrote_doubleQuotedFrom fold hindent hwidth true hin
    (show ∀ x ∈ ([] : List Char).reverse, isPlainInDouble x = true from
      fun _ h => absurd h List.not_mem_nil)
  have hquote : ∀ c ∈ ['"'], isBreak c = false ∧ isClean c = true :=
    List.forall_mem_singleton.mpr (by decide)
  have hopen := wrote_indicator p true false (fun c hc => (hquote c hc).1)
    fun c hc => (hquote c hc).2
  have hclose := wrote_indicator (doubleQuotedFrom indent fold cs true []
    (p.indicator ['"'] true false)) false false (fun c hc => (hquote c hc).1)
    fun c hc => (hquote c hc).2
  refine ⟨t ++ ['"'], ?_, ?_⟩
  · have htext : leadingBlank p ++ '"' :: (t ++ ['"']) =
        p.indicatorText ['"'] true ++ (t ++ ['"']) := by
      unfold leadingBlank indicatorText
      cases p.afterBlank <;> rfl
    rw [htext]
    exact hopen.trans (ht.trans hclose)
  · intro c rest h
    rw [List.cons_append, List.append_assoc] at h
    have hnext := Cursor.rest_next_of h
    have hbehind := Cursor.rest_skip_of hnext
    have hreads := hread false c.next _ (['"'] ++ rest) [] (absurd · Bool.false_ne_true) hnext
      ⟨'"', rest, rfl, rfl, rfl⟩ (ReadsQuoted.close hbehind rfl)
    rw [List.append_nil] at hreads
    have hless : c.next.remaining < c.remaining + 1 := by
      rw [remaining_next h]
      omega
    have hbody : quotedBody true (c.remaining + 1) c.next = .ok (cs, (c.next.skip t.length).next) :=
      hreads _ hless
    rw [quotedScalar, hbody, List.length_append]
    show Except.ok (cs, (c.next.skip t.length).skip 1) = _
    rw [← Cursor.skip_add]
    rfl

end Yaml

end Regen
