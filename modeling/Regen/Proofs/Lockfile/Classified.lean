import Regen.Proofs.Lockfile.Rejected
import Regen.Proofs.Yaml.Built

/-! # What reading a lockfile explains

    A file that is no lockfile is read as corrupt, with a cause, for nearly everything that can be
    wrong with it: its text is malformed, a key is missing, a value has the wrong shape or no
    meaning.  Three kinds of faults are not explained so and escape as they are: bytes that are no
    text, a scalar that YAML gives a tag and no value, and a number that is too large for its
    field. -/

namespace Regen

open Number

namespace Lockfile

/-! ## Faults of documents -/

/-- **A number of a document is too large for its field.** -/
inductive Oversized (v : Value) : Fault → Prop
  | revision {negative : Bool} (h : v.member? "revision" = .ok (some (.real (.infinite negative)))) :
      Oversized v .infinityToInt
  | size {w : Value} {es : Entries} {e : Value × Value} {negative : Bool}
      (hw : v.member? "files" = .ok (some w)) (hes : w.items = .ok es) (he : e ∈ es)
      (h : e.2.member "size" = .ok (.real (.infinite negative))) : Oversized v .infinityToInt
  | statistic {w : Value} {key : String} {negative : Bool}
      (hw : v.member? "statistics" = .ok (some w))
      (h : w.member? key = .ok (some (.real (.infinite negative)))) : Oversized v .infinityToInt
  /-- The rate is an integer beyond all reals. -/
  | hitRate {w : Value} {n : Int} (hw : v.member? "statistics" = .ok (some w))
      (h : w.member? "cache_hit_rate" = .ok (some (.int n)))
      (hn : Binary64.ofInt? n = .error .intTooLarge) : Oversized v .intTooLarge

theorem isCorrupting_of_isPlain {f : Fault} (h : f.IsPlain) : isCorrupting f = true := by
  unfold isCorrupting
  rcases h with h | h | h <;> rw [h]

theorem not_isCorrupting_of_oversized {v : Value} {f : Fault} (h : Oversized v f) :
    isCorrupting f = false := by
  cases h <;> rfl

/-- What only fails on faults that make a lockfile corrupt. -/
abbrev Explains {α : Type} (x : Except Fault α) : Prop := FailsOnly (isCorrupting · = true) x

section records
variable {α : Type} {x : Except Fault α}

theorem explains_of_plain (h : FailsOnly Fault.IsPlain x) : Explains x :=
  h.mono fun _ => isCorrupting_of_isPlain

theorem explains_member (v : Value) (key : String) : Explains (v.member key) := by
  refine (failsOnly_member v key).mono fun f h => ?_
  rcases h with h | rfl
  · exact isCorrupting_of_isPlain h
  · rfl

theorem explains_textMember (v : Value) (key : String) : Explains (textMember v key) :=
  (explains_member v key).bind fun _ _ => explains_of_plain (failsOnly_toText _)

theorem explains_member? (v : Value) (key : String) : Explains (v.member? key) :=
  explains_of_plain (failsOnly_member? v key)

theorem explains_textsOf (v : Option Value) : Explains (textsOf v) :=
  (explains_of_plain (failsOnly_elements _)).bind fun _ _ =>
    .mapM fun _ _ => explains_of_plain (failsOnly_toText _)

/-- What explains all of its faults also does so up to others. -/
theorem Explains.or {P : Fault → Prop} (h : Explains x) :
    FailsOnly (fun f => isCorrupting f = true ∨ P f) x :=
  h.mono fun _ => .inl

/-- A ledger fails as the reading of one of its entries does. -/
theorem failsOnly_ledger {read : Value → Except Fault α} {P : Value → Fault → Prop}
    (hread : ∀ w, FailsOnly (fun f => isCorrupting f = true ∨ P w f) (read w)) (v : Option Value) :
    FailsOnly (fun f => isCorrupting f = true ∨
      ∃ w es, v = some w ∧ w.items = .ok es ∧ ∃ e ∈ es, P e.2 f) (Ledger.ofDocument read v) := by
  refine .bind (explains_of_plain (failsOnly_items _)).or fun es hes => ?_
  refine .bind (.mapM fun e he => ?_) fun _ _ => .ok _
  refine .bind (explains_of_plain (failsOnly_toText _)).or fun _ _ => ?_
  refine .bind ((hread e.2).mono fun f h => h.imp_right fun h => ?_) fun _ _ => .ok _
  -- The default of a ledger has no entries, so the ledger was there.
  unfold Value.orElse at hes
  split at hes
  · next w =>
    split at hes
    · exact ⟨w, es, rfl, hes, e, he, h⟩
    · obtain rfl := Except.ok.inj hes
      cases he
  · obtain rfl := Except.ok.inj hes
    cases he

theorem explains_ledger {read : Value → Except Fault α} (hread : ∀ w, Explains (read w))
    (v : Option Value) : Explains (Ledger.ofDocument read v) := by
  refine (failsOnly_ledger (P := fun _ _ => False) (fun w => (hread w).or) v).mono fun f h => ?_
  rcases h with h | ⟨_, _, _, _, _, _, hfalse⟩
  · exact h
  · exact hfalse.elim

theorem explains_source (v : Value) : Explains (SourceRecord.ofDocument v) :=
  (explains_textMember v _).bind fun _ _ => (explains_textMember v _).bind fun _ _ =>
    (explains_textMember v _).bind fun _ _ => (explains_member v _).bind fun _ _ =>
    (explains_of_plain (failsOnly_toMoment _)).bind fun _ _ => (explains_member? v _).bind fun _ _ =>
    (explains_textsOf _).bind fun _ _ => (explains_member? v _).bind fun _ _ =>
    (explains_of_plain (failsOnly_toEntries _)).bind fun _ _ => .ok _

theorem failsOnly_file (v : Value) : FailsOnly (fun f => isCorrupting f = true ∨
    f = .infinityToInt ∧ ∃ negative, v.member "size" = .ok (.real (.infinite negative)))
    (FileRecord.ofDocument v) := by
  refine .bind (explains_textMember v _).or fun _ _ => ?_
  refine .bind (explains_member v _).or fun size hsize => ?_
  refine .bind ((failsOnly_toInt size).mono fun f h => ?_) fun _ _ => Explains.or ?_
  · rcases h with h | ⟨hf, negative, rfl⟩
    · exact .inl (isCorrupting_of_isPlain h)
    · exact .inr ⟨hf, negative, hsize⟩
  · exact (explains_member v _).bind fun _ _ =>
      (explains_of_plain (failsOnly_toMoment _)).bind fun _ _ => (explains_member? v _).bind fun _ _ =>
      (explains_of_plain (failsOnly_toText _)).bind fun _ _ => (explains_member? v _).bind fun _ _ =>
      (explains_member? v _).bind fun _ _ => .ok _

/-- A number of the statistics that is too large. -/
def OversizedIn (w : Value) (f : Fault) : Prop :=
  (f = .infinityToInt ∧ ∃ key negative, w.member? key = .ok (some (.real (.infinite negative)))) ∨
    f = .intTooLarge ∧ ∃ n, w.member? "cache_hit_rate" = .ok (some (.int n)) ∧
      Binary64.ofInt? n = .error .intTooLarge

theorem failsOnly_statistics (w : Value) :
    FailsOnly (fun f => isCorrupting f = true ∨ OversizedIn w f) (Statistics.ofDocument w) := by
  have hcounter : ∀ key,
      FailsOnly (fun f => isCorrupting f = true ∨ OversizedIn w f) (counter w key) := fun key =>
    (failsOnly_counter w key).mono fun f h => by
      rcases h with h | ⟨hf, negative, h⟩
      · exact .inl (isCorrupting_of_isPlain h)
      · exact .inr (.inl ⟨hf, key, negative, h⟩)
  refine (hcounter _).bind fun _ _ => (hcounter _).bind fun _ _ => (hcounter _).bind fun _ _ =>
    (hcounter _).bind fun _ _ => (hcounter _).bind fun _ _ =>
    (explains_member? w _).or.bind fun rate hrate => .bind ?_ fun _ _ => .ok _
  refine (failsOnly_toReal _).mono fun f h => ?_
  rcases h with h | ⟨rfl, n, hn, hlarge⟩
  · exact .inl (isCorrupting_of_isPlain h)
  · match rate with
    | none => cases hn
    | some rate =>
      obtain rfl : rate = .int n := hn
      exact .inr (.inr ⟨rfl, n, hrate, hlarge⟩)

end records

/-- What is in the statistics of a document, or in none. -/
theorem oversized_of_statistics {v : Value} {w : Option Value} {f : Fault}
    (hw : v.member? "statistics" = .ok w)
    (h : OversizedIn (Value.orElse w (.map [] none)) f) : Oversized v f := by
  have hsome : ∀ key x, (Value.orElse w (.map [] none)).member? key = .ok (some x) →
      w = some (Value.orElse w (.map [] none)) := by
    intro key x hx
    unfold Value.orElse at hx ⊢
    split at hx
    · split at hx
      · next htrue => rw [if_pos htrue]
      · cases hx
    · cases hx
  rcases h with ⟨rfl, key, negative, h⟩ | ⟨rfl, n, h, hn⟩
  · exact .statistic (hw.trans (congrArg _ (hsome _ _ h))) h
  · exact .hitRate (hw.trans (congrArg _ (hsome _ _ h))) h hn

/-- **A document that is no lockfile is corrupt**, or a number in it is too large. -/
theorem failsOnly_ofDocument (v : Value) :
    FailsOnly (fun f => isCorrupting f = true ∨ Oversized v f) (ofDocument v) := by
  match v with
  | .map es label =>
    refine (explains_textMember _ _).or.bind fun _ _ => .ite ?_ ?_
    · exact .error (.inl rfl)
    refine (explains_member? _ _).or.bind fun _ _ => ?_
    refine (explains_ledger explains_source _).or.bind fun _ _ => ?_
    refine (explains_member? _ _).or.bind fun files hfiles => ?_
    refine .bind ((failsOnly_ledger failsOnly_file files).mono fun f h => h.imp_right ?_) fun _ _ => ?_
    · rintro ⟨w, es, rfl, hes, e, he, rfl, negative, hsize⟩
      exact .size hfiles hes he hsize
    refine (explains_member? _ _).or.bind fun _ _ => ?_
    refine (explains_ledger (fun w => explains_textsOf (some w)) _).or.bind fun _ _ => ?_
    refine (explains_member? _ _).or.bind fun statistics hstatistics => ?_
    refine .bind ((failsOnly_statistics _).mono fun f h => h.imp_right ?_) fun _ _ => ?_
    · exact oversized_of_statistics hstatistics
    refine (explains_member _ _).or.bind fun _ _ => ?_
    refine (explains_of_plain (failsOnly_toMoment _)).or.bind fun _ _ => ?_
    refine (explains_member? _ _).or.bind fun _ _ => ?_
    refine (explains_of_plain (failsOnly_toText _)).or.bind fun _ _ => ?_
    refine .bind ((failsOnly_counter _ _).mono fun f h => ?_) fun _ _ => .ok _
    rcases h with h | ⟨rfl, negative, h⟩
    · exact .inl (isCorrupting_of_isPlain h)
    · exact .inr (.revision h)
  | .null | .bool _ | .int _ | .real _ | .text _ | .bytes _ | .date .. | .time .. | .list ..
  | .tuple _ | .set .. => exact .error (.inl rfl)

/-! ## Files that are read -/

/-- **What reading a lockfile does not explain.** -/
inductive Escapes (content : Bytes) : Failure → Prop
  | undecodable {g : Text.Utf8Fault} (h : Text.decodeUtf8 content = .error g) :
      Escapes content (.value (.decoding g))
  | scalar {f : Fault} (h : Yaml.ofBytes content = .error (.value f)) (hf : Yaml.ScalarFault f) :
      Escapes content (.value f)
  | oversized {v : Value} {f : Fault} (hv : Yaml.ofBytes content = .ok v)
      (h : ofDocument v = .error f) (hf : Oversized v f) : Escapes content (.value f)

/-- What is read of a path is what YAML makes of its bytes. -/
theorem load_of_contentAt {d : Disk} {p : Path} {content : Bytes}
    (hcontent : contentAt d p = some content) :
    load d p = match Yaml.ofBytes content with
      | .error .malformed => .error (.corrupt p.text .notYaml)
      | .error f => .error f.failure
      | .ok v => match ofDocument v with
        | .ok l => .ok l
        | .error f =>
          .error (if isCorrupting f then .corrupt p.text (.document f) else .value f) := by
  obtain ⟨hexists, hyaml⟩ := exists_of_contentAt hcontent
  rewrite [load, hexists, hyaml]
  rfl

/-- **What becomes of a file that is read**: it is a lockfile, it is corrupt, or its fault
    escapes; the fault that escapes is the failure of the reading. -/
theorem load_classified {d : Disk} {p : Path} {content : Bytes}
    (hcontent : contentAt d p = some content) :
    (((∃ l, load d p = .ok l) ∨ ∃ cause, load d p = .error (.corrupt p.text cause)) ↔
        ∀ f, ¬Escapes content f) ∧
      ∀ f, Escapes content f → load d p = .error f := by
  have hload := load_of_contentAt hcontent
  have hescapes : ∀ f, Escapes content f → load d p = .error f := by
    rintro f (⟨hg⟩ | ⟨hf, -⟩ | ⟨hv, hf, hoversized⟩)
    · rw [hload, Yaml.ofBytes, hg]
      rfl
    · rw [hload, hf]
      rfl
    · rw [hload, hv]
      simp only [hf, not_isCorrupting_of_oversized hoversized, Bool.false_eq_true, if_false]
  refine ⟨⟨?_, fun hnone => ?_⟩, hescapes⟩
  · rintro (⟨l, hl⟩ | ⟨cause, hcause⟩) f hf
    · rw [hescapes f hf] at hl
      cases hl
    · rw [hescapes f hf] at hcause
      obtain rfl := Except.error.inj hcause
      cases hf
  · rcases hv : Yaml.ofBytes content with (f | - | f) | v
    · rcases Yaml.ofBytes_error hv with ⟨_, _, h⟩ | h | ⟨_, _, h⟩ <;> cases h
    · exact .inr ⟨_, by rw [hload, hv]⟩
    · rcases Yaml.ofBytes_error hv with ⟨g, hg, h⟩ | h | ⟨g, hg, h⟩
      · exact absurd (.undecodable hg) (hnone _)
      · cases h
      · cases h
        exact absurd (.scalar hv hg) (hnone _)
    · cases hl : ofDocument v with
      | ok l =>
        refine .inl ⟨l, ?_⟩
        rw [hload, hv]
        simp only [hl]
      | error f =>
        rcases failsOnly_ofDocument v f hl with hcorrupting | hoversized
        · refine .inr ⟨.document f, ?_⟩
          rw [hload, hv]
          simp only [hl, hcorrupting, if_true]
        · exact absurd (.oversized hv hl hoversized) (hnone _)

/-- Bytes that are no text are not explained. -/
theorem load_classified_of_bytes :
    contentAt (holding [0xFF]) ⟨0, ["lock"]⟩ = some [0xFF] ∧
      load (holding [0xFF]) ⟨0, ["lock"]⟩ = .error (.value (.decoding ⟨.badStart, 0, 1, 0xFF⟩)) :=
  have hcontent : contentAt (holding [0xFF]) ⟨0, ["lock"]⟩ = some [0xFF] := by decide +kernel
  ⟨hcontent, (load_classified hcontent).2 _ (.undecodable rfl)⟩

/-- A document that is a lockfile but for its revision, which is infinite. -/
def endless : Bytes :=
  Text.encodeUtf8 "schema_version: '1.0'\ngenerated_at: '2024-06-01'\nrevision: .inf".toList

/-- **Reading a lockfile fails without an explanation**: on bytes that are no text, on a flag that
    is none, and on an infinite revision. -/
theorem load_misses_fault :
    [[0xFF], Text.encodeUtf8 "!!bool maybe".toList, endless].all fun content =>
      contentAt (holding content) ⟨0, ["lock"]⟩ = some content ∧
        ¬(load (holding content) ⟨0, ["lock"]⟩).isOk ∧ ¬IsCorrupt (holding content) ⟨0, ["lock"]⟩ := by
  decide +kernel

end Lockfile

end Regen
