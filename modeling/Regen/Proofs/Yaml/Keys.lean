import Regen.Proofs.Time.Read
import Regen.Proofs.Value.Keys
import Regen.Yaml.File

/-! # Values of documents

    What is read from a document is the value of one of its scalars or a collection.  The value of
    a scalar is no mapping, and if it is a time it is one that can be written.  In every mapping
    that is read a text is a key once at most, because the entries are inserted one after the
    other. -/

namespace Regen

open Time

/-- **A tidy value**: in the mappings that are reached through mappings no text is a key twice. -/
inductive Value.Tidy : Value → Prop
  | map {es : Entries} {label : Label} (distinct : es.Distinct) (values : ∀ e ∈ es, Tidy e.2) :
      Tidy (.map es label)
  | other {v : Value} (h : v.isMapping = false) : Tidy v

theorem Value.Tidy.entries {es : Entries} {label : Label} (h : (Value.map es label).Tidy) :
    es.Distinct ∧ ∀ e ∈ es, e.2.Tidy := by
  cases h with
  | map hdistinct hvalues => exact ⟨hdistinct, hvalues⟩
  | other hother => cases hother

namespace Value

/-- Is the value neither a mapping nor a time? -/
def isPlainLeaf : Value → Bool
  | map .. | time .. => false
  | _ => true

/-- **The value of a scalar**: no mapping, and a time only as it is written. -/
structure IsLeaf (v : Value) : Prop where
  isMapping : v.isMapping = false
  time : ∀ t label, v = .time t label → t.IsWritten

theorem IsLeaf.of_isPlainLeaf {v : Value} (h : v.isPlainLeaf = true) : v.IsLeaf := by
  refine ⟨?_, ?_⟩
  · cases v <;> first | rfl | cases h
  · rintro t label rfl
    cases h

end Value

namespace Yaml

/-! ## Scalars -/

/-- A value is one of a scalar if there is one. -/
def MakesLeaf {ε : Type} (r : Except ε Value) : Prop := ∀ v, r = .ok v → v.IsLeaf

section makes
variable {ε α : Type}

theorem MakesLeaf.ok {v : Value} (hv : v.isPlainLeaf = true) :
    MakesLeaf (.ok v : Except ε Value) := by
  intro w h
  obtain rfl := Except.ok.inj h
  exact .of_isPlainLeaf hv

theorem MakesLeaf.error (e : ε) : MakesLeaf (.error e : Except ε Value) := by
  intro w h
  cases h

theorem MakesLeaf.bind {r : Except ε α} {f : α → Except ε Value} (hf : ∀ x, MakesLeaf (f x)) :
    MakesLeaf (r >>= f) := by
  intro w h
  obtain ⟨x, -, h⟩ := bind_eq_ok.mp h
  exact hf x w h

theorem MakesLeaf.asRead {r : Except Fault Value} (hr : MakesLeaf r) : MakesLeaf (asRead r) := by
  intro w h
  cases r with
  | ok v => exact hr w (congrArg Except.ok (Except.ok.inj h))
  | error f => cases h

end makes

section scalars
variable (id : Nat) (tag : Tag) (text : String)

theorem makesLeaf_boolValue : MakesLeaf (boolValue text) := by
  unfold boolValue
  dsimp only
  split
  · exact .ok rfl
  · exact .error _

theorem makesLeaf_intValue : MakesLeaf (intValue text) := by
  unfold intValue
  refine .bind fun x => ?_
  dsimp only
  split
  iterate 4 exact .bind fun _ => .ok rfl
  · exact .error _
  · split
    · exact .bind fun _ => .bind fun _ => .ok rfl
    · exact .bind fun _ => .ok rfl

theorem makesLeaf_realValue : MakesLeaf (realValue text) := by
  unfold realValue
  refine .bind fun x => ?_
  dsimp only
  split
  · exact .ok rfl
  · split
    · exact .ok rfl
    · split
      · exact .bind fun _ => .bind fun _ => .ok rfl
      · exact .bind fun _ => .ok rfl

theorem makesLeaf_timeValue : MakesLeaf (timeValue id text) := by
  intro v h
  rcases of_timeValue h with ⟨d, label, rfl⟩ | ⟨t, label, rfl, ht⟩
  · exact .of_isPlainLeaf rfl
  · refine ⟨rfl, ?_⟩
    rintro u label' ⟨⟩
    exact ht

theorem makesLeaf_binaryValue : MakesLeaf (binaryValue text) := by
  unfold binaryValue
  split
  · split
    · exact .ok rfl
    · exact .error _
  · exact .error _

/-- **A scalar has the value of a scalar**, whatever its tag. -/
theorem makesLeaf_scalarValue : MakesLeaf (scalarValue id tag text) := by
  unfold scalarValue
  split
  · exact .ok rfl
  · exact (makesLeaf_boolValue text).asRead
  · exact (makesLeaf_intValue text).asRead
  · exact (makesLeaf_realValue text).asRead
  · exact (makesLeaf_timeValue id text).asRead
  · exact makesLeaf_binaryValue text
  · exact .ok rfl
  · exact .error _

end scalars

end Yaml

/-! ## What is read -/

/-- **A value that is read**: a collection or a scalar's value.  The entries of a mapping have
    been inserted one after the other, and their values are read too. -/
inductive Value.IsRead : Value → Prop
  | leaf {v : Value} (h : v.IsLeaf) : IsRead v
  | list {xs : List Value} {label : Label} : IsRead (.list xs label)
  | set {xs : List Value} {label : Label} : IsRead (.set xs label)
  | map {es : Entries} {label : Label} (distinct : es.Distinct) (values : ∀ e ∈ es, IsRead e.2) :
      IsRead (.map es label)

namespace Value

theorem IsRead.null : IsRead .null := .leaf (.of_isPlainLeaf rfl)

/-- **What is read is tidy.** -/
theorem IsRead.tidy {v : Value} (h : v.IsRead) : v.Tidy := by
  induction h with
  | leaf hleaf => exact .other hleaf.isMapping
  | list => exact .other rfl
  | set => exact .other rfl
  | map hdistinct _ ih => exact .map hdistinct ih

/-- The values of a mapping that is read are read. -/
theorem IsRead.entries {es : Entries} {label : Label} (h : (Value.map es label).IsRead) :
    ∀ e ∈ es, e.2.IsRead := by
  cases h with
  | map _ hvalues => exact hvalues
  | leaf hleaf => cases hleaf.isMapping

theorem IsRead.member {v w : Value} {key : String} (h : v.IsRead) (hw : v.member key = .ok w) :
    w.IsRead := by
  cases v with
  | map es label =>
    unfold Value.member at hw
    dsimp only at hw
    split at hw
    · next hget =>
      obtain rfl := Except.ok.inj hw
      obtain ⟨e, he, rfl⟩ := Entries.exists_mem_of_get? hget
      exact h.entries e he
    · cases hw
  | _ => cases hw

/-- A time that is read is as it is written. -/
theorem IsRead.time {t : Moment} {label : Label} (h : (Value.time t label).IsRead) :
    t.IsWritten := by
  cases h with
  | leaf hleaf => exact hleaf.time t label rfl

end Value

namespace Yaml

/-! ## Building values -/

namespace Builder

/-- What became of the scalars that were met is a value of a scalar. -/
def Kept (b : Builder) : Prop := ∀ i v, b.met.getD i none = some (.scalar v) → v.IsLeaf

theorem kept_start (size : Nat) : (start size).Kept := by
  intro i v h
  simp [start, Array.getD] at h

theorem kept_setMet {b : Builder} (hb : b.Kept) (i : Nat) {m : Met}
    (hm : ∀ v, m = .scalar v → v.IsLeaf) (waiting : List Node) :
    ({ b with met := b.met.setIfInBounds i (some m), waiting } : Builder).Kept := by
  intro j v h
  simp only [Array.getD_eq_getD_getElem?, Array.getElem?_setIfInBounds] at h
  split at h
  · split at h
    · exact hm v (Option.some.inj h)
    · cases h
  · exact hb j v (by rw [Array.getD_eq_getD_getElem?]; exact h)

theorem isLeaf_of_scalar {b : Builder} {n : Node} {v : Value} (h : b.scalar n = .ok v) :
    v.IsLeaf := by
  obtain ⟨text, -, h⟩ := bind_eq_ok.mp h
  split at h
  · cases h
  · exact makesLeaf_scalarValue _ _ _ v h

/-- **The values of nodes are read**: the entries of a mapping are inserted one after the other. -/
theorem isRead_value {b : Builder} (hb : b.Kept) (fuel : Nat) (n : Node) :
    (b.value fuel n).IsRead := by
  induction fuel generalizing n with
  | zero => exact .null
  | succ fuel ih =>
    unfold value
    split
    · next hmet => exact .leaf (hb _ _ hmet)
    · exact .null
    · exact .list
    · split
      · exact .set
      · refine .map (Entries.Distinct.insertAll List.Pairwise.nil _) fun e he => ?_
        obtain ⟨f, hf, heq⟩ := Entries.value_of_mem_insertAll he
        rw [← heq]
        rw [List.append_nil] at hf
        obtain ⟨⟨k, v⟩, -, rfl⟩ := List.mem_map.mp hf
        exact ih v

end Builder

end Yaml

end Regen
