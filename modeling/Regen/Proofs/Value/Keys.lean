import Mathlib.Data.List.Pairwise
import Regen.Settings.Basic

/-! # Text keys

    A text is equal to no other key, so what a mapping has under it can be followed through
    insertions and merges.  A merge takes the new value of a key that the new mapping has, where
    two mappings are merged in turn, and keeps the old one of any other. -/

namespace Regen

namespace Value

def isMapping : Value → Bool
  | map .. => true
  | _ => false

variable {k : Value} {s : String}

attribute [local simp] same sameScalar asInt?

theorem same_text : k.same (.text s) = true ↔ k = .text s := by
  cases k <;> simp

theorem text_same : (text s).same k = true ↔ k = .text s := by
  cases k with
  | text t => simp [eq_comm (a := s)]
  | _ => simp

end Value

namespace Entries

/-- **Distinct keys**: no text is a key twice. -/
def Distinct (es : Entries) : Prop := es.Pairwise fun e f => ∀ s, e.1 = .text s → f.1 ≠ .text s

section entries
variable {es : Entries} {k v : Value} {s : String}

theorem get?_cons_self : get? ((.text s, v) :: es) s = some v := by
  have hsame : (Value.text s).same (.text s) = true := by rw [Value.text_same]
  simp [get?, find?, hsame]

theorem get?_cons_of_ne (v : Value) (h : k ≠ .text s) : get? ((k, v) :: es) s = es.get? s := by
  have hother : (Value.text s).same k = false := by
    rwa [Bool.eq_false_iff, Ne, Value.text_same]
  simp [get?, find?, hother]

/-- A key that stands behind an equal one is not looked at. -/
theorem get?_eq_none_of_forall (h : ∀ e ∈ es, e.1 ≠ .text s) : es.get? s = none := by
  rw [get?, find?, Option.map_eq_none_iff, List.find?_eq_none]
  intro e he hsame
  rw [Value.text_same] at hsame
  exact h e he hsame

theorem ne_of_get?_eq_none (h : es.get? s = none) {e : Value × Value} (he : e ∈ es) :
    e.1 ≠ .text s := by
  rw [get?, find?, Option.map_eq_none_iff, List.find?_eq_none] at h
  exact fun hk => h e he (by rwa [Value.text_same])

/-- What is found under a text is one of the values. -/
theorem exists_mem_of_get? (h : es.get? s = some v) : ∃ e ∈ es, e.2 = v := by
  obtain ⟨e, hfound, hv⟩ := Option.map_eq_some_iff.mp h
  exact ⟨e, List.mem_of_find?_eq_some hfound, hv⟩

theorem get?_insert_self : (es.insert (.text s) v).get? s = some v :=
  find?_insert_self (by rw [Value.text_same])

theorem get?_insert_of_ne (h : k ≠ .text s) : (es.insert k v).get? s = es.get? s := by
  induction es with
  | nil => exact get?_cons_of_ne v h
  | cons e rest ih =>
    obtain ⟨k', v'⟩ := e
    rw [insert]
    by_cases hsame : k.same k' = true
    · -- The key that is replaced is not the text either.
      have hk' : k' ≠ .text s := by
        rintro rfl
        rw [Value.same_text] at hsame
        exact h hsame
      rw [if_pos hsame, get?_cons_of_ne v hk', get?_cons_of_ne v' hk']
    · rw [if_neg hsame]
      by_cases hk' : k' = .text s
      · rw [hk', get?_cons_self, get?_cons_self]
      · rw [get?_cons_of_ne v' hk', get?_cons_of_ne v' hk', ih]

/-- After an insertion a key was there or is the inserted one, and so is a value. -/
theorem of_mem_insert {e : Value × Value} (h : e ∈ es.insert k v) :
    (e.1 = k ∨ ∃ f ∈ es, f.1 = e.1) ∧ (e.2 = v ∨ ∃ f ∈ es, f.2 = e.2) := by
  induction es with
  | nil =>
    obtain rfl := List.mem_singleton.mp h
    exact ⟨.inl rfl, .inl rfl⟩
  | cons f rest ih =>
    have hold : e ∈ f :: rest → (e.1 = k ∨ ∃ g ∈ f :: rest, g.1 = e.1) ∧
        (e.2 = v ∨ ∃ g ∈ f :: rest, g.2 = e.2) :=
      fun he => ⟨.inr ⟨e, he, rfl⟩, .inr ⟨e, he, rfl⟩⟩
    rw [insert] at h
    split at h
    · rcases List.mem_cons.mp h with rfl | h
      · exact ⟨.inr ⟨f, List.mem_cons_self, rfl⟩, .inl rfl⟩
      · exact hold (List.mem_cons_of_mem _ h)
    · rcases List.mem_cons.mp h with rfl | h
      · exact hold List.mem_cons_self
      · obtain ⟨hkey, hvalue⟩ := ih h
        constructor
        · rcases hkey with hk | ⟨g, hg, hk⟩
          · exact .inl hk
          · exact .inr ⟨g, List.mem_cons_of_mem _ hg, hk⟩
        · rcases hvalue with hv | ⟨g, hg, hv⟩
          · exact .inl hv
          · exact .inr ⟨g, List.mem_cons_of_mem _ hg, hv⟩

theorem Distinct.insert (h : es.Distinct) (k v : Value) : (es.insert k v).Distinct := by
  induction es with
  | nil => exact List.pairwise_singleton _ _
  | cons e rest ih =>
    obtain ⟨k', v'⟩ := e
    obtain ⟨hhead, hrest⟩ := List.pairwise_cons.mp h
    rw [Entries.insert]
    by_cases hsame : k.same k' = true
    · rw [if_pos hsame]
      exact List.pairwise_cons.mpr ⟨hhead, hrest⟩
    · rw [if_neg hsame]
      refine List.pairwise_cons.mpr ⟨?_, ih hrest⟩
      rintro f hf s rfl hs
      -- An inserted key that equals the first one would have replaced its value.
      rcases (of_mem_insert hf).1 with hk | ⟨g, hg, heq⟩
      · rw [← hk, hs] at hsame
        exact hsame (by rw [Value.text_same])
      · exact hhead g hg s rfl (heq.trans hs)

/-- Inserting one after the other keeps keys distinct. -/
theorem Distinct.insertAll (h : es.Distinct) (more : List (Value × Value)) :
    (es.insertAll more).Distinct := by
  induction more generalizing es with
  | nil => exact h
  | cons e rest ih => exact ih (h.insert e.1 e.2)

/-- A new text comes last. -/
theorem insert_of_forall_ne (h : ∀ e ∈ es, e.1 ≠ .text s) :
    es.insert (.text s) v = es ++ [(.text s, v)] := by
  induction es with
  | nil => rfl
  | cons e rest ih =>
    have hother : ¬(Value.text s).same e.1 = true := by
      rw [Value.text_same]
      exact h e List.mem_cons_self
    rw [insert, if_neg hother, ih fun e he => h e (List.mem_cons_of_mem _ he), List.cons_append]

/-- Entries with new texts as keys come last, in their order. -/
theorem insertAll_of_distinct {more : List (Value × Value)} (hkeys : ∀ e ∈ more, ∃ s, e.1 = .text s)
    (h : Distinct (es ++ more)) : es.insertAll more = es ++ more := by
  induction more generalizing es with
  | nil => exact (List.append_nil es).symm
  | cons e more ih =>
    obtain ⟨k, v⟩ := e
    obtain ⟨s, rfl⟩ := hkeys (k, v) List.mem_cons_self
    have hnew : ∀ f ∈ es, f.1 ≠ .text s := fun f hf heq =>
      (List.pairwise_append.mp h).2.2 f hf _ List.mem_cons_self s heq rfl
    have hinsert := insert_of_forall_ne (v := v) hnew
    rw [List.append_cons, ← hinsert] at h ⊢
    exact ih (fun e he => hkeys e (List.mem_cons_of_mem _ he)) h

theorem value_of_mem_insertAll {more : List (Value × Value)} {e : Value × Value}
    (h : e ∈ es.insertAll more) : ∃ f ∈ more ++ es, f.2 = e.2 := by
  induction more generalizing es with
  | nil => exact ⟨e, h, rfl⟩
  | cons g rest ih =>
    obtain ⟨f, hf, heq⟩ := ih h
    rw [← heq]
    rcases List.mem_append.mp hf with hf | hf
    · exact ⟨f, List.mem_cons_of_mem _ (List.mem_append_left _ hf), rfl⟩
    · rcases (of_mem_insert hf).2 with hv | ⟨g', hg', hv⟩
      · exact ⟨g, List.mem_cons_self, hv.symm⟩
      · exact ⟨g', List.mem_cons_of_mem _ (List.mem_append_right _ hg'), hv⟩

end entries

/-! ## Merging -/

/-- **What a merge has under a text**: the new value if there is one, merged into the old one where
    both are mappings, and else the old value. -/
theorem get?_mergeEntries {base es : Entries} (hes : es.Distinct) (s : String) :
    (mergeEntries base es).get? s =
      ((es.get? s).map (mergeValue (base.get? s))).or (base.get? s) := by
  induction es generalizing base with
  | nil => rfl
  | cons e rest ih =>
    obtain ⟨k, v⟩ := e
    obtain ⟨hhead, hrest⟩ := List.pairwise_cons.mp hes
    rw [mergeEntries, ih hrest]
    by_cases hk : k = .text s
    · subst hk
      have hnone : get? rest s = none := get?_eq_none_of_forall fun f hf => hhead f hf s rfl
      rw [hnone, get?_insert_self, get?_cons_self]
      rfl
    · rw [get?_insert_of_ne hk, get?_cons_of_ne v hk]

end Entries

/-- What is no mapping replaces the old value. -/
theorem mergeValue_of_other {v : Value} (h : v.isMapping = false) (old : Option Value) :
    mergeValue old v = v := by
  cases v with
  | map => cases h
  | _ => rfl

/-- An old value that is no mapping is replaced. -/
theorem mergeValue_of_old {old : Option Value} (h : ∀ v ∈ old, v.isMapping = false) (v : Value) :
    mergeValue old v = v := by
  cases v with
  | map es label =>
    cases old with
    | none => rfl
    | some w =>
      have hw : w.isMapping = false := h w rfl
      cases w with
      | map => cases hw
      | _ => rfl
  | _ => rfl

@[simp] theorem mergeValue_none (v : Value) : mergeValue none v = v :=
  mergeValue_of_old (fun _ h => absurd h (Option.not_mem_none _)) v

end Regen
