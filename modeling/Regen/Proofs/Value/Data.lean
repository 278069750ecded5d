import Regen.Proofs.Value.Alike

/-! # Data

    Data is what a document without special tags can say: null, flags, integers, reals, texts, and
    lists and mappings of data whose keys are distinct texts.  Alike data is equal in content. -/

namespace Regen

namespace Number.Binary64

/-- Is the number in canonical form?  What is no number has none. -/
def isCanonical : Binary64 → Bool
  | nan _ => false
  | infinite _ => true
  | finite _ m e =>
    m == 0 && e == 0 ||
      decide (0 < m ∧ m < 2 ^ 53 ∧ -1074 ≤ e ∧ e ≤ 971 ∧ (2 ^ 52 ≤ m ∨ e = -1074))

theorem equals_self {x : Binary64} (h : x.isCanonical = true) : x.equals x = true := by
  cases x <;> simp_all [isCanonical, equals]

end Number.Binary64

namespace Value

mutual

/-- Is the value data? -/
def isData : Value → Bool
  | null | bool _ | int _ | text _ => true
  | real x => x.isCanonical
  | list xs _ => areData xs
  | map es _ => areDataEntries es
  | _ => false

def areData : List Value → Bool
  | [] => true
  | x :: xs => isData x && areData xs

/-- Are the keys distinct texts, and the values data? -/
def areDataEntries : List (Value × Value) → Bool
  | [] => true
  | (text s, v) :: es => (Entries.get? es s).isNone && isData v && areDataEntries es
  | _ :: _ => false

end

theorem areData_iff {xs : List Value} : areData xs = true ↔ ∀ x ∈ xs, x.isData = true := by
  induction xs with
  | nil => simp [areData]
  | cons x xs ih => simp [areData, ih]

/-- The keys of data's entries are texts, and the values are data. -/
theorem of_mem_areDataEntries {es : Entries} (h : areDataEntries es = true) {e : Value × Value}
    (he : e ∈ es) : (∃ s, e.1 = text s) ∧ e.2.isData = true := by
  induction es with
  | nil => cases he
  | cons f es ih =>
    obtain ⟨k, v⟩ := f
    cases k <;> simp [areDataEntries] at h
    rcases List.mem_cons.mp he with rfl | he
    · exact ⟨⟨_, rfl⟩, h.1.2⟩
    · exact ih h.2 he

/-- **Induction over data.** -/
@[elab_as_elim]
theorem isData_induction {P : (v : Value) → v.isData = true → Prop}
    (null : ∀ h, P null h) (bool : ∀ b h, P (bool b) h) (int : ∀ n h, P (int n) h)
    (real : ∀ x h, P (real x) h) (text : ∀ s h, P (text s) h)
    (list : ∀ xs label h, (∀ x ∈ xs, ∀ hx, P x hx) → P (list xs label) h)
    (map : ∀ es label h, (∀ e ∈ es, ∀ he, P e.2 he) → P (map es label) h)
    (v : Value) (h : v.isData = true) : P v h := by
  match v, h with
  | .null, h => exact null h
  | .bool b, h => exact bool b h
  | .int n, h => exact int n h
  | .real x, h => exact real x h
  | .text s, h => exact text s h
  | .list xs label, h =>
    exact list xs label h fun x _ hx =>
      isData_induction null bool int real text list map x hx
  | .map es label, h =>
    exact map es label h fun e _ he =>
      isData_induction null bool int real text list map e.2 he
termination_by sizeOf v
decreasing_by
  · have := List.sizeOf_lt_of_mem ‹x ∈ xs›
    simp only [Value.list.sizeOf_spec]
    omega
  · have := List.sizeOf_lt_of_mem ‹e ∈ es›
    obtain ⟨k, w⟩ := e
    simp only [Prod.mk.sizeOf_spec, Value.map.sizeOf_spec] at this ⊢
    omega

/-! ## Alike data is the same -/

/-- In data every key finds the value that stands beside it. -/
theorem exists_find?_of_alike {es fs : Entries} (hdata : areDataEntries es = true)
    (halike : alikeEntries es fs = true) :
    ∀ e ∈ es, ∃ w, List.find? (fun f => e.1.same f.1) fs = some (e.1, w) ∧ Alike e.2 w := by
  induction es generalizing fs with
  | nil => exact fun _ h => absurd h List.not_mem_nil
  | cons e es ih =>
    obtain ⟨k, v⟩ := e
    match fs with
    | [] => simp [alikeEntries] at halike
    | (l, w) :: fs =>
      obtain ⟨⟨s, rfl⟩, -⟩ := of_mem_areDataEntries hdata List.mem_cons_self
      simp only [areDataEntries, alikeEntries, Bool.and_eq_true, Option.isNone_iff_eq_none]
        at hdata halike
      obtain ⟨⟨hnew, -⟩, hrest⟩ := hdata
      obtain ⟨⟨hkey, hvalue⟩, hmore⟩ := halike
      obtain rfl := eq_of_alike_text hkey
      intro e he
      rcases List.mem_cons.mp he with rfl | he
      · exact ⟨w, by simp [same, sameScalar], hvalue⟩
      · obtain ⟨x, hfind, hx⟩ := ih hrest hmore e he
        refine ⟨x, ?_, hx⟩
        -- The first key is another one, or it would not be new.
        obtain ⟨⟨t, ht⟩, -⟩ := of_mem_areDataEntries hrest he
        have hnone : ∀ f ∈ es, ¬(text s).same f.1 = true := by
          rw [Entries.get?, Entries.find?, Option.map_eq_none_iff] at hnew
          exact List.find?_eq_none.mp hnew
        have hne : t ≠ s := by
          intro heq
          apply hnone e he
          rw [ht, heq]
          simp [same, sameScalar]
        have hkeep : e.1.same (text s) = false := by
          rw [ht]
          simp [same, sameScalar, hne]
        rw [List.find?_cons, hkeep]
        exact hfind

theorem entriesWithin_of_found {es fs : Entries}
    (h : ∀ e ∈ es, ∃ f, List.find? (fun f => e.1.same f.1) fs = some f ∧ e.2.same f.2 = true) :
    entriesWithin es fs = true := by
  induction es with
  | nil => rw [entriesWithin]
  | cons e es ih =>
    obtain ⟨f, hfind, hsame⟩ := h e List.mem_cons_self
    have hrest := ih fun e he => h e (List.mem_cons_of_mem _ he)
    rw [entriesWithin, hfind, hrest, Bool.and_true]
    exact hsame

theorem sameLists_of_forall₂ {xs ys : List Value}
    (h : List.Forall₂ (fun x y => x.same y = true) xs ys) : sameLists xs ys = true := by
  induction h with
  | nil => rw [sameLists]
  | cons hxy _ ih => rw [sameLists, hxy, ih, Bool.true_and]

/-- **Alike data is equal in content.** -/
theorem same_of_alike {v w : Value} (hdata : v.isData = true) (h : Alike v w) :
    v.same w = true := by
  induction v, hdata using isData_induction generalizing w with
  | null => cases w <;> simp_all [Alike, alike, alikeScalar, same, sameScalar]
  | bool => cases w <;> simp_all [Alike, alike, alikeScalar, same, sameScalar, asInt?]
  | int =>
    rw [eq_of_alike_int h]
    simp [same, sameScalar, asInt?]
  | real x hx =>
    rw [eq_of_alike_real h]
    rw [isData] at hx
    cases x with
    | infinite => simpa [same, sameScalar] using Number.Binary64.equals_self hx
    | finite => simpa [same, sameScalar] using Number.Binary64.equals_self hx
    | nan => cases hx
  | text =>
    rw [eq_of_alike_text h]
    simp [same, sameScalar]
  | list xs label hxs ih =>
    cases w <;> simp [Alike, alike, alikeScalar] at h
    rw [isData, areData_iff] at hxs
    rw [same]
    refine sameLists_of_forall₂ (List.forall₂_iff_get.mpr ⟨?_, ?_⟩)
    · exact (forall₂_of_alikeLists h).length_eq
    · intro i hi hj
      have hmem := List.getElem_mem (l := xs) hi
      exact ih _ hmem (hxs _ hmem) ((forall₂_of_alikeLists h).get hi hj)
  | map es label hes ih =>
    cases w <;> simp [Alike, alike, alikeScalar] at h
    rw [isData] at hes
    rw [same, (forall₂_of_alikeEntries h).length_eq, beq_self_eq_true, Bool.true_and]
    apply entriesWithin_of_found
    intro e he
    obtain ⟨x, hfind, hx⟩ := exists_find?_of_alike hes h e he
    exact ⟨_, hfind, ih e he (of_mem_areDataEntries hes he).2 hx⟩

end Value

end Regen
