import Regen.Proofs.Value.Data
import Regen.Proofs.Value.Keys

/-! # Plain values

    A value is plain if each of its numbers is one and no key of a mapping equals an earlier one.
    Plain values are equal to themselves.  Whatever is taken from a plain value is plain, also a
    mapping that is made of pairs. -/

namespace Regen

namespace Number.Binary64

/-- Is it a number? -/
def isNumber : Binary64 → Bool
  | nan _ => false
  | _ => true

end Number.Binary64

namespace Value

mutual

/-- Is every number in the value one, and no key equal to an earlier one? -/
def isPlain : Value → Bool
  | null | bool _ | int _ | text _ | bytes _ | date .. | time .. => true
  | real x => x.isNumber
  | list xs _ => arePlain xs
  | tuple xs => arePlain xs
  | set xs _ => arePlain xs
  | map es _ => arePlainEntries es

def arePlain : List Value → Bool
  | [] => true
  | x :: xs => isPlain x && arePlain xs

def arePlainEntries : List (Value × Value) → Bool
  | [] => true
  | (k, v) :: es =>
    isPlain k && isPlain v && es.all (fun f => !same f.1 k) && arePlainEntries es

end

attribute [local simp] isPlain arePlain arePlainEntries

theorem arePlain_iff {xs : List Value} : arePlain xs = true ↔ ∀ x ∈ xs, x.isPlain = true := by
  induction xs with
  | nil => simp
  | cons x xs ih => simp [ih]

theorem arePlainEntries_iff {es : Entries} : arePlainEntries es = true ↔
    (∀ e ∈ es, e.1.isPlain = true ∧ e.2.isPlain = true) ∧
      es.Pairwise fun e f => f.1.same e.1 = false := by
  induction es with
  | nil => simp
  | cons e es ih =>
    obtain ⟨k, v⟩ := e
    simp only [arePlainEntries, Bool.and_eq_true, List.all_eq_true, Bool.not_eq_true', ih,
      List.forall_mem_cons, List.pairwise_cons]
    tauto

/-! ## Equality -/

theorem allWithin_of_found {xs ys : List Value} (h : ∀ x ∈ xs, ∃ y ∈ ys, x.same y = true) :
    allWithin xs ys = true := by
  induction xs with
  | nil => rw [allWithin]
  | cons x xs ih =>
    rw [allWithin, ih fun y hy => h y (List.mem_cons_of_mem _ hy), Bool.and_true]
    exact List.any_eq_true.mpr (h x List.mem_cons_self)

/-- A key that equals itself and no earlier one finds its own entry. -/
theorem find?_self {es : Entries} (hdistinct : es.Pairwise fun e f => f.1.same e.1 = false)
    {e : Value × Value} (he : e ∈ es) (hself : e.1.same e.1 = true) :
    List.find? (fun f => e.1.same f.1) es = some e := by
  induction es with
  | nil => cases he
  | cons f es ih =>
    obtain ⟨hfirst, hrest⟩ := List.pairwise_cons.mp hdistinct
    rcases List.mem_cons.mp he with rfl | he
    · rw [List.find?_cons, hself]
    · rw [List.find?_cons, hfirst e he]
      exact ih hrest he

/-- **A plain value equals itself.** -/
theorem same_self (v : Value) (h : v.isPlain = true) : v.same v = true := by
  match v with
  | null | bool _ | int _ | text _ | bytes _ | date .. => simp [same, sameScalar, asInt?]
  | time t _ => simp [same, sameScalar, Time.Moment.equals]
  | real (.nan _) => cases h
  | real (.infinite _) | real (.finite ..) => simp [same, sameScalar, Number.Binary64.equals]
  | list xs _ | tuple xs =>
    rw [isPlain, arePlain_iff] at h
    rw [same]
    exact sameLists_of_forall₂ (List.forall₂_same.mpr fun x hx => same_self x (h x hx))
  | set xs _ =>
    rw [isPlain, arePlain_iff] at h
    rw [same, beq_self_eq_true, Bool.true_and]
    exact allWithin_of_found fun x hx => ⟨x, hx, same_self x (h x hx)⟩
  | map es _ =>
    rw [isPlain, arePlainEntries_iff] at h
    obtain ⟨hplain, hdistinct⟩ := h
    rw [same, beq_self_eq_true, Bool.true_and]
    refine entriesWithin_of_found fun e he => ⟨e, ?_, same_self e.2 (hplain e he).2⟩
    exact find?_self hdistinct he (same_self e.1 (hplain e he).1)
termination_by sizeOf v
decreasing_by
  · have := List.sizeOf_lt_of_mem hx
    simp only [Value.list.sizeOf_spec]
    omega
  · have := List.sizeOf_lt_of_mem hx
    simp only [Value.tuple.sizeOf_spec]
    omega
  · have := List.sizeOf_lt_of_mem hx
    simp only [Value.set.sizeOf_spec]
    omega
  all_goals
    have := List.sizeOf_lt_of_mem he
    obtain ⟨k, w⟩ := e
    simp only [Prod.mk.sizeOf_spec, Value.map.sizeOf_spec] at this ⊢
    omega

/-! ## Parts of plain values -/

section parts
variable {es : Entries} {k v w : Value} {key : String}

theorem isPlain_of_member? (hv : v.isPlain = true) (h : v.member? key = .ok (some w)) :
    w.isPlain = true := by
  match v with
  | map es _ =>
    rw [isPlain, arePlainEntries_iff] at hv
    obtain ⟨e, he, rfl⟩ := Entries.exists_mem_of_get? (Except.ok.inj h)
    exact (hv.1 e he).2

theorem isPlain_orElse {o : Option Value} (ho : ∀ w ∈ o, w.isPlain = true)
    (hv : v.isPlain = true) : (orElse o v).isPlain = true := by
  match o with
  | none => exact hv
  | some w =>
    rw [orElse]
    split
    · exact ho w rfl
    · exact hv

theorem isPlain_of_elements? {xs : List Value} (hv : v.isPlain = true)
    (h : v.elements? = some xs) : ∀ x ∈ xs, x.isPlain = true := by
  match v with
  | list ys _ | tuple ys | set ys _ =>
    obtain rfl := Option.some.inj h
    rwa [isPlain, arePlain_iff] at hv
  | map es _ =>
    obtain rfl := Option.some.inj h
    rw [isPlain, arePlainEntries_iff] at hv
    exact List.forall_mem_map.mpr fun e he => (hv.1 e he).1
  | text _ | bytes _ =>
    obtain rfl := Option.some.inj h
    exact List.forall_mem_map.mpr fun _ _ => by rw [isPlain]

theorem isPlain_of_pairOf {place : Nat} {e : Value × Value} (hv : v.isPlain = true)
    (h : pairOf place v = .ok e) : e.1.isPlain = true ∧ e.2.isPlain = true := by
  unfold pairOf at h
  split at h
  · next k w hpair =>
    split at h
    · obtain rfl := Except.ok.inj h
      have hparts := isPlain_of_elements? hv hpair
      exact ⟨hparts k List.mem_cons_self, hparts w (List.mem_cons_of_mem _ List.mem_cons_self)⟩
    · cases h
  · cases h
  · cases h

theorem arePlainEntries_insert (hes : arePlainEntries es = true) (hk : k.isPlain = true)
    (hv : v.isPlain = true) : arePlainEntries (es.insert k v) = true := by
  induction es with
  | nil => simp [Entries.insert, hk, hv]
  | cons e es ih =>
    obtain ⟨k', v'⟩ := e
    simp only [arePlainEntries, Bool.and_eq_true, List.all_eq_true, Bool.not_eq_true'] at hes
    obtain ⟨⟨⟨hk', hv'⟩, hnew⟩, hes⟩ := hes
    rw [Entries.insert]
    split
    · simp only [arePlainEntries, hk', hv, hes, Bool.and_true, Bool.true_and, List.all_eq_true,
        Bool.not_eq_true']
      exact hnew
    · next hother =>
      simp only [arePlainEntries, hk', hv', ih hes, Bool.and_true, Bool.true_and,
        List.all_eq_true, Bool.not_eq_true']
      intro f hf
      rcases (Entries.of_mem_insert hf).1 with heq | ⟨g, hg, heq⟩
      · rw [heq]
        exact Bool.eq_false_iff.mpr hother
      · rw [← heq]
        exact hnew g hg

theorem arePlainEntries_insertPairs {vs : List Value} {place : Nat} {fs : Entries}
    (hes : arePlainEntries es = true) (hvs : ∀ v ∈ vs, v.isPlain = true)
    (h : insertPairs es place vs = .ok fs) : arePlainEntries fs = true := by
  induction vs generalizing es place with
  | nil =>
    obtain rfl := Except.ok.inj h
    exact hes
  | cons v vs ih =>
    obtain ⟨⟨k, w⟩, hpair, h⟩ := bind_eq_ok.mp h
    obtain ⟨hk, hw⟩ := isPlain_of_pairOf (hvs v List.mem_cons_self) hpair
    exact ih (arePlainEntries_insert hes hk hw) (fun u hu => hvs u (List.mem_cons_of_mem _ hu)) h

/-- **A mapping that is made of a plain value is plain.** -/
theorem arePlainEntries_of_toEntries (hv : v.isPlain = true) (h : v.toEntries = .ok es) :
    arePlainEntries es = true := by
  unfold toEntries at h
  split at h
  · obtain rfl := Except.ok.inj h
    rwa [isPlain] at hv
  · obtain ⟨xs, hxs, h⟩ := bind_eq_ok.mp h
    refine arePlainEntries_insertPairs (by rw [arePlainEntries]) ?_ h
    unfold elements at hxs
    split at hxs
    · next ys hys =>
      obtain rfl := Except.ok.inj hxs
      exact isPlain_of_elements? hv hys
    · cases hxs

end parts

end Value

end Regen
