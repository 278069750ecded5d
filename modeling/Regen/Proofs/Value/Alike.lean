import Regen.Proofs.Lockfile.Document

/-! # Values that are the same but for their labels

    A reader labels what it meets by two paths, and a writer does not write the labels down, so a
    document that is written and read again is at best the same but for them.  Unlike equality of
    content this tells `1`, `1.0` and `true` apart, and entries keep their order. -/

namespace Regen.Value

/-- Are two scalars the same but for their labels? -/
def alikeScalar : Value → Value → Bool
  | null, null => true
  | bool a, bool b => a == b
  | int m, int n => m == n
  | real x, real y => x == y
  | text s, text t => s == t
  | bytes a, bytes b => a == b
  | date d _, date e _ => d == e
  | time t _, time u _ => t == u
  | _, _ => false

mutual

/-- Are two values the same but for their labels? -/
def alike : Value → Value → Bool
  | list xs _, list ys _ => alikeLists xs ys
  | tuple xs, tuple ys => alikeLists xs ys
  | set xs _, set ys _ => alikeLists xs ys
  | map es _, map fs _ => alikeEntries es fs
  | v, w => alikeScalar v w

def alikeLists : List Value → List Value → Bool
  | [], [] => true
  | x :: xs, y :: ys => alike x y && alikeLists xs ys
  | _, _ => false

def alikeEntries : List (Value × Value) → List (Value × Value) → Bool
  | [], [] => true
  | (k, v) :: es, (l, w) :: fs => alike k l && alike v w && alikeEntries es fs
  | _, _ => false

end

/-- **Two values are alike** if they are the same but for their labels. -/
def Alike (v w : Value) : Prop := v.alike w = true

instance : DecidableRel Alike := fun v w => inferInstanceAs (Decidable (v.alike w = true))

theorem forall₂_of_alikeLists {xs ys : List Value} (h : alikeLists xs ys = true) :
    List.Forall₂ Alike xs ys := by
  induction xs generalizing ys with
  | nil =>
    cases ys with
    | nil => exact .nil
    | cons y ys => cases h
  | cons x xs ih =>
    cases ys with
    | nil => cases h
    | cons y ys =>
      have hboth : (alike x y && alikeLists xs ys) = true := h
      rw [Bool.and_eq_true] at hboth
      exact .cons hboth.1 (ih hboth.2)

theorem forall₂_of_alikeEntries {es fs : Entries} (h : alikeEntries es fs = true) :
    List.Forall₂ (fun e f => Alike e.1 f.1 ∧ Alike e.2 f.2) es fs := by
  induction es generalizing fs with
  | nil =>
    cases fs with
    | nil => exact .nil
    | cons f fs => cases h
  | cons e es ih =>
    cases fs with
    | nil => cases h
    | cons f fs =>
      have hboth : (alike e.1 f.1 && alike e.2 f.2 && alikeEntries es fs) = true := h
      rw [Bool.and_eq_true, Bool.and_eq_true] at hboth
      exact .cons hboth.1 (ih hboth.2)

theorem alikeLists_of_forall₂ {xs ys : List Value} (h : List.Forall₂ Alike xs ys) :
    alikeLists xs ys = true := by
  induction h with
  | nil => rfl
  | cons hxy _ ih => exact (Bool.and_eq_true _ _).mpr ⟨hxy, ih⟩

theorem alikeEntries_of_forall₂ {es fs : Entries}
    (h : List.Forall₂ (fun e f => Alike e.1 f.1 ∧ Alike e.2 f.2) es fs) :
    alikeEntries es fs = true := by
  induction h with
  | nil => rfl
  | cons hef _ ih => exact (Bool.and_eq_true _ _).mpr ⟨(Bool.and_eq_true _ _).mpr hef, ih⟩

theorem alike_refl (v : Value) : Alike v v := by
  match v with
  | null => rfl
  | bool b => exact beq_self_eq_true b
  | int n => exact beq_self_eq_true n
  | real x => exact beq_self_eq_true x
  | text s => exact beq_self_eq_true s
  | bytes b => exact beq_self_eq_true b
  | date d _ => exact beq_self_eq_true d
  | time t _ => exact beq_self_eq_true t
  | list xs _ | tuple xs | set xs _ =>
    exact alikeLists_of_forall₂ (List.forall₂_same.mpr fun x hx => alike_refl x)
  | map es _ =>
    exact alikeEntries_of_forall₂
      (List.forall₂_same.mpr fun e he => ⟨alike_refl e.1, alike_refl e.2⟩)
termination_by sizeOf v
decreasing_by
  · have := List.sizeOf_lt_of_mem hx
    simp only [Value.list.sizeOf_spec]
    omega
  · have := List.sizeOf_lt_of_mem hx
    simp only [Value.tuple.sizeOf_spec]
    omega
  · have := List.sizeOf_lt_of_mem hx
    simp only [Value.set.sizeOf_spec]
    omega
  all_goals
    have := List.sizeOf_lt_of_mem he
    obtain ⟨k, w⟩ := e
    simp only [Prod.mk.sizeOf_spec, Value.map.sizeOf_spec] at this ⊢
    omega

theorem eq_of_alike_text {s : String} {v : Value} (h : Alike (.text s) v) : v = .text s := by
  cases v with
  | text t => exact congrArg text (eq_of_beq (a := s) h).symm
  | _ => cases h

theorem eq_of_alike_int {n : Int} {v : Value} (h : Alike (.int n) v) : v = .int n := by
  cases v with
  | int m => exact congrArg int (eq_of_beq (a := n) h).symm
  | _ => cases h

theorem eq_of_alike_real {x : Number.Binary64} {v : Value} (h : Alike (.real x) v) :
    v = .real x := by
  cases v with
  | real y => exact congrArg real (eq_of_beq (a := x) h).symm
  | _ => cases h

theorem readsBack_alike : ReadsBack Alike where
  text := eq_of_alike_text
  int := eq_of_alike_int
  real := eq_of_alike_real
  list := by
    intro xs v h
    cases v with
    | list ys => exact ⟨_, _, rfl, forall₂_of_alikeLists h⟩
    | _ => cases h
  map := by
    intro es v h
    cases v with
    | map fs => exact ⟨_, _, rfl, forall₂_of_alikeEntries h, h⟩
    | _ => cases h

end Regen.Value
