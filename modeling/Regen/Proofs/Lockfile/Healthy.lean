import Regen.Proofs.Graph.Order
import Regen.Proofs.Lockfile.Load
import Regen.Lockfile.Age
import Regen.Lockfile.Plan

/-! # Healthy lockfiles

    A lockfile is healthy if its dependencies have no circle, they are between configured sources,
    and its revision counts how often it was written.  An empty lockfile is, sweeping leaves it so,
    and so does writing it and reading it again. -/

namespace Regen.Lockfile

open Relation Time

/-- **A healthy lockfile**, as seen from the names that were configured and from how often it was
    written. -/
structure Healthy (names : List String) (writes : Nat) (l : Lockfile) : Prop where
  acyclic : ∀ x, ¬TransGen (Needs l.dependencies) x x
  ordered : ∃ order, l.graph.generationOrder = .ok order
  configured : ∀ x y, Needs l.dependencies x y → x ∈ names ∧ y ∈ names
  revision : l.revision = writes

section healthy
variable {names : List String} {writes : Nat} {l m : Lockfile}

theorem Healthy.of_acyclic (hacyclic : ∀ x, ¬TransGen (Needs l.dependencies) x x)
    (hconfigured : ∀ x y, Needs l.dependencies x y → x ∈ names ∧ y ∈ names)
    (hrevision : l.revision = writes) : Healthy names writes l := by
  obtain ⟨order, horder, -⟩ :=
    Graph.generationOrder_of_acyclic l.dependencies l.sources.names hacyclic
  exact ⟨hacyclic, ⟨order, horder⟩, hconfigured, hrevision⟩

/-- A lockfile with no other dependencies is healthy at its own revision. -/
theorem Healthy.of_needs (h : Healthy names writes l)
    (hneeds : ∀ x y, Needs m.dependencies x y → Needs l.dependencies x y) {writes' : Nat}
    (hrevision : m.revision = writes') : Healthy names writes' m :=
  .of_acyclic (fun x hcircle => h.acyclic x (TransGen.mono hneeds x x hcircle))
    (fun x y hxy => h.configured x y (hneeds x y hxy)) hrevision

theorem healthy_empty (names : List String) (now : Moment) (tool : String) :
    Healthy names 0 (empty now tool) := by
  have hnone : ∀ x y, ¬Needs (empty now tool).dependencies x y := by
    rintro x y ⟨wanted, hfind, -⟩
    cases hfind
  refine .of_acyclic (fun x hcircle => ?_) (fun x y hxy => absurd hxy (hnone x y)) rfl
  obtain ⟨y, hxy, -⟩ := TransGen.head'_iff.mp hcircle
  exact hnone x y hxy

theorem Healthy.next (h : Healthy names writes l) : Healthy names (writes + 1) l.next :=
  h.of_needs (m := l.next) (fun _ _ hxy => hxy) (congrArg (· + 1) h.revision)

/-- What is read of a healthy lockfile that was written is healthy. -/
theorem Healthy.of_rel {T : Moment → Moment → Prop} {V : Value → Value → Prop}
    (h : Healthy names writes l) (hrel : Lockfile.Rel T V l m) : Healthy names writes m := by
  refine h.of_needs ?_ (hrel.revision.trans h.revision)
  rintro x y ⟨wanted, hfind, hy⟩
  exact ⟨wanted, (hrel.dependencies.find?_eq x).symm.trans hfind, hy⟩

end healthy

/-! ## Sweeping -/

/-- **A filter that does not fail** decides every entry and keeps those it decides for. -/
theorem filterM_eq_ok {ε α : Type} {p : α → Except ε Bool} {xs ys : List α}
    (h : xs.filterM p = .ok ys) :
    (∀ x ∈ xs, ∃ keep, p x = .ok keep) ∧ ys = xs.filter fun x => (p x).toOption.getD false := by
  -- The filter collects what it keeps back to front.
  have hkept : ∀ (xs kept zs : List α), List.filterAuxM p xs kept = .ok zs →
      (∀ x ∈ xs, ∃ keep, p x = .ok keep) ∧
        zs = (xs.filter fun x => (p x).toOption.getD false).reverse ++ kept := by
    intro xs
    induction xs with
    | nil =>
      intro kept zs h
      exact ⟨List.forall_mem_nil _, (Except.ok.inj h).symm⟩
    | cons x rest ih =>
      intro kept zs h
      obtain ⟨keep, hkeep, h⟩ := bind_eq_ok.mp h
      obtain ⟨hrest, hzs⟩ := ih _ _ h
      refine ⟨List.forall_mem_cons.mpr ⟨⟨keep, hkeep⟩, hrest⟩, ?_⟩
      rw [hzs, List.filter_cons, hkeep]
      cases keep with
      | true => simp [Except.toOption]
      | false => simp [Except.toOption]
  obtain ⟨zs, hzs, h⟩ := bind_eq_ok.mp h
  obtain ⟨hall, rfl⟩ := hkept xs [] zs hzs
  refine ⟨hall, ?_⟩
  rw [← Except.ok.inj h, List.append_nil, List.reverse_reverse]

theorem sublist_of_filterM {ε α : Type} {p : α → Except ε Bool} {xs ys : List α}
    (h : xs.filterM p = .ok ys) : ys.Sublist xs := by
  obtain ⟨-, rfl⟩ := filterM_eq_ok h
  exact List.filter_sublist

theorem sweep_eq_ok {l swept : Lockfile} {maxAge : Int} {now : Moment} {removed : Bool}
    (h : l.sweep maxAge now = .ok (swept, removed)) :
    ∃ sources files, sources.Sublist l.sources ∧ files.Sublist l.files ∧
      swept = { l with sources, files } := by
  obtain ⟨sources, hsources, h⟩ := bind_eq_ok.mp h
  obtain ⟨files, hfiles, h⟩ := bind_eq_ok.mp h
  obtain ⟨rfl, -⟩ := Prod.mk.inj (Except.ok.inj h)
  exact ⟨sources, files, sublist_of_filterM hsources, sublist_of_filterM hfiles, rfl⟩

/-- **Sweeping leaves a lockfile well-formed and healthy.** -/
theorem WellFormed.sweep {l swept : Lockfile} {maxAge : Int} {now : Moment} {removed : Bool}
    (hl : l.WellFormed) (h : l.sweep maxAge now = .ok (swept, removed)) : swept.WellFormed := by
  obtain ⟨sources, files, hsources, hfiles, rfl⟩ := sweep_eq_ok h
  exact ⟨hl.schemaVersion, hl.sources.sublist (hsources.map _), hl.files.sublist (hfiles.map _),
    hl.dependencies⟩

theorem Healthy.sweep {names : List String} {writes : Nat} {l swept : Lockfile} {maxAge : Int}
    {now : Moment} {removed : Bool} (hl : Healthy names writes l)
    (h : l.sweep maxAge now = .ok (swept, removed)) : Healthy names writes swept := by
  obtain ⟨sources, files, -, -, rfl⟩ := sweep_eq_ok h
  exact hl.of_needs (m := { l with sources, files }) (fun _ _ hxy => hxy) hl.revision

end Regen.Lockfile
