import Regen.Proofs.Command.Work
import Regen.Proofs.Lockfile.Sweep

/-! # Plans after a sweep

    A sweep forgets stale records and keeps the dependencies.  A source without a record counts as
    changed, so a plan after the sweep asks for all that a plan before it asked for, and for the
    forgotten sources with what depends on them. -/

namespace Regen

open Relation Time

namespace Lockfile

/-! ## What a sweep forgets -/

section sweep
variable {l : Lockfile} {maxAge : Int} {now : Moment} {x : String}

/-- The lockfile after a sweep.  A sweep that fails has forgotten nothing. -/
def afterSweep (l : Lockfile) (maxAge : Int) (now : Moment) : Lockfile :=
  match l.sweep maxAge now with
  | .ok (swept, _) => swept
  | .error _ => l

/-- A sweep forgets a source: there was a record of it, and there is none afterwards. -/
def Forgets (l : Lockfile) (maxAge : Int) (now : Moment) (x : String) : Prop :=
  x ∈ l.sources.names ∧ x ∉ (l.afterSweep maxAge now).sources.names

theorem dependencies_afterSweep (l : Lockfile) (maxAge : Int) (now : Moment) :
    (l.afterSweep maxAge now).dependencies = l.dependencies := by
  unfold afterSweep
  split
  · next hsweep =>
    obtain ⟨sources, files, -, -, rfl⟩ := sweep_eq_ok hsweep
    rfl
  · rfl

/-- **A sweep keeps the record of a source or forgets it**, and only stale records are forgotten. -/
theorem find?_afterSweep (hdistinct : l.sources.names.Nodup) (maxAge : Int) (now : Moment)
    (x : String) :
    (l.afterSweep maxAge now).sources.find? x = l.sources.find? x ∨
      (l.afterSweep maxAge now).sources.find? x = none ∧
        ∃ r, l.sources.find? x = some r ∧ isStale r.fetchedAt maxAge now = .ok true := by
  unfold afterSweep
  split
  · next hsweep =>
    obtain ⟨sources, hsources, hsweep⟩ := bind_eq_ok.mp hsweep
    obtain ⟨files, -, hsweep⟩ := bind_eq_ok.mp hsweep
    obtain ⟨rfl, -⟩ := Prod.mk.inj (Except.ok.inj hsweep)
    obtain ⟨hall, rfl⟩ := keepFresh_eq_ok hsources
    show Ledger.find? (List.filter _ _) x = _ ∨ Ledger.find? (List.filter _ _) x = _ ∧ _
    rw [Ledger.find?_filter hdistinct fun r => isFresh maxAge now r.fetchedAt]
    rcases Option.eq_none_or_eq_some (l.sources.find? x) with hnone | ⟨r, hr⟩
    · rw [hnone]
      exact .inl rfl
    · obtain ⟨stale, hstale⟩ := hall _ (Ledger.mem_of_find? hr)
      rw [hr]
      -- A record stays because it is not stale, or it goes.
      cases stale with
      | false => exact .inl (by simp [isFresh, hstale])
      | true => exact .inr ⟨by simp [isFresh, hstale], r, rfl, hstale⟩
  · exact .inl rfl

theorem forgets_iff :
    l.Forgets maxAge now x ↔
      (l.sources.find? x).isSome ∧ (l.afterSweep maxAge now).sources.find? x = none := by
  rw [Forgets, ← Ledger.find?_isSome_iff, ← Ledger.find?_isSome_iff, Bool.not_eq_true,
    Option.isSome_eq_false_iff, Option.isNone_iff_eq_none]

theorem Forgets.stale (hdistinct : l.sources.names.Nodup) (h : l.Forgets maxAge now x) :
    ∃ r, l.sources.find? x = some r ∧ isStale r.fetchedAt maxAge now = .ok true := by
  obtain ⟨hbefore, hafter⟩ := forgets_iff.mp h
  rcases find?_afterSweep hdistinct maxAge now x with hkept | ⟨-, hstale⟩
  · rw [← hkept, hafter] at hbefore
    cases hbefore
  · exact hstale

end sweep

/-! ## What counts as changed -/

theorem mem_changedSources_iff {l : Lockfile} {current : Ledger String} {x : String} :
    x ∈ l.changedSources current ↔
      ∃ fingerprint, (x, fingerprint) ∈ current ∧ l.sourceChanged x fingerprint = true := by
  rw [changedSources, Text.mem_sorted, List.mem_map]
  constructor
  · rintro ⟨⟨name, fingerprint⟩, he, rfl⟩
    obtain ⟨hmem, hchanged⟩ := List.mem_filter.mp he
    exact ⟨fingerprint, hmem, hchanged⟩
  · rintro ⟨fingerprint, hmem, hchanged⟩
    exact ⟨(x, fingerprint), List.mem_filter.mpr ⟨hmem, hchanged⟩, rfl⟩

/-- **After a sweep the changed sources are those that were changed before, and the forgotten ones
    among the current.** -/
theorem mem_changedSources_afterSweep {l : Lockfile} (hdistinct : l.sources.names.Nodup)
    (maxAge : Int) (now : Moment) (current : Ledger String) (x : String) :
    x ∈ (l.afterSweep maxAge now).changedSources current ↔
      x ∈ l.changedSources current ∨ x ∈ current.names ∧ l.Forgets maxAge now x := by
  rw [mem_changedSources_iff, mem_changedSources_iff, Ledger.mem_names, forgets_iff]
  unfold sourceChanged
  rcases find?_afterSweep hdistinct maxAge now x with hkept | ⟨hgone, r, hr, -⟩
  · -- The record is the same one, and so is what it says of the fingerprint.
    rw [hkept]
    constructor
    · exact Or.inl
    · rintro (hchanged | ⟨-, hsome, hnone⟩)
      · exact hchanged
      · rw [hnone] at hsome
        cases hsome
  · -- Without a record every fingerprint counts as another one.
    rw [hgone, hr]
    constructor
    · rintro ⟨fingerprint, hmem, -⟩
      exact .inr ⟨⟨fingerprint, hmem⟩, rfl, rfl⟩
    · rintro (⟨fingerprint, hmem, -⟩ | ⟨⟨fingerprint, hmem⟩, -⟩)
      · exact ⟨fingerprint, hmem, rfl⟩
      · exact ⟨fingerprint, hmem, rfl⟩

end Lockfile

namespace Command

/-! ## What is generated again -/

theorem dependencies_withDependencies_congr {l m : Lockfile}
    (h : l.dependencies = m.dependencies) (s : Settings) :
    (withDependencies l s).dependencies = (withDependencies m s).dependencies := by
  obtain ⟨add, hadd⟩ := exists_withDependencies s
  rw [hadd, hadd, h]

/-- **A sweep hides no change.**  The sources that count as changed after it are those that counted
    before, and of the current ones those that it forgot, which it does only when their record is
    stale.  So what is generated again for the changed and the unresolved sources is all that was
    to be generated before, and besides that the forgotten sources and what depends on them. -/
theorem sweep_hides_no_change {l : Lockfile} (hdistinct : l.sources.names.Nodup) (maxAge : Int)
    (now : Moment) (s : Settings) (current : Ledger String) :
    (∀ x, x ∈ (l.afterSweep maxAge now).changedSources current ↔
      x ∈ l.changedSources current ∨ x ∈ current.names ∧ l.Forgets maxAge now x) ∧
    (∀ x, l.Forgets maxAge now x →
      ∃ r, l.sources.find? x = some r ∧ isStale r.fetchedAt maxAge now = .ok true) ∧
    ∀ x, x ∈ (pendingPlan (l.afterSweep maxAge now) s current).sourcesToRebuild ↔
      x ∈ (pendingPlan l s current).sourcesToRebuild ∨
        ∃ c ∈ current.names, l.Forgets maxAge now c ∧
          (x = c ∨ TransGen (Needs (withDependencies l s).dependencies) x c) := by
  have hchanged := Lockfile.mem_changedSources_afterSweep hdistinct maxAge now current
  refine ⟨hchanged, fun x hx => hx.stale hdistinct, fun x => ?_⟩
  -- Both plans follow the same dependencies, from changes of which the later ones are more.
  simp only [mem_sourcesToRebuild, List.mem_append, hchanged,
    dependencies_withDependencies_congr (l.dependencies_afterSweep maxAge now) s]
  constructor
  · rintro ⟨c, (hc | ⟨hcurrent, hforgets⟩) | hc, hx⟩
    · exact .inl ⟨c, .inl hc, hx⟩
    · exact .inr ⟨c, hcurrent, hforgets, hx⟩
    · exact .inl ⟨c, .inr hc, hx⟩
  · rintro (⟨c, hc, hx⟩ | ⟨c, hcurrent, hforgets, hx⟩)
    · exact ⟨c, hc.imp_left Or.inl, hx⟩
    · exact ⟨c, .inl (.inr ⟨hcurrent, hforgets⟩), hx⟩

/-! ### A source that was not fetched for long -/

section aged

/-- The record of a source that was fetched on a day of May. -/
def fetchedInMay (day : Nat) : SourceRecord :=
  ⟨"https://a.b/c", "main", "x", ⟨⟨2024, 5, day⟩, 12, 0, 0, 0, some 0⟩, [], []⟩

/-- An application with a fresh record that depends on an interface with an old one. -/
def agedLockfile : Lockfile :=
  { Lockfile.empty ⟨⟨2024, 5, 31⟩, 12, 0, 0, 0, some 0⟩ "1" with
    sources := [("api", fetchedInMay 1), ("app", fetchedInMay 31)]
    dependencies := [("app", ["api"])] }

/-- Noon on the first of June. -/
def noonInJune : Moment := ⟨⟨2024, 6, 1⟩, 12, 0, 0, 0, some 0⟩

/-- Both sources as they were recorded. -/
def unchanged : Ledger String := [("api", "x"), ("app", "x")]

/-- Nothing has changed, and still the application is generated again after a sweep. -/
theorem sweep_hides_no_change_of_aged :
    agedLockfile.sources.names.Nodup ∧ agedLockfile.Forgets 168 noonInJune "api" ∧
      (pendingPlan agedLockfile .default unchanged).sourcesToRebuild = [] ∧
      "app" ∈ (pendingPlan (agedLockfile.afterSweep 168 noonInJune) .default
        unchanged).sourcesToRebuild := by
  have hdistinct : agedLockfile.sources.names.Nodup := by decide
  have hforgets : agedLockfile.Forgets 168 noonInJune "api" :=
    ⟨by decide, by decide⟩
  have hneeds : Needs (withDependencies agedLockfile .default).dependencies "app" "api" :=
    ⟨["api"], by decide, by decide⟩
  obtain ⟨-, -, hrebuild⟩ :=
    sweep_hides_no_change hdistinct 168 noonInJune .default unchanged
  refine ⟨hdistinct, hforgets, by decide, (hrebuild "app").mpr (.inr ?_)⟩
  exact ⟨"api", by decide, hforgets, .inr (.single hneeds)⟩

end aged

end Command

end Regen
