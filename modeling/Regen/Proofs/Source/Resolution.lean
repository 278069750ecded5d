import Regen.Proofs.Ledger
import Regen.Proofs.Source.Asked
import Regen.Proofs.Value.Faults

/-! # Resolving sources

    Sources are resolved one after the other.  A failure of one is either noted or ends the whole;
    nothing else tells the two ways apart, so they ask the same questions up to the first failure.
    What neither of them notes is a local path that the disk refuses to look at. -/

namespace Regen

/-! ## One source -/

/-- **A local path that cannot be looked at**: asking the disk for it fails. -/
def Source.Breaks (s : Source) (d : Disk) (f : Failure) : Prop :=
  Url.isRemote s.git.url = false ∧ repository? d s.git.url = .error f

/-- A failure that resolving notes or names. -/
def Failure.IsNoted (f : Failure) : Prop := ∃ cause, f = .fingerprint cause

section source
variable {s : Source} {d : Disk} {a : GitAnswer} {f : Failure} {commit : String}

/-- What the disk refuses: a path with a null, links in a circle, or a name that is too long. -/
theorem breaks_cases (h : s.Breaks d f) :
    (f = .value .nullInPath ∧ Disk.holdsNull (Path.ofText s.git.url)) ∨
      (∃ path, f = .linkCircle path) ∨ ∃ fault, f = .disk fault ∧ ¬Disk.isAbsence fault := by
  obtain ⟨-, h⟩ := h
  unfold repository? at h
  cases hreal : resolvePath d (Path.ofText s.git.url) with
  | error e =>
    rw [hreal] at h
    obtain rfl : e = f := Except.error.inj h
    unfold resolvePath at hreal
    split at hreal
    · next hnull => exact .inl ⟨(Except.error.inj hreal).symm, hnull⟩
    · dsimp only at hreal
      split at hreal
      · exact .inr (.inl ⟨_, (Except.error.inj hreal).symm⟩)
      · cases hreal
  | ok real =>
    rw [hreal] at h
    dsimp only at h
    unfold isFolder Disk.isFolder? Disk.lookUp at h
    split at h
    · cases h
    · split at h
      · cases h
      · cases h
      · next fault _ =>
        by_cases habsent : Disk.isAbsence fault
        · rw [if_pos habsent] at h
          cases h
        · rw [if_neg habsent] at h
          exact .inr (.inr ⟨fault, (Except.error.inj h).symm, habsent⟩)

theorem not_noted_of_breaks (h : s.Breaks d f) : ¬f.IsNoted := by
  intro hnoted
  obtain ⟨cause, hcause⟩ := hnoted
  subst hcause
  cases breaks_cases h with
  | inl hnull => cases hnull.1
  | inr hrest =>
    cases hrest with
    | inl hcircle =>
      obtain ⟨path, hpath⟩ := hcircle
      cases hpath
    | inr hdisk =>
      obtain ⟨fault, hfault, -⟩ := hdisk
      cases hfault

theorem failsOnly_heard (command : String) :
    FailsOnly Failure.IsNoted (a.heard command) := by
  cases a with
  | output text => exact .ok text
  | refusal stderr => exact .error ⟨_, rfl⟩
  | missing => exact .error ⟨_, rfl⟩

/-- A source fails for a reason that is noted, or its path cannot be looked at. -/
theorem failsOnly_comesTo : FailsOnly (fun f => f.IsNoted ∨ s.Breaks d f) (s.comesTo d a) := by
  have hheard : ∀ command, FailsOnly (fun f => f.IsNoted ∨ s.Breaks d f) (a.heard command) :=
    fun command => (failsOnly_heard command).mono fun _ => .inl
  have hcommit : FailsOnly (fun f => f.IsNoted ∨ s.Breaks d f) (s.commit d a) := by
    unfold Source.commit
    by_cases hremote : Url.isRemote s.git.url
    · rw [if_pos hremote]
      refine .ite (.ok _) (FailsOnly.bind (hheard _) fun output _ => ?_)
      unfold commitIn
      split
      · exact .ok _
      · exact .error (.inl ⟨_, rfl⟩)
    · rw [if_neg hremote]
      split
      · exact (hheard _).map
      · exact .error (.inl ⟨_, rfl⟩)
      · next f hf => exact .error (.inr ⟨by simpa using hremote, hf⟩)
  refine FailsOnly.bind hcommit fun commit _ => ?_
  exact .ite (.error (.inl ⟨_, rfl⟩)) (.ok _)

theorem ne_empty_of_comesTo (h : s.comesTo d a = .ok commit) : commit ≠ "" := by
  obtain ⟨c, -, hc⟩ := bind_eq_ok.mp h
  unfold Source.nonempty at hc
  split at hc
  · cases hc
  · next hne =>
    obtain rfl := Except.ok.inj hc
    simpa using hne

theorem comesTo_of_breaks (h : s.Breaks d f) : s.comesTo d a = .error f := by
  obtain ⟨hlocal, hf⟩ := h
  unfold Source.comesTo Source.commit
  rw [if_neg (by simp [hlocal]), hf]
  rfl

/-- Where a path cannot be looked at, no question is asked. -/
theorem after_of_breaks {h : Host} (hbreaks : s.Breaks h.disk f) : h.after s = h := by
  obtain ⟨hlocal, hf⟩ := hbreaks
  unfold Host.after Source.question?
  rw [if_neg (by simp [hlocal]), hf]

end source

theorem calls_after (h : Host) (s : Source) :
    (h.after s).calls = h.calls ++ (s.question? h.disk).toList := by
  unfold Host.after
  cases s.question? h.disk with
  | some call => simp
  | none => simp

/-! ## One step -/

section step
variable {s : Source} {rest : List Source} {r : Resolution} {h : Host} {failFast : Bool}
  {commit : String} {cause : FingerprintFault} {f : Failure}

theorem gives_outcome (s : Source) (h : Host) :
    Gives s.fingerprint.outcome h (s.comesTo h.disk h.answer) (h.after s) := by
  have hrun := run_fingerprint s h
  exact Prod.ext (congrArg Except.ok (congrArg Prod.fst hrun :)) (congrArg Prod.snd hrun :)

/-- A source that is resolved gets its commit. -/
theorem run_resolved (hcommit : s.comesTo h.disk h.answer = .ok commit) :
    (resolveFrom failFast r (s :: rest)).run.run h =
      (resolveFrom failFast { r with fingerprints := r.fingerprints.insert s.name commit }
        rest).run.run (h.after s) := by
  have hstep := gives_outcome s h
  rw [hcommit] at hstep
  exact hstep.run_bind

/-- A source that fails is noted. -/
theorem run_noted (hcause : s.comesTo h.disk h.answer = .error (.fingerprint cause)) :
    (resolveFrom false r (s :: rest)).run.run h =
      (resolveFrom false { r with failures := r.failures.insert s.name cause }
        rest).run.run (h.after s) := by
  have hstep := gives_outcome s h
  rw [hcause] at hstep
  exact hstep.run_bind

/-- A source that fails ends all, and it is named. -/
theorem stops_named (hcause : s.comesTo h.disk h.answer = .error (.fingerprint cause)) :
    Stops (resolveFrom true r (s :: rest)) h (.fingerprint (.ofSource s.name cause))
      (h.after s) := by
  have hstep := gives_outcome s h
  rw [hcause] at hstep
  exact hstep.run_bind

/-- A path that cannot be looked at ends all either way. -/
theorem stops_broken (hbreaks : s.Breaks h.disk f) :
    Stops (resolveFrom failFast r (s :: rest)) h f h := by
  have hstep := gives_outcome s h
  rw [comesTo_of_breaks hbreaks, after_of_breaks hbreaks] at hstep
  have hnot := not_noted_of_breaks hbreaks
  refine hstep.run_bind.trans ?_
  cases f with
  | fingerprint cause => exact absurd ⟨cause, rfl⟩ hnot
  | _ => rfl

end step

/-! ## All sources -/

/-- **Sources were tried one after the other**: `r` is what they came to, in their order. -/
inductive Tried : Host → List Source → Resolution → Host → Prop where
  | none (h : Host) : Tried h [] ⟨[], []⟩ h
  | resolved {h h' : Host} {s : Source} {rest : List Source} {r : Resolution} {commit : String}
      (hcommit : s.comesTo h.disk h.answer = .ok commit) (hrest : Tried (h.after s) rest r h') :
      Tried h (s :: rest) ⟨(s.name, commit) :: r.fingerprints, r.failures⟩ h'
  | noted {h h' : Host} {s : Source} {rest : List Source} {r : Resolution}
      {cause : FingerprintFault}
      (hcause : s.comesTo h.disk h.answer = .error (.fingerprint cause))
      (hrest : Tried (h.after s) rest r h') :
      Tried h (s :: rest) ⟨r.fingerprints, (s.name, cause) :: r.failures⟩ h'

/-- What sources came to first, and then what others did. -/
def Resolution.followedBy (r r' : Resolution) : Resolution :=
  ⟨r.fingerprints ++ r'.fingerprints, r.failures ++ r'.failures⟩

/-- None of the sources has a name that is in one of the maps. -/
def Resolution.NewTo (r : Resolution) (sources : List Source) : Prop :=
  ∀ s ∈ sources, s.name ∉ r.fingerprints.names ∧ s.name ∉ r.failures.names

section tried
variable {h h' h₁ : Host} {sources before after : List Source} {s : Source}
  {r r₀ r₁ : Resolution} {f : Failure}

/-- Calls of git are only added. -/
theorem Tried.calls (htried : Tried h sources r h') : h.calls <+: h'.calls := by
  have hstep : ∀ h s, h.calls <+: (Host.after h s).calls := by
    intro h s
    rw [calls_after]
    exact List.prefix_append _ _
  induction htried with
  | none h => exact List.prefix_refl _
  | resolved _ _ ih => exact (hstep _ _).trans ih
  | noted _ _ ih => exact (hstep _ _).trans ih

theorem Resolution.followedBy_none (r : Resolution) : r.followedBy ⟨[], []⟩ = r := by
  show Resolution.mk (r.fingerprints ++ []) (r.failures ++ []) = r
  rw [List.append_nil, List.append_nil]

theorem Resolution.NewTo.tail (hnew : r₀.NewTo (s :: sources)) : r₀.NewTo sources :=
  fun x hx => hnew x (List.mem_cons_of_mem _ hx)

/-- A later source has a name of its own, also when this one is in a map. -/
theorem name_ne_of_nodup (hdistinct : ((s :: sources).map (·.name)).Nodup) {x : Source}
    (hx : x ∈ sources) : x.name ≠ s.name := by
  intro heq
  rw [List.map_cons, List.nodup_cons] at hdistinct
  exact hdistinct.1 (heq ▸ List.mem_map_of_mem hx)

/-- With a failure on the way it can only be that failures are noted. -/
theorem notes_of_failure {failFast : Bool} {e : String × FingerprintFault}
    {others : Ledger FingerprintFault} (hmode : failFast → e :: others = []) :
    failFast = false := by
  by_contra hfast
  exact absurd (hmode (by simpa using hfast)) (List.cons_ne_nil _ _)

/-- Where failures are noted, or where there are none, all sources are gone through. -/
theorem Tried.run {failFast : Bool} (htried : Tried h sources r h')
    (hmode : failFast → r.failures = []) (hdistinct : (sources.map (·.name)).Nodup)
    (hnew : r₀.NewTo sources) :
    Gives (resolveFrom failFast r₀ sources) h (r₀.followedBy r) h' := by
  induction htried generalizing r₀ with
  | none h =>
    rw [Resolution.followedBy_none]
    exact gives_pure.mpr ⟨rfl, rfl⟩
  | @resolved h h' s rest r commit hcommit _ ih =>
    have hs := hnew s List.mem_cons_self
    have hrest :
        (Resolution.mk (r₀.fingerprints ++ [(s.name, commit)]) r₀.failures).NewTo rest := by
      intro x hx
      have hne := name_ne_of_nodup hdistinct hx
      have hx := hnew.tail x hx
      exact ⟨by simpa [Ledger.names, hne] using hx.1, hx.2⟩
    have hgives := ih hmode (List.nodup_cons.mp hdistinct).2 hrest
    rw [Gives, run_resolved hcommit, Ledger.insert_of_not_mem hs.1]
    refine hgives.trans ?_
    simp [Resolution.followedBy]
  | @noted h h' s rest r cause hcause _ ih =>
    obtain rfl := notes_of_failure hmode
    have hs := hnew s List.mem_cons_self
    have hrest : (Resolution.mk r₀.fingerprints (r₀.failures ++ [(s.name, cause)])).NewTo rest := by
      intro x hx
      have hne := name_ne_of_nodup hdistinct hx
      have hx := hnew.tail x hx
      exact ⟨hx.1, by simpa [Ledger.names, hne] using hx.2⟩
    have hgives := ih (by simp) (List.nodup_cons.mp hdistinct).2 hrest
    rw [Gives, run_noted hcause, Ledger.insert_of_not_mem hs.2]
    refine hgives.trans ?_
    simp [Resolution.followedBy]

/-- Where they cannot all be gone through, the run ends at the path that cannot be looked at. -/
theorem Tried.stops_broken {failFast : Bool} (htried : Tried h before r h₁)
    (hmode : failFast → r.failures = []) (hbreaks : s.Breaks h₁.disk f) :
    Stops (resolveFrom failFast r₀ (before ++ s :: after)) h f h₁ := by
  induction htried generalizing r₀ with
  | none h => exact Regen.stops_broken hbreaks
  | resolved hcommit _ ih => exact (run_resolved hcommit).trans (ih hmode hbreaks)
  | noted hcause _ ih =>
    obtain rfl := notes_of_failure hmode
    exact (run_noted hcause).trans (ih (by simp) hbreaks)

end tried

/-! ## The two ways -/

theorem newTo_empty (sources : List Source) : Resolution.NewTo ⟨[], []⟩ sources :=
  fun _ _ => ⟨List.not_mem_nil, List.not_mem_nil⟩

section ways
variable {h h' : Host} {sources : List Source} {r : Resolution}

theorem Tried.resolveAll {failFast : Bool} (htried : Tried h sources r h')
    (hmode : failFast → r.failures = []) (hdistinct : (sources.map (·.name)).Nodup) :
    Gives (resolveAll sources failFast) h r h' :=
  htried.run hmode hdistinct (newTo_empty sources)

end ways

section runs

end runs

end Regen
