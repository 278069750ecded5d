import Regen.Proofs.Command.History
import Regen.Proofs.Lockfile.Sweep

/-! # What cleaning up removes

    Cleaning up removes the records that are older than the greatest age allowed, and for an age of
    zero or more none of these is younger than an hour.  A command line cannot allow less than zero
    hours.  The settings can: then a record goes before it has become old. -/

namespace Regen

open Time

namespace Lockfile

/-- **What is not yet an hour old is fresh**, if zero hours or more are allowed and its age can be
    told. -/
theorem isFresh_of_young {maxAge : Int} {now t : Moment} (hage : ∃ age, ageHours t now = .ok age)
    (hallowed : 0 ≤ maxAge) (hyoung : now.instant - t.instant < hourMicros) :
    isFresh maxAge now t = true := by
  obtain ⟨age, hage⟩ := hage
  have hnone := age_nonpos hage hyoung
  exact isFresh_iff.mpr ⟨age, hage, by omega⟩

/-- A sweep that succeeds has told all ages. -/
theorem ages_of_sweep {l : Lockfile} {maxAge : Int} {now : Moment} {result : Lockfile × Bool}
    (h : l.sweep maxAge now = .ok result) :
    ∀ t ∈ l.recordTimes, ∃ age, ageHours t now = .ok age := by
  obtain ⟨sources, hsources, h⟩ := bind_eq_ok.mp h
  obtain ⟨files, hfiles, -⟩ := bind_eq_ok.mp h
  exact forall_mem_recordTimes.mpr ⟨ages_of_keepFresh hsources, ages_of_keepFresh hfiles⟩

end Lockfile

namespace Command

open Lockfile

section accepted
variable {arguments : List String} {config : Path} {lockfile : Option Path} {maxAge : Option Int}
  {dryRun yes : Bool}

theorem nonneg_of_ageOf {text : String} {hours : Int} (h : Arguments.ageOf text = .ok hours) :
    0 ≤ hours := by
  unfold Arguments.ageOf at h
  split at h
  · split at h
    · cases h
    · next hneg =>
      obtain rfl := Except.ok.inj h
      exact Int.not_lt.mp hneg
  · cases h

/-- **A command line allows no negative age.** -/
theorem nonneg_of_invocation
    (h : invocation arguments = .ok (.cleanup config lockfile maxAge dryRun yes)) :
    ∀ hours ∈ maxAge, 0 ≤ hours := by
  have harguments : ∀ name (a : Arguments),
      Invocation.ofArguments name a = .cleanup config lockfile maxAge dryRun yes →
      ∀ hours ∈ maxAge, 0 ≤ hours := by
    intro name a heq hours hmem
    cases name with
    | cleanup =>
      obtain ⟨-, -, rfl, -, -⟩ := Invocation.cleanup.inj heq
      obtain ⟨text, -, htext⟩ := Option.bind_eq_some_iff.mp hmem
      cases hage : Arguments.ageOf text with
      | ok n =>
        rw [hage] at htext
        exact Option.some.inj htext ▸ nonneg_of_ageOf hage
      | error stop =>
        rw [hage] at htext
        cases htext
    | _ => cases heq
  have hcommand : ∀ name rest,
      invocationOf name rest = .ok (.cleanup config lockfile maxAge dryRun yes) →
      ∀ hours ∈ maxAge, 0 ≤ hours := by
    intro name rest h
    obtain ⟨a, -, h⟩ := bind_eq_ok.mp h
    obtain ⟨_, -, h⟩ := bind_eq_ok.mp h
    exact harguments name a (Except.ok.inj h)
  obtain ⟨⟨name, rest⟩, -, h⟩ := bind_eq_ok.mp h
  dsimp only at h
  split at h
  · obtain ⟨⟨name, rest⟩, -, h⟩ := bind_eq_ok.mp h
    exact hcommand name rest h
  · exact hcommand name rest h

/-- **Cleaning up keeps what is not yet an hour old**, where zero hours or more are allowed.  It
    leaves the disk as it was, or it is no dry run and saves the lockfile with its fresh records
    only; among these are, for zero hours or more, all whose time is less than an hour ago or still
    to come.  A command line allows no less than that. -/
theorem cleanup_keeps_young
    (hinvocation : invocation arguments = .ok (.cleanup config lockfile maxAge dryRun yes))
    (input : List Char) (h : Host) :
    (∀ hours ∈ maxAge, 0 ≤ hours) ∧
    ((runTool arguments input h).2.disk = h.disk ∨
      ∃ s stored swept, Gives (openSettings config) (asked h input) s (asked h input) ∧
        dryRun = false ∧
        loadOrCreate h.disk (lockfilePath s lockfile) h.now h.toolVersion = .ok stored ∧
        swept = stored.restrict (isFresh (maxAge.getD s.maxAgeHours) h.now) ∧
        (runTool arguments input h).2.disk =
          (save h.disk (lockfilePath s lockfile) swept false).1 ∧
        (0 ≤ maxAge.getD s.maxAgeHours →
          (∀ e ∈ stored.sources, h.now.instant - e.2.fetchedAt.instant < hourMicros →
            e ∈ swept.sources) ∧
          ∀ e ∈ stored.files, h.now.instant - e.2.modifiedAt.instant < hourMicros →
            e ∈ swept.files)) := by
  refine ⟨nonneg_of_invocation hinvocation, ?_⟩
  rw [host_runTool hinvocation]
  rcases brings_cleaned (asked h input) rfl with hsame | ⟨hopen, hopens, hreal, hswept, hsaved⟩
  · exact .inl hsame
  · next s stored swept =>
    have hages := ages_of_sweep hswept
    obtain ⟨hsources, hfiles⟩ := forall_mem_recordTimes.mp hages
    obtain rfl : swept = _ :=
      congrArg Prod.fst (Except.ok.inj (hswept.symm.trans (sweep_of_ages hages)))
    refine .inr ⟨s, stored, _, hopen, hreal, hopens, rfl, hsaved, fun hallowed => ⟨?_, ?_⟩⟩
    · intro e he hyoung
      exact List.mem_filter.mpr ⟨he, isFresh_of_young (hsources e he) hallowed hyoung⟩
    · intro e he hyoung
      exact List.mem_filter.mpr ⟨he, isFresh_of_young (hfiles e he) hallowed hyoung⟩

end accepted

/-! ### A source that was fetched now -/

section ages

/-- A lockfile with one source. -/
def fetchedInJune : String := "\x7bschema_version: '1.0', generated_at: '2024-06-01', " ++
  "sources: \x7bapi: \x7burl: u, ref: r, fingerprint: x, fetched_at: '2024-06-01'\x7d\x7d\x7d"

/-- A machine on the first of June, with this lockfile and no settings but those of the
    environment. -/
def hostInJune (maxAge : Option String) : Host :=
  { twoSourcesHost with
    disk := ⟨[(lockPath.parts, .file fetchedInJune.toUTF8.toList 0)], []⟩
    now := ⟨⟨2024, 6, 1⟩, 0, 0, 0, 0, some 0⟩
    environment := ⟨none, maxAge⟩ }

theorem invocation_cleanupArguments :
    invocation cleanupArguments = .ok (.cleanup configPath none none false true) :=
  invocation_arguments.2

/-- The settings are accepted, and they name this lockfile and this age. -/
theorem exists_aged {h : Host} {hours : Int}
    (hopened : ((openSettings configPath).run.run h).1.toOption.any fun s =>
      lockfilePath s none == lockPath && s.maxAgeHours == hours) :
    ∃ s, Gives (openSettings configPath) h s h ∧ lockfilePath s none = lockPath ∧
      s.maxAgeHours = hours := by
  obtain ⟨s, hopen, hcheck⟩ := exists_opened hopened
  obtain ⟨hpath, hhours⟩ := Bool.and_eq_true_iff.mp hcheck
  exact ⟨s, hopen, eq_of_beq hpath, eq_of_beq hhours⟩

/-- Where the settings say nothing of an age, the source stays. -/
theorem cleanup_keeps_young_of_june :
    invocation cleanupArguments = .ok (.cleanup configPath none none false true) ∧
    ((runTool cleanupArguments [] (hostInJune none)).2.disk = (hostInJune none).disk ∨
      ∃ stored swept, loadOrCreate (hostInJune none).disk lockPath (hostInJune none).now
          (hostInJune none).toolVersion = .ok stored ∧
        (runTool cleanupArguments [] (hostInJune none)).2.disk =
          (save (hostInJune none).disk lockPath swept false).1 ∧
        ∀ e ∈ stored.sources,
          (hostInJune none).now.instant - e.2.fetchedAt.instant < hourMicros →
            e ∈ swept.sources) := by
  refine ⟨invocation_cleanupArguments, ?_⟩
  obtain ⟨s, hopen, hpath, hhours⟩ := @exists_aged (asked (hostInJune none) []) 168
    (by decide)
  obtain ⟨-, hsame | ⟨s', stored, swept, hopen', -, hopens, -, hsaved, hyoung⟩⟩ :=
    cleanup_keeps_young invocation_cleanupArguments [] (hostInJune none)
  · exact .inl hsame
  · obtain rfl : s = s' := Except.ok.inj (congrArg Prod.fst (hopen.symm.trans hopen'))
    rw [hpath] at hopens hsaved
    refine .inr ⟨stored, swept, hopens, hsaved, (hyoung ?_).1⟩
    show 0 ≤ s.maxAgeHours
    omega

/-- The environment allows less than zero hours. -/
def hastyHost : Host := hostInJune (some "-1")

/-- What the settings say there. -/
def hastySettings : Settings := { Settings.default with maxAgeHours := -1 }

set_option maxRecDepth 3000 in
/-- **With a negative age in the settings a record is removed in the moment it was made.** -/
theorem cleanup_evicts_young :
    ∃ s stored swept r,
      Gives (openSettings configPath) (asked hastyHost []) s (asked hastyHost []) ∧
      s.maxAgeHours = -1 ∧
      loadOrCreate hastyHost.disk lockPath hastyHost.now hastyHost.toolVersion = .ok stored ∧
      ("api", r) ∈ stored.sources ∧ hastyHost.now.instant - r.fetchedAt.instant = 0 ∧
      (runTool cleanupArguments [] hastyHost).2.disk =
        (save hastyHost.disk lockPath swept false).1 ∧
      swept.sources = [] ∧
      contentAt (runTool cleanupArguments [] hastyHost).2.disk lockPath ≠
        contentAt hastyHost.disk lockPath := by
  have htext : fetchedInJune.toUTF8.toList = _ := Text.toUTF8_toList String.ofList_append.symm
  have hopen : Gives (openSettings configPath) (asked hastyHost []) hastySettings
    (asked hastyHost []) := gives_of_opened (by decide)
  have hpath : lockfilePath hastySettings none = lockPath := by decide
  have hswept : (loadOrCreate hastyHost.disk lockPath hastyHost.now
      hastyHost.toolVersion).toOption.any fun stored =>
    (stored.sources.map fun e => (e.1, hastyHost.now.instant - e.2.fetchedAt.instant)) ==
        [("api", 0)] &&
      (stored.sweep (-1) hastyHost.now).toOption.any (·.1.sources.isEmpty) := by
    rw [hastyHost, hostInJune, htext]
    decide +kernel
  have hwritten : contentAt (runTool cleanupArguments [] hastyHost).2.disk lockPath ≠
      contentAt hastyHost.disk lockPath := by
    rw [host_runTool invocation_cleanupArguments, perform, cleanup, hopen.run_bind, hastyHost,
      hostInJune, htext]
    decide +kernel
  obtain ⟨stored, hstored, hcheck⟩ := exists_ok_of_any hswept
  obtain ⟨hsources, hsweep⟩ := Bool.and_eq_true_iff.mp hcheck
  obtain ⟨⟨name, r⟩, hr, hnone⟩ := List.map_eq_singleton_iff.mp (eq_of_beq hsources)
  obtain ⟨rfl, hyoung⟩ := Prod.mk.inj hnone
  have hcleaned : Cleaned (asked hastyHost []) configPath none none false
      (runTool cleanupArguments [] hastyHost).2.disk := by
    rw [host_runTool invocation_cleanupArguments]
    exact brings_cleaned (asked hastyHost []) rfl
  rcases hcleaned with hsame | ⟨hopen', hopens, -, hswept, hsaved⟩
  · exact absurd (congrArg (contentAt · lockPath) hsame) hwritten
  · next s' stored' swept =>
    obtain rfl : hastySettings = s' :=
      Except.ok.inj (congrArg Prod.fst (hopen.symm.trans hopen'))
    rw [hpath] at hopens hsaved
    obtain rfl : stored = stored' := Except.ok.inj (hstored.symm.trans hopens)
    refine ⟨_, stored, swept, r, hopen, rfl, hstored, ?_, hyoung, hsaved, ?_, hwritten⟩
    · rw [hr]
      exact List.mem_singleton_self _
    · rw [show stored.sweep (-1) hastyHost.now = .ok (swept, true) from hswept] at hsweep
      exact List.isEmpty_iff.mp hsweep

end ages

end Command

end Regen
