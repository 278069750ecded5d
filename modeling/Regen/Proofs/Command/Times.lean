import Regen.Proofs.Command.Failing
import Regen.Proofs.Command.Reports
import Regen.Proofs.Lockfile.RoundTrip
import Regen.Proofs.Source.Asked
import Regen.Proofs.Time.Shown

/-! # Times that are shown

    Two panels tell when a lockfile was generated and call the time universal.  They show the
    lockfile's time on its own clock, whatever the offset that it was read with.  So the time that
    is shown is universal only if it was written so, or if the lockfile was saved since: what is
    saved is in universal time. -/

namespace Regen

open Time Console Markup

/-! ## What is printed -/

/-- What was printed stays printed. -/
def Since (text : String) (h : Host) : Prop := ∃ more, h.printed = text ++ more

/-- **A text was added** to what was printed before. -/
def Adds (h h' : Host) (text : String) : Prop :=
  ∃ before after, h'.printed = h.printed ++ before ++ text ++ after

section printed
variable {h h₁ h₂ h' : Host} {text : String}

theorem Since.refl (h : Host) : Since h.printed h := ⟨"", String.append_empty.symm⟩

theorem aloof_since (text : String) : Aloof (Since text) := by
  rintro h more input clock calls ⟨old, hold⟩
  exact ⟨old ++ more, by rw [← String.append_assoc, ← hold]⟩

theorem answered_since (text : String) : Answered (Since text) := fun _ _ _ _ hI => hI

/-- Text that was added is still there when more was printed around it. -/
theorem Adds.around (hadds : Adds h₁ h₂ text) (hfirst : Since h.printed h₁)
    (hlast : Since h₂.printed h') : Adds h h' text := by
  obtain ⟨old, hold⟩ := hfirst
  obtain ⟨before, after, hadds⟩ := hadds
  obtain ⟨more, hmore⟩ := hlast
  refine ⟨old ++ before, after ++ more, ?_⟩
  rw [hmore, hadds, hold]
  simp only [String.append_assoc]

end printed

namespace Command

variable {h h' : Host}

/-- What was printed is there after a computation that keeps it. -/
theorem since_of_gives {α : Type} {c : Command α} {x : α}
    (hkeeps : ∀ text, Keeps (Since text) c) (hrun : Gives c h x h') : Since h.printed h' := by
  have hsince := hkeeps h.printed h (.refl h)
  rwa [hrun] at hsince

theorem gives_showStyles {rs : List Rendered} (hrun : Gives (showStyles rs) h () h') : h = h' := by
  unfold showStyles at hrun
  split at hrun
  · exact absurd hrun not_gives_throw
  · exact (gives_pure.mp hrun).2

/-- The line of a panel that says when something was and calls the time universal, with `n` blanks
    at its end. -/
def utcLine (label : String) (t : Moment) (n : Nat) : String :=
  "│ " ++ (label ++ t.secondText ++ " UTC") ++ String.ofList (blanks n) ++ " │\n"

/-- **A panel shows a simple line as it is**, if no tag is in front of it. -/
theorem adds_of_sayPanel {title line : String} {before after : List String}
    (hbefore : ∀ t ∈ before, Bare t) (hline : Simple line.toList) (hafter : after ≠ [])
    (hrun : Gives (sayPanel title (before ++ line :: after)) h () h') :
    ∃ n, Adds h h' ("│ " ++ line ++ String.ofList (blanks n) ++ " │\n") := by
  obtain ⟨r, h₁, hrendered, hrun⟩ := gives_bind.mp hrun
  obtain ⟨hrender, rfl⟩ := gives_ofExcept.mp hrendered
  obtain ⟨_, h₂, hstyles, hrun⟩ := gives_bind.mp hrun
  obtain rfl := gives_showStyles hstyles
  obtain ⟨-, rfl⟩ := Prod.mk.inj hrun
  obtain ⟨n, hmem⟩ :=
    exists_panel_line title hline (standsIn_of_render hbefore hline hafter hrender)
  obtain ⟨front, back, hpanel⟩ := List.append_of_mem hmem
  refine ⟨n, String.join (front.map fun cs => String.ofList (cs ++ ['\n'])),
    String.join (back.map fun cs => String.ofList (cs ++ ['\n'])), ?_⟩
  apply String.toList_inj.mp
  simp [hpanel]

/-- The line with a time is simple if its label is. -/
theorem simple_utc {label : String} (hlabel : Simple label.toList) (t : Moment) :
    Simple (label ++ t.secondText ++ " UTC").toList := by
  rw [String.toList_append, String.toList_append]
  exact (hlabel.append (simple_secondText t)).append (by decide)

/-! ## The two panels -/

section panels
variable {config : Path} {lockfile : Option Path} {s : Settings} {l : Lockfile}

/-- A lockfile that can be loaded is the one that a command opens. -/
theorem gives_openLockfile_of_load {p : Path} (hload : Lockfile.load h.disk p = .ok l) :
    Gives (openLockfile p) h l h := by
  refine gives_openLockfile.mpr ⟨?_, rfl⟩
  rw [Lockfile.loadOrCreate, hload]

/-- **The status of a lockfile** says when it was generated, on the clock of its time. -/
theorem adds_of_lockStatus (hopen : Gives (openSettings config) h s h)
    (hload : Lockfile.load h.disk (lockfilePath s lockfile) = .ok l)
    (hpath : Bare (lockfilePath s lockfile).text)
    (hrun : Gives (lockStatus config lockfile) h () h') :
    ∃ n, Adds h h' (utcLine "Generated:     " l.generatedAt n) := by
  have hrun := hopen.run_bind.symm.trans hrun
  obtain ⟨found, _, hfound, hrun⟩ := gives_bind.mp hrun
  obtain ⟨-, rfl⟩ := gives_pathExists.mp hfound
  dsimp only at hrun
  split at hrun
  · obtain ⟨_, _, hexit, -⟩ := gives_bind.mp hrun
    exact absurd hexit not_gives_sayAndExit
  · have hrun := (gives_openLockfile_of_load hload).run_bind.symm.trans hrun
    obtain ⟨revision, _, hrevision, hrun⟩ := gives_bind.mp hrun
    obtain ⟨-, rfl⟩ := gives_ofExcept.mp hrevision
    obtain ⟨_, h₁, hpanel, hrun⟩ := gives_bind.mp hrun
    have hlast := since_of_gives (fun text => keeps_showRecorded (aloof_since text) l) hrun
    have hbefore : ∀ t ∈ [s!"Lockfile:      {(lockfilePath s lockfile).text}"], Bare t := by
      intro t ht
      obtain rfl := List.mem_singleton.mp ht
      exact bare_append.mpr ⟨by decide, hpath⟩
    obtain ⟨n, hadds⟩ := adds_of_sayPanel hbefore (simple_utc (by decide) l.generatedAt)
      (List.cons_ne_nil _ _) hpanel
    exact ⟨n, hadds.around (.refl h) hlast⟩

/-- The first line for a lockfile that records something is that of its time. -/
theorem exists_statusLines (l : Lockfile) (configured : Nat) (plan : Plan) (millis : String) :
    ∃ rest, rest ≠ [] ∧ statusLines l true configured plan millis =
      ("Last generation:     " ++ l.generatedAt.secondText ++ " UTC") :: rest := by
  simp only [statusLines, if_true, List.cons_append, String.append_assoc]
  exact ⟨_, List.cons_ne_nil _ _, rfl⟩

/-- The panel of a status says when the last generation was, if there was one. -/
theorem adds_of_showStatus {p : Path} {configured : Nat} {plan : Plan} (hsources : l.sources ≠ [])
    (hfile : fileExists h.disk p = .ok true)
    (hrun : Gives (showStatus p l configured plan) h () h') :
    ∃ n, Adds h h' (utcLine "Last generation:     " l.generatedAt n) := by
  have hrun := (gives_pathExists.mpr ⟨hfile, rfl⟩).run_bind.symm.trans hrun
  obtain ⟨millis, _, hmillis, hrun⟩ := gives_bind.mp hrun
  obtain ⟨-, rfl⟩ := gives_ofExcept.mp hmillis
  have hrecorded : (true && !l.sources.isEmpty) = true := by
    rw [Bool.true_and, Bool.not_eq_true', ← Bool.not_eq_true, List.isEmpty_iff]
    exact hsources
  obtain ⟨rest, hrest, hlines⟩ := exists_statusLines l configured plan millis
  rw [hrecorded, hlines] at hrun
  have hbefore : ∀ t ∈ ([] : List String), Bare t := fun t ht => absurd ht List.not_mem_nil
  exact adds_of_sayPanel hbefore (simple_utc (by decide) l.generatedAt) hrest hrun

/-- **The status of a project** says when the last generation was, on the clock of its time. -/
theorem adds_of_status {fingerprints : Option Path} {detailed : Bool}
    (hopen : Gives (openSettings config) h s h)
    (hload : Lockfile.load h.disk (lockfilePath s lockfile) = .ok l) (hsources : l.sources ≠ [])
    (hrun : Gives (status config lockfile fingerprints detailed) h () h')
    (hfile : fileExists h'.disk (lockfilePath s lockfile) = .ok true) :
    ∃ n, Adds h h' (utcLine "Last generation:     " l.generatedAt n) := by
  have hrun := hopen.run_bind.symm.trans hrun
  have hrun := (gives_openLockfile_of_load hload).run_bind.symm.trans hrun
  obtain ⟨current, h₁, hcurrent, hrun⟩ := gives_bind.mp hrun
  obtain ⟨_, h₂, hpanel, hrun⟩ := gives_bind.mp hrun
  generalize (withDependencies l s).plan ((withDependencies l s).changedSources current ++
    unresolvedSources s current) = plan at hpanel
  have hstatistics : ∀ {I : Host → Prop}, Aloof I → Keeps I
      (if detailed then showStatistics (withDependencies l s).statistics else pure ()) := by
    intro I haloof
    split
    · exact keeps_showStatistics haloof _
    · exact .pure _
  -- Nothing is done to the disk once the fingerprints are known.
  have hdisk : h'.disk = h₁.disk := by
    have haloof : Aloof fun k => k.disk = h₁.disk := fun _ _ _ _ _ hI => hI
    have hstatus := keeps_showStatus haloof (lockfilePath s lockfile) (withDependencies l s)
      s.sources.length plan h₁ rfl
    rw [hpanel] at hstatus
    have hlast := hstatistics haloof h₂ hstatus
    rwa [hrun] at hlast
  rw [hdisk] at hfile
  obtain ⟨add, hadd⟩ := exists_withDependencies s
  rw [hadd] at hpanel
  obtain ⟨n, hadds⟩ := adds_of_showStatus hsources hfile hpanel
  have hfirst := since_of_gives
    (fun text => keeps_currentFingerprints (aloof_since text) (answered_since text) s fingerprints)
    hcurrent
  exact ⟨n, hadds.around hfirst (since_of_gives (fun text => hstatistics (aloof_since text)) hrun)⟩

/-- A lockfile that is loaded, saved and loaded again tells its time in universal time. -/
theorem exists_saved {d d' : Disk} {p : Path} {l' : Lockfile} (hload : Lockfile.load d p = .ok l)
    (hsave : Lockfile.save d p l false = (d', .ok l'))
    (hfree : ∀ d₁, d.makeFolders p.parent = (d₁, .ok ()) → d₁.HasFreeEnd p)
    (hback : l.next.GivenBack Value.Alike) :
    ∃ m, Lockfile.load d' p = .ok m ∧ l.generatedAt.toUtc = .ok m.generatedAt := by
  obtain ⟨v, -, hl⟩ := Lockfile.ofDocument_of_load hload
  obtain ⟨hwell, -⟩ := Lockfile.of_ofDocument hl
  obtain ⟨-, content, hcontent, hfile⟩ := Lockfile.contentAt_of_save hsave hfree
  obtain ⟨m, hrel, hloads⟩ := Lockfile.exists_load Value.readsBack_alike hwell.next hcontent hback
  exact ⟨m, hloads hfile, hrel.generatedAt⟩

/-- **What is called universal time is the time on the lockfile's own clock.**  Both panels show
    that, and it is the universal time only if the lockfile was written in it.  After a save the
    lockfile tells its time in universal time, so that another time is shown then unless the two
    were the same. -/
theorem generatedAt_shown_on_own_clock (hopen : Gives (openSettings config) h s h)
    (hload : Lockfile.load h.disk (lockfilePath s lockfile) = .ok l) :
    ((∃ u, l.generatedAt.toUtc = .ok u ∧ u.secondText = l.generatedAt.secondText) ↔
      l.generatedAt.offset = some 0) ∧
    (∀ h', Gives (lockStatus config lockfile) h () h' → Bare (lockfilePath s lockfile).text →
      ∃ n, Adds h h' (utcLine "Generated:     " l.generatedAt n)) ∧
    (∀ fingerprints detailed h', Gives (status config lockfile fingerprints detailed) h () h' →
      l.sources ≠ [] → fileExists h'.disk (lockfilePath s lockfile) = .ok true →
      ∃ n, Adds h h' (utcLine "Last generation:     " l.generatedAt n)) ∧
    ∀ d' l', Lockfile.save h.disk (lockfilePath s lockfile) l false = (d', .ok l') →
      (∀ d₁, h.disk.makeFolders (lockfilePath s lockfile).parent = (d₁, .ok ()) →
        d₁.HasFreeEnd (lockfilePath s lockfile)) →
      l.next.GivenBack Value.Alike →
      ∃ m, Lockfile.load d' (lockfilePath s lockfile) = .ok m ∧
        l.generatedAt.toUtc = .ok m.generatedAt ∧
        (m.generatedAt.secondText = l.generatedAt.secondText ↔ l.generatedAt.offset = some 0) := by
  obtain ⟨hwritten, hoffset⟩ := Lockfile.generatedAt_of_load hload
  obtain ⟨o, ho⟩ := Option.isSome_iff_exists.mp hoffset
  have hutc := hwritten.secondText_toUtc_iff ho
  have hsome : l.generatedAt.offset = some 0 ↔ o = 0 := by rw [ho, Option.some.injEq]
  rw [hsome]
  refine ⟨hutc, fun h' hrun hpath => adds_of_lockStatus hopen hload hpath hrun,
    fun _ _ h' hrun hsources hfile => adds_of_status hopen hload hsources hrun hfile, ?_⟩
  intro d' l' hsave hfree hback
  obtain ⟨m, hm, htime⟩ := exists_saved hload hsave hfree hback
  refine ⟨m, hm, htime, ?_⟩
  rw [← hutc]
  constructor
  · exact fun htext => ⟨m.generatedAt, htime, htext⟩
  · rintro ⟨u, hu, htext⟩
    obtain rfl := Except.ok.inj (htime.symm.trans hu)
    exact htext

end panels

/-! ### A lockfile that was written east of universal time -/

/-- A lockfile that was generated at noon on a clock two hours ahead. -/
def eastern : String := "schema_version: '1.0'
generated_at: 2024-06-01T12:00:00+02:00
sources: \x7ba: \x7burl: u, ref: r, fingerprint: x, fetched_at: 2024-06-01\x7d\x7d"

/-- A machine with that lockfile and without settings. -/
def easternHost : Host :=
  answeringHost [(Lockfile.lockPath.parts, .file eastern.toUTF8.toList 0)] []

/-- Was a lockfile generated two hours ahead of universal time, and does it record a source? -/
def isEastern (l : Lockfile) : Bool :=
  l.generatedAt == ⟨⟨2024, 6, 1⟩, 12, 0, 0, 0, some 7200000000⟩ && !l.sources.isEmpty

/-- Without settings both commands show it, since nothing that they quote has a bracket. -/
def IsQuotedBare (l : Lockfile) : Prop :=
  RecordedBare (lockfilePath Settings.default none) l ∧
    StatusBare (withDependencies l Settings.default) (pendingPlan l Settings.default [])

instance (l : Lockfile) : Decidable (IsQuotedBare l) := inferInstanceAs (Decidable (_ ∧ _))

set_option maxRecDepth 3000 in
/-- No settings are there, and that lockfile is read; both commands run to their end. -/
theorem eastern_facts :
    Gives (openSettings configPath) easternHost Settings.default easternHost ∧
    (∃ l, Lockfile.load easternHost.disk (lockfilePath Settings.default none) = .ok l ∧
      l.sources ≠ [] ∧ l.generatedAt = ⟨⟨2024, 6, 1⟩, 12, 0, 0, 0, some 7200000000⟩) ∧
    (∃ h', Gives (lockStatus configPath none) easternHost () h') ∧
    ∃ h', Gives (status configPath none none false) easternHost () h' ∧
      fileExists h'.disk (lockfilePath Settings.default none) = .ok true := by
  have hopen : Gives (openSettings configPath) easternHost Settings.default easternHost :=
    gives_of_opened (by decide)
  have hfile : fileExists easternHost.disk (lockfilePath Settings.default none) = .ok true := by
    decide +kernel
  have hloaded : (Lockfile.load easternHost.disk (lockfilePath Settings.default none)).toOption.any
      fun l => isEastern l && decide (IsQuotedBare l) := by
    have htext : eastern.toUTF8.toList = _ := Text.toUTF8_toList rfl
    rw [easternHost, htext]
    decide +kernel
  obtain ⟨l, hload, hl⟩ := exists_ok_of_any hloaded
  rw [Bool.and_eq_true, decide_eq_true_eq] at hl
  obtain ⟨heastern, hrecorded, hquoted⟩ := hl
  rw [isEastern, Bool.and_eq_true, beq_iff_eq, Bool.not_eq_true', ← Bool.not_eq_true,
    List.isEmpty_iff] at heastern
  have hopened := gives_openLockfile_of_load hload
  obtain ⟨h₁, hlock, -⟩ := gives_lockStatus hopen hfile (gives_openLockfile.mp hopened).1 hrecorded
  -- There are no sources to ask, and what is shown leaves the disk alone.
  have hcurrent : Gives (currentFingerprints Settings.default none) easternHost [] easternHost :=
    rfl
  have hshown : StatusShown easternHost.disk (lockfilePath Settings.default none)
      (withDependencies l Settings.default) 0 (pendingPlan l Settings.default []) :=
    hquoted.shown hfile
  obtain ⟨h₂, hshows, text, rfl⟩ := gives_showStatus hshown
  refine ⟨hopen, ⟨l, hload, heastern.2, heastern.1⟩, ⟨h₁, hlock⟩,
    { easternHost with printed := text }, ?_, hfile⟩
  refine hopen.run_bind.trans (hopened.run_bind.trans (hcurrent.run_bind.trans ?_))
  exact hshows.run_bind

/-- Both panels show noon, which is not the universal time. -/
theorem generatedAt_shown_of_eastern :
    ∃ s l h₁ h₂ n k, Gives (openSettings configPath) easternHost s easternHost ∧
      Lockfile.load easternHost.disk (lockfilePath s none) = .ok l ∧
      (¬∃ u, l.generatedAt.toUtc = .ok u ∧ u.secondText = l.generatedAt.secondText) ∧
      Gives (lockStatus configPath none) easternHost () h₁ ∧
      Adds easternHost h₁ (utcLine "Generated:     " l.generatedAt n) ∧
      Gives (status configPath none none false) easternHost () h₂ ∧
      Adds easternHost h₂ (utcLine "Last generation:     " l.generatedAt k) := by
  obtain ⟨hopen, ⟨l, hload, hsources, htime⟩, ⟨h₁, hlock⟩, h₂, hstatus, hfile⟩ := eastern_facts
  obtain ⟨hutc, hfirst, hsecond, -⟩ := generatedAt_shown_on_own_clock hopen hload
  obtain ⟨n, hn⟩ := hfirst h₁ hlock (by decide)
  obtain ⟨k, hk⟩ := hsecond none false h₂ hstatus hsources hfile
  refine ⟨_, l, h₁, h₂, n, k, hopen, hload, fun hsame => ?_, hlock, hn, hstatus, hk⟩
  have hoffset := hutc.mp hsame
  rw [htime] at hoffset
  exact absurd hoffset (by decide)

/-- **The time that is called universal is two hours late.** -/
theorem lockStatus_misses_utc :
    ∃ s l u h' n, Gives (openSettings configPath) easternHost s easternHost ∧
      Lockfile.load easternHost.disk (lockfilePath s none) = .ok l ∧
      l.generatedAt.toUtc = .ok u ∧ u.secondText = "2024-06-01 10:00:00" ∧
      Gives (lockStatus configPath none) easternHost () h' ∧
      Adds easternHost h' ("│ Generated:     2024-06-01 12:00:00 UTC" ++
        String.ofList (blanks n) ++ " │\n") := by
  obtain ⟨hopen, ⟨l, hload, -, htime⟩, ⟨h', hlock⟩, -⟩ := eastern_facts
  obtain ⟨n, hadds⟩ := adds_of_lockStatus hopen hload (by decide) hlock
  have hline : utcLine "Generated:     " l.generatedAt n =
      "│ Generated:     2024-06-01 12:00:00 UTC" ++ String.ofList (blanks n) ++ " │\n" := by
    rw [htime, utcLine]
    congr 2
  have hutc : l.generatedAt.toUtc = .ok ⟨⟨2024, 6, 1⟩, 10, 0, 0, 0, some 0⟩ := by
    rw [htime]
    decide
  exact ⟨_, l, _, h', n, hopen, hload, hutc, by decide, hlock, hline ▸ hadds⟩

end Command

end Regen
