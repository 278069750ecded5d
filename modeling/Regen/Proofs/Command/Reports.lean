import Regen.Command.Lock
import Regen.Command.Status
import Regen.Proofs.Command.Printed
import Regen.Proofs.Command.Update

/-! # What the commands report

    Which texts a command quotes when it reports what it found: names and files of the lockfile
    and the settings, and fingerprints.  All else that is printed is shown whatever it counts,
    so a report comes to its end exactly if these texts are shown. -/

namespace Regen

open Markup

/-! ## Warnings -/

/-- The warnings about the sources that were not resolved. -/
def Resolution.warnings (r : Resolution) : List String :=
  r.failures.map fun e => Message.unresolved e.1 e.2.message

/-- **All warnings can be printed.** -/
def Resolution.WarningsShown (r : Resolution) : Prop := ∀ text ∈ r.warnings, Shown text

namespace Command

/-! ## Numbers and fixed texts -/

theorem bare_of_intText {n : Int} {text : String} (h : Number.intText n = .ok text) :
    Bare text := by
  unfold Number.intText at h
  split at h
  · cases h
  · exact Except.ok.inj h ▸ bare_int n

/-- A number that is not too long has a text. -/
theorem intText_of_isLong {n : Int} (h : Number.isLong n = false) :
    Number.intText n = .ok (toString n) := by
  rw [Number.intText, if_neg (by simp [h])]

/-- The text of a time is simple. -/
theorem simple_minuteText (t : Time.Moment) : Simple t.minuteText.toList := by
  have hyear : Simple (toString t.date.year).toList :=
    simple_of_isDigit fun c hc => isDigit_of_mem_nat hc
  have hfield (n : Nat) : Simple (Time.pad 2 n).toList :=
    simple_of_isDigit fun c hc => Time.isDigit_of_mem_pad hc
  simp only [Time.Moment.minuteText, String.toList_append]
  exact (((((((hyear.append (by decide)).append (hfield _)).append (by decide)).append
    (hfield _)).append (by decide)).append (hfield _)).append (by decide)).append (hfield _)

theorem simple_secondText (t : Time.Moment) : Simple t.secondText.toList := by
  have hfield : Simple (Time.pad 2 t.second).toList :=
    simple_of_isDigit fun c hc => Time.isDigit_of_mem_pad hc
  have hcolon : Simple ":".toList := by decide
  simp only [Time.Moment.secondText, String.toList_append]
  exact (simple_minuteText t).append (hcolon.append hfield)

theorem bare_of_simple {text : String} (h : Simple text.toList) : Bare text :=
  fun hmem => (h '[' hmem).2.2 rfl

theorem bare_minuteText (t : Time.Moment) : Bare t.minuteText :=
  bare_of_simple (simple_minuteText t)

theorem bare_secondText (t : Time.Moment) : Bare t.secondText :=
  bare_of_simple (simple_secondText t)

/-- A number that is counted in bold in front of marked text. -/
theorem marked_count (front : String) (n : Nat) (rest : String) (hfront : Clear front.toList)
    (hrest : Marked rest.toList) :
    Marked (front ++ "[" ++ "bold" ++ "]" ++ toString n ++ "[/]" ++ rest).toList :=
  hrest.behind_styled hfront (by decide) (clear_nat n)

/-- **A warning about a source** is shown if its name and the message have no bracket. -/
theorem shown_unresolved {name reason : String} (hname : Bare name) (hreason : Bare reason) :
    Shown (Message.unresolved name reason) := by
  have hmark : Marked "[yellow]⚠[/] No current fingerprint for source '".toList :=
    marked_styled "" "yellow" "⚠" " No current fingerprint for source '" (by decide)
  refine shown_of_marked (Marked.append (Marked.append
    (((hmark.append hname).append ?_).append hreason) ?_) ?_)
  all_goals decide

theorem shown_noSources : Shown Message.noSources := by
  have hmark : Marked "[yellow]No sources configured.[/]\n".toList :=
    marked_styled "" "yellow" "No sources configured." "\n" (by decide)
  refine shown_of_marked (Marked.append (Marked.append (Marked.append (Marked.append (Marked.append
    (Marked.append hmark ?_) ?_) ?_) ?_) ?_) ?_)
  all_goals decide

/-- A run that is told of no sources ends as a success, and only printed that. -/
theorem run_noSources (h : Host) :
    ∃ h', (sayAndExit Message.noSources 0 : Command Unit).run.run h = (.error (.exit 0), h') ∧
      Printed h h' := by
  obtain ⟨h', hgives, hprinted⟩ := (printsIf_say Message.noSources).gives shown_noSources h
  exact ⟨h', hgives.run_bind, hprinted⟩

/-! ## Plans -/

/-- A loop that says one text for each of several things. -/
theorem printsIf_sayEach {α : Type} (xs : List α) (text : α → String) :
    PrintsIf (∀ x ∈ xs, Shown (text x)) PUnit.unit
      (forIn xs PUnit.unit fun x _ => do
        say (text x)
        pure (ForInStep.yield PUnit.unit) : Command PUnit) := by
  refine .forIn fun x _ => ?_
  exact ((printsIf_say _).bind (printsIf_pure (ForInStep.yield PUnit.unit))).congr
    (and_iff_left trivial)

/-- One warning for each source that was not resolved. -/
theorem printsIf_warnings (r : Resolution) :
    PrintsIf r.WarningsShown PUnit.unit
      (forIn r.failures PUnit.unit fun e _ => do
        say (Message.unresolved e.1 e.2.message)
        pure (ForInStep.yield PUnit.unit) : Command PUnit) := by
  refine (printsIf_sayEach r.failures fun e => Message.unresolved e.1 e.2.message).congr ?_
  exact List.forall_mem_map.symm

/-- **What a status quotes is shown**: the panel with the names of the sources, once it is known
    whether there is a lockfile; and the estimate is not too long. -/
def StatusShown (d : Disk) (p : Path) (l : Lockfile) (configured : Nat) (plan : Plan) : Prop :=
  ∃ found, fileExists d p = .ok found ∧
    ∃ millis, Number.intText plan.estimatedMillis = .ok millis ∧
      Shown (String.intercalate "\n"
        (statusLines l (found && !l.sources.isEmpty) configured plan millis))

/-- A status comes to its end where it is shown. -/
theorem gives_showStatus {p : Path} {l : Lockfile} {configured : Nat} {plan : Plan} {h : Host}
    (hshown : StatusShown h.disk p l configured plan) :
    ∃ h', Gives (showStatus p l configured plan) h () h' ∧ Printed h h' := by
  obtain ⟨found, hfound, millis, hmillis, hpanel⟩ := hshown
  obtain ⟨h', hgives, hprinted⟩ := (printsIf_sayPanel "Generation Status" _).gives hpanel h
  have hnumber : Gives (intText plan.estimatedMillis) h millis h :=
    gives_ofExcept.mpr ⟨mapError_eq_ok.mpr hmillis, rfl⟩
  refine ⟨h', ?_, hprinted⟩
  exact (gives_pathExists.mpr ⟨hfound, rfl⟩).run_bind.trans (hnumber.run_bind.trans hgives)

/-- **What a status names has no bracket**: the version and the sources of the plan; and the
    estimate is not too long. -/
structure StatusBare (l : Lockfile) (plan : Plan) : Prop where
  toolVersion : Bare l.toolVersion
  changed : ∀ x ∈ plan.changed, Bare x
  dependents : ∀ x ∈ plan.dependents, Bare x
  estimate : Number.isLong plan.estimatedMillis = false

instance (l : Lockfile) (plan : Plan) : Decidable (StatusBare l plan) :=
  decidable_of_iff (Bare l.toolVersion ∧ (∀ x ∈ plan.changed, Bare x) ∧
    (∀ x ∈ plan.dependents, Bare x) ∧ Number.isLong plan.estimatedMillis = false)
    ⟨fun ⟨toolVersion, changed, dependents, estimate⟩ =>
      ⟨toolVersion, changed, dependents, estimate⟩,
      fun h => ⟨h.toolVersion, h.changed, h.dependents, h.estimate⟩⟩

/-- **A status is shown** if what it names has no bracket. -/
theorem StatusBare.shown {d : Disk} {p : Path} {l : Lockfile} {configured : Nat} {plan : Plan}
    {found : Bool} (hbare : StatusBare l plan) (hfound : fileExists d p = .ok found) :
    StatusShown d p l configured plan := by
  obtain ⟨htool, hchanged, hdependents, hestimate⟩ := hbare
  have hmillis := intText_of_isLong hestimate
  have hnames {label : String} {names : List String} (hlabel : Bare label)
      (hnames : ∀ x ∈ names, Bare x) : Marked (label ++ nameList names).toList :=
    .plain (bare_append.mpr ⟨hlabel, bare_intercalate (by decide) hnames⟩)
  refine ⟨found, hfound, _, hmillis, shown_of_marked (marked_lines fun line hline => ?_)⟩
  simp only [statusLines, List.mem_append, List.mem_cons, List.not_mem_nil, or_false] at hline
  rcases hline with ((rfl | rfl | rfl | rfl) | hline) | rfl | rfl
  · split
    · exact .plain (bare_append.mpr ⟨by decide, bare_append.mpr ⟨bare_secondText _, by decide⟩⟩)
    · exact marked_styled "Last generation:     " "dim" "never" "" (by decide)
  · exact .plain (bare_append.mpr ⟨by decide, htool⟩)
  · have hcount := marked_count "Sources configured:  " configured "" (by decide)
      (.plain (by decide))
    have hline : Marked ("Sources configured:  [bold]" ++ toString configured ++ "[/]").toList := by
      simpa [String.toList_append] using hcount
    exact hline
  · split
    · exact marked_styled "Changed sources:     " "dim" "none" "" (by decide)
    · exact hnames (by decide) hchanged
  · split at hline
    · cases hline
    · obtain rfl := List.mem_singleton.mp hline
      exact hnames (by decide) hdependents
  · split
    · exact marked_styled "Incremental:         " "green" "possible" "" (by decide)
    · exact marked_styled "Incremental:         " "yellow" "not possible" "" (by decide)
  · exact .plain (bare_append.mpr ⟨bare_append.mpr ⟨by decide, bare_of_intText hmillis⟩, by decide⟩)

/-! ## The lockfile -/

/-- **What the status of a lockfile quotes has no bracket**: its path and version, its sources and
    the dependencies that dangle; and its revision is not too long. -/
structure RecordedBare (p : Path) (l : Lockfile) : Prop where
  path : Bare p.text
  toolVersion : Bare l.toolVersion
  revision : Number.isLong l.revision = false
  sources : ∀ e ∈ l.sources, Bare e.1 ∧ Bare e.2.url ∧ Bare e.2.ref ∧ Bare e.2.fingerprint
  dangling : ∀ e ∈ l.dangling, Bare e.1 ∧ Bare e.2

section recorded
variable {p : Path} {l : Lockfile}

instance : Decidable (RecordedBare p l) :=
  decidable_of_iff (Bare p.text ∧ Bare l.toolVersion ∧
    Number.isLong l.revision = false ∧
    (∀ e ∈ l.sources, Bare e.1 ∧ Bare e.2.url ∧ Bare e.2.ref ∧ Bare e.2.fingerprint) ∧
    ∀ e ∈ l.dangling, Bare e.1 ∧ Bare e.2)
    ⟨fun ⟨path, toolVersion, revision, sources, dangling⟩ =>
      ⟨path, toolVersion, revision, sources, dangling⟩,
      fun h => ⟨h.path, h.toolVersion, h.revision, h.sources, h.dangling⟩⟩

theorem RecordedBare.printsIf_showSources (hbare : RecordedBare p l) :
    PrintsIf True () (showSources l) := by
  refine (printsIf_sayTable none _).congr (iff_true_intro ?_)
  have hsources : ∀ e ∈ l.sources.sorted,
      Bare e.1 ∧ Bare e.2.url ∧ Bare e.2.ref ∧ Bare e.2.fingerprint :=
    fun e he => hbare.sources e (mem_sortBy.mp he)
  intro column hcolumn cell hcell
  simp only [List.mem_cons, List.not_mem_nil, or_false] at hcolumn
  refine shown_of_bare ?_
  rcases hcolumn with rfl | rfl | rfl | rfl
  all_goals
    obtain ⟨e, he, rfl⟩ := List.mem_map.mp hcell
    obtain ⟨hname, hurl, href, hfingerprint⟩ := hsources e he
  · exact hname
  · exact bare_append.mpr ⟨bare_append.mpr ⟨hurl, by decide⟩, href⟩
  · intro hmem
    rw [shortFingerprint, String.toList_ofList] at hmem
    exact hfingerprint (List.mem_of_mem_take hmem)
  · exact bare_minuteText _

theorem RecordedBare.shown_dangling (hbare : RecordedBare p l) :
    Shown (Message.dangling l.dangling) := by
  have hmark : Marked
      "[yellow]⚠[/] Dependencies reference sources not in the lockfile:\n".toList :=
    marked_styled "" "yellow" "⚠" " Dependencies reference sources not in the lockfile:\n"
      (by decide)
  refine shown_of_marked ((hmark.append (bare_intercalate (by decide) ?_)).append (by decide))
  intro line hline
  obtain ⟨e, he, rfl⟩ := List.mem_map.mp hline
  obtain ⟨hsource, hwanted⟩ := hbare.dangling e he
  simp only [bare_append]
  exact ⟨⟨⟨by decide, hsource⟩, by decide⟩, hwanted⟩

/-- The panel of a lockfile. -/
theorem RecordedBare.marked_recorded (hbare : RecordedBare p l) {revision : String}
    (hrevision : Number.intText l.revision = .ok revision) :
    ∀ line ∈ [
        s!"Lockfile:      {p.text}",
        s!"Generated:     {l.generatedAt.secondText} UTC",
        s!"Tool version:  {l.toolVersion}",
        s!"Revision:      {revision}",
        s!"Sources: [bold]{l.sources.length}[/]  |  Files: [bold]{l.files.length}[/]  |  " ++
          s!"Dependencies: [bold]{(l.dependencies.map fun e => e.2.length).foldr (· + ·) 0}[/]"],
      Marked line.toList := by
  have hcounts (a b c : Nat) : Marked ("Sources: [bold]" ++ toString a ++
      "[/]  |  Files: [bold]" ++ toString b ++ "[/]  |  " ++
      ("Dependencies: [bold]" ++ toString c ++ "[/]")).toList := by
    have hlast := marked_count "  |  Dependencies: " c "" (by decide) (.plain (by decide))
    have hfiles := marked_count "  |  Files: " b _ (by decide) hlast
    have hall := marked_count "Sources: " a _ (by decide) hfiles
    simpa [String.toList_append] using hall
  intro line hline
  simp only [List.mem_cons, List.not_mem_nil, or_false] at hline
  rcases hline with rfl | rfl | rfl | rfl | rfl
  · exact .plain (bare_append.mpr ⟨by decide, hbare.path⟩)
  · refine .plain (bare_append.mpr ⟨bare_append.mpr ⟨by decide, bare_secondText _⟩, by decide⟩)
  · exact .plain (bare_append.mpr ⟨by decide, hbare.toolVersion⟩)
  · exact .plain (bare_append.mpr ⟨by decide, bare_of_intText hrevision⟩)
  · exact hcounts ..

/-- **The status of a lockfile comes to its end** if nothing that it quotes has a bracket. -/
theorem gives_lockStatus {h : Host} {config : Path} {lockfile : Option Path} {s : Settings}
    (hopen : Gives (openSettings config) h s h)
    (hfile : fileExists h.disk (lockfilePath s lockfile) = .ok true)
    (hload : Lockfile.loadOrCreate h.disk (lockfilePath s lockfile) h.now h.toolVersion = .ok l)
    (hbare : RecordedBare (lockfilePath s lockfile) l) :
    ∃ h', Gives (lockStatus config lockfile) h () h' ∧ Printed h h' := by
  obtain ⟨revision, hrevision⟩ : ∃ text, Number.intText l.revision = .ok text :=
    ⟨_, intText_of_isLong hbare.revision⟩
  have hnumber : Gives (intText l.revision) h revision h :=
    gives_ofExcept.mpr ⟨mapError_eq_ok.mpr hrevision, rfl⟩
  have hdangling : PrintsIf True ()
      (if !l.dangling.isEmpty then say (Message.dangling l.dangling) else pure ()) := by
    split
    · exact (printsIf_say _).congr (iff_true_intro hbare.shown_dangling)
    · exact printsIf_pure ()
  have hrest : PrintsIf True () (do
      if !l.sources.isEmpty then showSources l
      if !l.dangling.isEmpty then say (Message.dangling l.dangling)) := by
    dsimp only
    split
    · exact (hbare.printsIf_showSources.bind hdangling).congr (and_iff_left trivial)
    · exact hdangling
  have hpanel : ∀ lines, (∀ line ∈ lines, Marked line.toList) →
      PrintsIf True () (sayPanel "Lockfile" lines) := fun lines hlines =>
    (printsIf_sayPanel _ _).congr (iff_true_intro (shown_of_marked (marked_lines hlines)))
  have hprints := (hpanel _ (hbare.marked_recorded hrevision)).bind (f := fun _ => _) hrest
  obtain ⟨h', hgives, hprinted⟩ := hprints.gives ⟨trivial, trivial⟩ h
  refine ⟨h', ?_, hprinted⟩
  refine hopen.run_bind.trans ((gives_pathExists.mpr ⟨hfile, rfl⟩).run_bind.trans ?_)
  refine (gives_openLockfile.mpr ⟨hload, rfl⟩).run_bind.trans ?_
  exact hnumber.run_bind.trans hgives

end recorded

/-! ## Updates -/

end Command

end Regen
