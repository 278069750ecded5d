import Regen.Proofs.Command.Left
import Regen.Proofs.Lockfile.Healthy

/-! # Histories of a lockfile

    Commands run one after the other, each on a host of its own, and each finds at the path of its
    lockfile what the one before left at its own.  Between them everything else may change.  If
    nothing was there at first, then after each of them there is nothing or a healthy lockfile. -/

namespace Regen.Command

open Lockfile Relation

/-- The names of the configured sources, for a command that updates the lockfile. -/
def Invocation.configured? : Invocation → Host → Option (List String)
  | .lockUpdate config _ _, h => ((openSettings config).run.run h).1.toOption.map (·.sourceNames)
  | _, _ => none

/-- The host that a command runs on, whose user will say `input`. -/
def asked (h : Host) (input : List Char) : Host :=
  { h with input := Text.unifyNewlines input, calls := [], printed := "" }

/-! ## Stories -/

/-- What there is to tell of a lockfile: what its path holds, how many commands wrote it, and which
    sources were configured when an update wrote it last. -/
structure Story where
  content : Option Bytes
  writes : Nat
  configured : List String

/-- The story after a command that left a content at the path.  The command wrote the lockfile if
    it is not what was there before. -/
def Story.after (t : Story) (configured : Option (List String)) (content : Option Bytes) : Story :=
  if content = t.content then t else ⟨content, t.writes + 1, configured.getD t.configured⟩

/-- **The histories of a lockfile**: nothing is at its path, however many of the folders on its way
    are made, and then commands run, with any arguments on any hosts.  Each uses the path that it
    finds as the one before left it, nobody else writes there, and YAML gives back what it writes.
    The path may be spelled in another way each time. -/
inductive History : Story → Disk → Path → Prop
  | start {d : Disk} {p : Path} (habsent : Holds d p none) : History ⟨none, 0, []⟩ d p
  | step {t : Story} {d : Disk} {p : Path} (before : History t d p) {arguments : List String}
      {input : List Char} {h : Host} {q : Path}
      (hstays : ∀ c, Holds d p c → Undisturbed q c h.disk h.git)
      (huses : ∀ i, invocation arguments = .ok i → i.Uses (asked h input) q)
      (hback : ∀ i l, invocation arguments = .ok i → Saves (asked h input) i q l →
        l.next.GivenBack Value.Alike) :
      History
        (t.after ((invocation arguments).toOption.bind (·.configured? (asked h input)))
          (contentAt (runTool arguments input h).2.disk q))
        (runTool arguments input h).2.disk q

/-- What a story says is so: a lockfile that was written is healthy as the story tells. -/
structure Story.Sound (t : Story) : Prop where
  unwritten : t.content = none → t.writes = 0
  written : ∀ content, t.content = some content →
    ∃ m, (∀ d p, contentAt d p = some content → load d p = .ok m) ∧
      Healthy t.configured t.writes m

section stories
variable {t : Story} {h : Host} {i : Invocation} {d : Disk} {p : Path}

theorem Story.sound_start : Story.Sound ⟨none, 0, []⟩ := ⟨fun _ => rfl, nofun⟩

/-- What a command opens is healthy: the lockfile that was written, or an empty one. -/
theorem Story.Sound.opened (ht : t.Sound) (hthere : Holds d p t.content) {now : Time.Moment}
    {tool : String} {l : Lockfile} (hopens : loadOrCreate d p now tool = .ok l) :
    Healthy t.configured t.writes l := by
  match hcontent : t.content with
  | some content =>
    obtain ⟨m, hload, hm⟩ := ht.written content hcontent
    rw [hcontent] at hthere
    have hread := load_of_loadOrCreate hthere.1 hthere.2 hopens
    rw [hload d p hthere.contentAt] at hread
    exact Except.ok.inj hread ▸ hm
  | none =>
    rw [hcontent] at hthere
    rw [ht.unwritten hcontent]
    unfold loadOrCreate at hopens
    split at hopens
    · exact Except.ok.inj hopens ▸ healthy_empty _ now tool
    · obtain ⟨content, hsome, -⟩ := hthere.reads_of_load hopens
      cases hsome

/-- The dependencies of accepted settings are between configured sources. -/
theorem configured_of_needs {s : Settings} (hs : s.Accepted) {x y : String}
    (hxy : Needs s.dependencies x y) : x ∈ s.sourceNames ∧ y ∈ s.sourceNames := by
  obtain ⟨wanted, hfind, hy⟩ := hxy
  obtain ⟨-, source, hsource, rfl, rfl⟩ := (find?_dependencies hs.distinct).mp hfind
  exact ⟨List.mem_map_of_mem hsource, hs.configured source hsource y hy⟩

/-- **The lockfile that a command may save is well-formed and healthy**, at the revision that was
    written last or at the first one. -/
theorem Story.Sound.saves (ht : t.Sound) (hthere : Holds h.disk p t.content) {l : Lockfile}
    (hsaves : Saves h i p l) : l.next.WellFormed ∧ ∃ n,
      Healthy ((i.configured? h).getD t.configured) n l ∧ (t.content = none → n = t.writes) := by
  cases hsaves with
  | init hreal =>
    exact ⟨(wellFormed_empty ..).next, 0, healthy_empty .., fun hnone => (ht.unwritten hnone).symm⟩
  | cleanup hopen hopens hswept =>
    have hstored := ht.opened hthere hopens
    exact ⟨((of_loadOrCreate hopens).1.sweep hswept).next, t.writes, hstored.sweep hswept,
      fun _ => rfl⟩
  | @update config lockfile fingerprints s stored order current h₂ scanned totalMillis hopen hopens
      horders hresolves hscans htakes =>
    have hstored := ht.opened hthere hopens
    have hnames : (Invocation.lockUpdate config lockfile fingerprints).configured? h =
        some s.sourceNames := by
      rw [Invocation.configured?, hopen]
      rfl
    rw [hnames]
    refine ⟨wellFormed_updatedLockfile (of_loadOrCreate hopens).1 (scanned_of_scanResolved hscans),
      t.writes, ?_, fun _ => rfl⟩
    -- The edges that are written are those whose order was asked for.
    exact .of_acyclic (fun x => Graph.acyclic_of_generationOrder horders x)
      (fun x y hxy => configured_of_needs (accepted_of_open hopen) hxy) hstored.revision

/-- **One command more**: what is left at the path is what the story tells, and it is sound. -/
theorem Story.Sound.left (ht : t.Sound) (hthere : Holds h.disk p t.content)
    (hback : ∀ l, Saves h i p l → l.next.GivenBack Value.Alike)
    (hleft : Left (Saves h i p) p t.content d) :
    (t.after (i.configured? h) (contentAt d p)).Sound ∧
      Holds d p (t.after (i.configured? h) (contentAt d p)).content := by
  cases hleft with
  | same hholds =>
    rw [hholds.contentAt, Story.after, if_pos rfl]
    exact ⟨ht, hholds⟩
  | @saved l content d₁ hsaves hencode hthere₁ hcheck hholds =>
    obtain ⟨hwell, n, hl, hfirst⟩ := ht.saves hthere hsaves
    -- The check of the save compares the revision with that of what was written last.
    have hn : n = t.writes := by
      match hcontent : t.content with
      | none => exact hfirst hcontent
      | some old =>
        rw [hcontent] at hthere₁
        obtain ⟨m, hload, hm⟩ := ht.written old hcontent
        obtain ⟨v, hv, hcount⟩ := hthere₁.reads_of_check hcheck
        obtain ⟨_, hold, v', hv', hcount'⟩ := hthere₁.reads_of_load (hload d₁ p hthere₁.contentAt)
        obtain rfl := Option.some.inj hold
        obtain rfl := Except.ok.inj (hv.symm.trans hv')
        have hsame : l.revision = m.revision := Except.ok.inj (hcount.symm.trans hcount')
        rw [hl.revision, hm.revision] at hsame
        exact Int.ofNat.inj hsame
    subst hn
    obtain ⟨m, hrel, hload⟩ := exists_load Value.readsBack_alike hwell hencode (hback l hsaves)
    have hm := hl.next.of_rel hrel
    have hnew : some content ≠ t.content := by
      intro hsame
      obtain ⟨m', hload', hm'⟩ := ht.written content hsame.symm
      have hread := hload hholds.contentAt
      rw [hload' d p hholds.contentAt] at hread
      have hrevision := hm'.revision
      rw [Except.ok.inj hread, hm.revision] at hrevision
      omega
    rw [hholds.contentAt, Story.after, if_neg hnew]
    refine ⟨⟨nofun, fun content' hcontent => ?_⟩, hholds⟩
    obtain rfl := Option.some.inj hcontent
    exact ⟨m, fun _ _ => hload, hm⟩

/-- Arguments that are no invocation do nothing to the disk. -/
theorem disk_tool_of_stop {arguments : List String} {stop : ArgumentStop}
    (hstop : invocation arguments = .error stop) :
    ((tool arguments).run.run h).2.disk = h.disk := by
  have hkeeps : Keeps (fun h' => h'.disk = h.disk) (tool arguments) := by
    unfold tool
    rw [hstop]
    split
    · next hok => cases hok
    · exact keeps_showVersion fun _ _ _ _ _ hI => hI
    · exact keeps_exit 0
    · exact keeps_exit 2
    · exact .throw
  exact hkeeps h rfl

theorem runTool_of_invocation {arguments : List String} (hi : invocation arguments = .ok i)
    (input : List Char) :
    runTool arguments input h = (ending ((perform i).run.run (asked h input)).1,
      ((perform i).run.run (asked h input)).2) := by
  have htool : tool arguments = perform i := by rw [tool, hi]
  rw [← htool]
  rfl

theorem host_runTool {arguments : List String} (hi : invocation arguments = .ok i)
    (input : List Char) :
    (runTool arguments input h).2 = ((perform i).run.run (asked h input)).2 :=
  congrArg Prod.snd (runTool_of_invocation hi input)

theorem History.sound (hrun : History t d p) : t.Sound ∧ Holds d p t.content := by
  induction hrun with
  | start habsent => exact ⟨Story.sound_start, habsent⟩
  | @step t d p _ arguments input h q hstays huses hback ih =>
    obtain ⟨ht, hholds⟩ := ih
    have hthere : Undisturbed q t.content (asked h input).disk (asked h input).git :=
      hstays _ hholds
    match hi : invocation arguments with
    | .ok i =>
      rw [host_runTool hi]
      exact ht.left hthere.holds (fun l => hback i l hi) (left_perform hthere (huses i hi))
    | .error stop =>
      have hdisk : (runTool arguments input h).2.disk = h.disk :=
        disk_tool_of_stop (h := asked h input) hi
      have hsame : Holds h.disk q t.content := hthere.holds
      rw [hdisk, hsame.contentAt, Story.after, if_pos rfl]
      exact ⟨ht, hsame⟩

/-- **Lockfiles stay healthy.**  After every command of a history of a lockfile, if the lockfile
    exists then it can be loaded, its dependencies have no circle and so have a generation order,
    they are between sources that were configured when an update wrote it last, and its revision
    is the number of commands that wrote it. -/
theorem lockfile_healthy (hrun : History t d p) (hexists : d.exists? p = .ok true) :
    ∃ m, load d p = .ok m ∧ Healthy t.configured t.writes m := by
  obtain ⟨ht, hholds⟩ := hrun.sound
  match hcontent : t.content with
  | some content =>
    obtain ⟨m, hload, hm⟩ := ht.written content hcontent
    rw [hcontent] at hholds
    exact ⟨m, hload d p hholds.contentAt, hm⟩
  | none =>
    rw [hcontent] at hholds
    exact absurd hexists (Disk.StaysAbsent.not_exists hholds)

end stories

/-! ### Histories of one update -/

section oneUpdate

deriving instance DecidableEq for Invocation

/-- An update of a project with one source. -/
def updateArguments : List String := ["lock", "update", "--fingerprints", "fingerprints"]

/-- Clean up without a question. -/
def cleanupArguments : List String := ["cleanup", "--yes"]

/-- What the arguments stand for. -/
theorem invocation_arguments :
    invocation updateArguments = .ok (.lockUpdate configPath none (some listPath)) ∧
      invocation cleanupArguments = .ok (.cleanup configPath none none false true) := by
  decide +kernel

theorem invocation_updateArguments :
    invocation updateArguments = .ok (.lockUpdate configPath none (some listPath)) :=
  invocation_arguments.1

/-- Nothing is in a folder that exists, and so it stays. -/
theorem holds_none_of_parts {d : Disk} {p : Path} (hparts : p.parent.parts = [])
    (habsent : d.exists? p ≠ .ok true) : Holds d p none := by
  intro d' hmade
  rw [hmade.eq_of_nil hparts]
  exact habsent

/-- What an update may save comes back, on a machine that was checked for it. -/
theorem givenBack_of_comesBack {h h₁ : Host} {s : Settings} {p : Path} {l : Lockfile}
    (hopen : Gives (openSettings configPath) h s h₁)
    (hcheck : comesBack s (lockfilePath s none) h)
    (hsaves : Saves h (.lockUpdate configPath none (some listPath)) p l) :
    l.next.GivenBack Value.Alike := by
  cases hsaves with
  | @update _ _ _ s' stored _ current h₂ scanned totalMillis hopen' hopens _ hresolves hscans
      htakes =>
    obtain rfl : s' = s := Except.ok.inj (congrArg Prod.fst (hopen'.symm.trans hopen))
    have hopens' : loadOrCreate (afterReading h).disk (lockfilePath s' none) (afterReading h).now
        (afterReading h).toolVersion = .ok stored := hopens
    have hcurrent : (currentFingerprints s' (some listPath)).run.run (afterReading h) =
      (.ok current, h₂) := hresolves
    match hmade : h₂.disk.makeFolders (lockfilePath s' none).parent with
    | (_, .ok ()) =>
      simp only [comesBack, savesBy, hopens', hcurrent, hscans, htakes, hmade, Bool.and_eq_true,
        decide_eq_true_eq] at hcheck
      exact hcheck.2.givenBack (wellFormed_updatedLockfile (of_loadOrCreate hopens').1
        (scanned_of_scanResolved hscans))
    | (_, .error _) => simp only [comesBack, savesBy, hopens', hcurrent, hscans, htakes, hmade,
        Bool.false_eq_true] at hcheck

/-- An update writes the first lockfile, and it is healthy. -/
theorem lockfile_healthy_of_update :
    ∃ t d m, History t d lockPath ∧ d.exists? lockPath = .ok true ∧ load d lockPath = .ok m ∧
      Healthy t.configured t.writes m := by
  obtain ⟨hopen, hcheck, hexit⟩ := oneSource_comesBack
  have hpath : lockfilePath (oneSettings "main") none = lockPath := by decide
  have habsent : Holds (oneSourceHost "main" []).disk lockPath none := by
    refine holds_none_of_parts rfl fun hexists => ?_
    have hfalse : ((oneSourceHost "main" []).disk.exists? lockPath).toOption = some false := by
      decide
    rw [hexists] at hfalse
    cases hfalse
  have huses : ∀ i, invocation updateArguments = .ok i →
      i.Uses (oneSourceHost "main" []) lockPath := by
    intro i hi
    rw [invocation_updateArguments] at hi
    obtain rfl := Except.ok.inj hi
    refine ⟨fun q hq => ?_, nofun⟩
    rw [Invocation.lockfile?, hopen] at hq
    exact (Option.some.inj hq).symm.trans hpath
  have hback : ∀ i l, invocation updateArguments = .ok i →
      Saves (oneSourceHost "main" []) i lockPath l → l.next.GivenBack Value.Alike := by
    intro i l hi hsaves
    rw [invocation_updateArguments] at hi
    obtain rfl := Except.ok.inj hi
    exact givenBack_of_comesBack hopen hcheck hsaves
  have hrun : History _ (runTool updateArguments [] (oneSourceHost "main" [])).2.disk lockPath :=
    .step (.start habsent) (fun c hc => hc) huses hback
  have hexists : (runTool updateArguments [] (oneSourceHost "main" [])).2.disk.exists? lockPath =
      .ok true := by
    obtain ⟨stored, current, h₂, scanned, l, d₁, hupdate, hmade, -⟩ :=
      lockUpdate_exact hopen (List.cons_ne_nil _ _) hexit
    obtain ⟨-, d₁', content, hmade', -, hcontent⟩ := hupdate.written
    obtain rfl : d₁ = d₁' := congrArg Prod.fst (hmade.symm.trans hmade')
    rw [host_runTool invocation_updateArguments, ← hpath]
    exact (exists_of_contentAt (hcontent (of_comesBack hcheck hupdate hmade).1)).1
  obtain ⟨m, hload, hm⟩ := lockfile_healthy hrun hexists
  exact ⟨_, _, m, hrun, hexists, hload, hm⟩

/-- Another lockfile beside a missing folder, with a circle in it. -/
def asideText : String := "schema_version: '1.0'
generated_at: '2024-06-01'
dependencies:
  x:
  - x
revision: 7
"

def asideHost : Host := oneSourceHost "main" [(["lock"], .file asideText.toUTF8.toList 0)]

/-- An update through the folder that is missing. -/
def detourArguments : List String := updateArguments ++ ["--lockfile", "a/../lock"]

/-- **Another lockfile may turn up at the path**: one that was there all along behind a folder that
    was missing.  An update makes the folder and writes nothing. -/
theorem lockfile_turns_up :
    asideHost.disk.exists? detour = .ok false ∧ asideHost.git = [] ∧
    (∀ i, invocation detourArguments = .ok i → i.Uses asideHost detour) ∧
    ∃ m, (runTool detourArguments [] asideHost).2.disk.exists? detour = .ok true ∧
      load (runTool detourArguments [] asideHost).2.disk detour = .ok m ∧
      ∀ names writes, ¬Healthy names writes m := by
  have hinvocation : invocation detourArguments =
      .ok (.lockUpdate configPath (some detour) (some listPath)) := by decide +kernel
  rw [host_runTool hinvocation]
  have hopen : Gives (openSettings configPath) asideHost (oneSettings "main") asideHost :=
    gives_of_opened (by decide +kernel)
  have hbefore : (asideHost.disk.exists? detour).toOption.any (!·) := by decide
  have hread : (load ((lockUpdate configPath (some detour) (some listPath)).run.run
      asideHost).2.disk detour).toOption.any fun m => m.dependencies.find? "x" == some ["x"] := by
    rw [run_lockUpdate hopen (List.cons_ne_nil _ _), asideHost,
      Text.toUTF8_toList (s := asideText) rfl]
    decide +kernel
  obtain ⟨m, hm, hfind⟩ := exists_ok_of_any hread
  refine ⟨?_, rfl, ?_, m, exists_of_load hm, hm, fun names writes hhealthy => ?_⟩
  · obtain ⟨b, hb, hno⟩ := exists_ok_of_any hbefore
    obtain rfl : b = false := Bool.not_eq_true' b ▸ hno
    exact hb
  · intro i hi
    obtain rfl := Except.ok.inj (hinvocation.symm.trans hi)
    refine ⟨fun q hq => ?_, nofun⟩
    obtain ⟨s, -, rfl⟩ := Option.map_eq_some_iff.mp hq
    rfl
  · exact hhealthy.acyclic "x" (.single ⟨["x"], eq_of_beq hfind, List.mem_singleton_self _⟩)

end oneUpdate

end Regen.Command
