import Regen.Proofs.Command.Plan
import Regen.Proofs.Command.Updated
import Regen.Proofs.Lockfile.Legible
import Regen.Proofs.Settings.Accepted
import Regen.Proofs.Value.Alike

/-! # Updating the lockfile

    An update that ends with success has opened the settings and the lockfile, found the current
    fingerprints, scanned the output folders and saved what it made of all this. -/

namespace Regen.Command

open Number Time

/-! ## Showing what was changed -/

/-- A command that only prints: it does not exit, and the disk stays as it was. -/
structure Prints {α : Type} (c : Command α) : Prop where
  fails : StopsOnly Stop.Fails c
  leaves : Leaves Host.disk c

section prints
variable {α β : Type}

theorem Prints.pure (x : α) : Prints (pure x : Command α) := ⟨.pure x, .pure x⟩

theorem Prints.bind {c : Command α} {f : α → Command β} (hc : Prints c) (hf : ∀ x, Prints (f x)) :
    Prints (c >>= f) :=
  ⟨hc.fails.bind fun x => (hf x).fails, hc.leaves.bind fun x => (hf x).leaves⟩

theorem Prints.forIn {γ : Type} {xs : List γ} {y : β} {g : γ → β → Command (ForInStep β)}
    (hg : ∀ x y, Prints (g x y)) : Prints (forIn xs y g) :=
  ⟨.forIn fun x y => (hg x y).fails, .forIn fun x y => (hg x y).leaves⟩

theorem leaves_ofExcept (r : Except Failure α) : Leaves Host.disk (ofExcept r) :=
  fun _ _ _ hrun => (gives_ofExcept.mp hrun).2 ▸ rfl

theorem leaves_showStyles (texts : List Markup.Rendered) : Leaves Host.disk (showStyles texts) := by
  unfold showStyles
  split
  · exact .throw
  · exact .pure ()

theorem prints_say (text : String) : Prints (say text) where
  fails := fails_say text
  leaves := (leaves_ofExcept _).bind fun _ => (leaves_showStyles _).bind fun _ =>
    .modify fun _ => rfl

theorem prints_showUpdate (p : Path) (sources files : Nat) (changed kept : List String)
    (current : Ledger String) : Prints (showUpdate p sources files changed kept current) := by
  have hkept : ∀ text, Prints (if !kept.isEmpty then say text else Pure.pure ()) := by
    intro text
    split
    · exact prints_say text
    · exact .pure ()
  refine (prints_say _).bind fun _ => (prints_say _).bind fun _ => ?_
  dsimp only
  split
  · exact (prints_say _).bind fun _ => hkept _
  · refine (prints_say _).bind fun _ => .bind (.forIn fun name _ => ?_) fun _ => hkept _
    exact (prints_say _).bind fun _ => .pure _

end prints

/-! ## The steps of an update -/

section steps
variable {α : Type} {h h' : Host} {s : Settings} {p : Path}

/-- The next reading of the clock. -/
def reading (h : Host) : Value := h.clock.headD (.real .zero)

/-- A host after its clock was read. -/
def afterReading (h : Host) : Host := { h with clock := h.clock.tail }

theorem gives_readClock (h : Host) :
    Gives (ofRun Run.readClock) h (reading h) (afterReading h) := by
  unfold reading afterReading
  match h with
  | { clock := [], .. } => rfl
  | { clock := _ :: _, .. } => rfl

theorem accepted_of_open {file : Path} (hopen : Gives (openSettings file) h s h') : s.Accepted := by
  obtain ⟨-, found, -, hload⟩ := gives_openSettings.mp hopen
  exact Settings.accepted_of_load (gives_of_fst hload)

theorem gives_openLockfile {l : Lockfile} :
    Gives (openLockfile p) h l h' ↔
      Lockfile.loadOrCreate h.disk p h.now h.toolVersion = .ok l ∧ h = h' := by
  unfold openLockfile
  rw [gives_bind]
  constructor
  · rintro ⟨_, _, hget, hrun⟩
    obtain ⟨rfl, rfl⟩ := gives_get.mp hget
    split at hrun
    · next m hm =>
      obtain ⟨rfl, rfl⟩ := gives_pure.mp hrun
      exact ⟨hm, rfl⟩
    · exact absurd hrun not_gives_sayAndExit
    · exact absurd hrun not_gives_throw
  · rintro ⟨hl, rfl⟩
    refine ⟨h, h, gives_get.mpr ⟨rfl, rfl⟩, ?_⟩
    rw [hl]
    exact gives_pure.mpr ⟨rfl, rfl⟩

theorem gives_requireOrder {g : Graph} {x : Unit} (hrun : Gives (requireOrder g) h x h') :
    h = h' ∧ ∃ order, g.generationOrder = .ok order := by
  unfold requireOrder at hrun
  split at hrun
  · next order horder => exact ⟨(gives_pure.mp hrun).2, order, horder⟩
  · exact absurd hrun not_gives_sayAndExit
  · exact absurd hrun not_gives_throw

/-- What changes the disk and gives a value leaves the disk that it changed. -/
theorem gives_onDisk {f : Disk → Disk × Except Failure α} {x : α}
    (hrun : Gives (Run.onDisk f) h x h') : f h.disk = (h'.disk, .ok x) := by
  unfold Run.onDisk at hrun
  obtain ⟨_, _, hget, hrun⟩ := gives_bind.mp hrun
  obtain ⟨rfl, rfl⟩ := gives_get.mp hget
  obtain ⟨_, _, hmodify, hrun⟩ := gives_bind.mp hrun
  obtain ⟨-, rfl⟩ := Prod.mk.inj hmodify
  unfold Run.ofExcept at hrun
  split at hrun
  · next y hy =>
    obtain ⟨rfl, rfl⟩ := gives_pure.mp hrun
    exact Prod.ext rfl hy
  · exact absurd hrun not_gives_throw

/-- A lockfile is written by a save that succeeds. -/
theorem gives_writeLockfile {l : Lockfile} {x : Unit} (hrun : Gives (writeLockfile p l) h x h') :
    ∃ l', Lockfile.save h.disk p l false = (h'.disk, .ok l') := by
  unfold writeLockfile at hrun
  obtain ⟨outcome, h₁, hsave, hrun⟩ := gives_bind.mp hrun
  split at hrun
  · next l' =>
    obtain ⟨-, rfl⟩ := gives_pure.mp hrun
    exact ⟨l', gives_onDisk (gives_attempt.mp hsave)⟩
  · exact absurd hrun not_gives_sayAndExit
  · exact absurd hrun not_gives_sayAndExit
  · exact absurd hrun not_gives_sayAndExit
  · exact absurd hrun not_gives_throw

theorem gives_ofValue {r : Except Fault α} {x : α} (hrun : Gives (ofValue r) h x h') :
    r = .ok x ∧ h = h' := by
  obtain ⟨hr, rfl⟩ := gives_ofExcept (r := r.mapError .value) |>.mp hrun
  exact ⟨mapError_eq_ok.mp hr, rfl⟩

/-- **What an update that succeeds does on its way**: it takes the lockfile `stored` from the
    disk, finds the fingerprints `current`, which may change the host to `h₂`, scans the files
    `scanned`, and saves what comes of these as the lockfile `l`. -/
structure UpdateRun (s : Settings) (started : Value) (config p : Path) (fingerprints : Option Path)
    (h : Host) (stored : Lockfile) (current : Ledger String) (h₂ : Host)
    (scanned : Ledger FileRecord) (l : Lockfile) (d : Disk) : Prop where
  opens : Lockfile.loadOrCreate h.disk p h.now h.toolVersion = .ok stored
  orders : ∃ order,
    (Graph.ofDependencies s.dependencies s.sourceNames).generationOrder = .ok order
  resolves : Gives (currentFingerprints s fingerprints) h current h₂
  scans : scanResolved h₂ config s current = .ok scanned
  saves : ∃ totalMillis, elapsedMillis started (reading h₂) = .ok totalMillis ∧
    Lockfile.save h₂.disk p
      (updatedLockfile s stored current scanned totalMillis h₂.now h₂.toolVersion) false =
        (d, .ok l)

theorem gives_updateWith {started : Value} {config : Path} {lockfile fingerprints : Option Path}
    {x : Unit} (hrun : Gives (updateWith s started config lockfile fingerprints) h x h') :
    ∃ stored current h₂ scanned l,
      UpdateRun s started config (lockfilePath s lockfile) fingerprints h stored current h₂ scanned
        l h'.disk := by
  unfold updateWith at hrun
  obtain ⟨stored, _, hopen, hrun⟩ := gives_bind.mp hrun
  obtain ⟨hopens, rfl⟩ := gives_openLockfile.mp hopen
  obtain ⟨_, _, horder, hrun⟩ := gives_bind.mp hrun
  obtain ⟨rfl, horders⟩ := gives_requireOrder horder
  obtain ⟨current, h₂, hresolves, hrun⟩ := gives_bind.mp hrun
  obtain ⟨_, _, hget, hrun⟩ := gives_bind.mp hrun
  obtain ⟨rfl, rfl⟩ := gives_get.mp hget
  obtain ⟨scanned, _, hscan, hrun⟩ := gives_bind.mp hrun
  obtain ⟨hscans, rfl⟩ := gives_ofExcept.mp hscan
  obtain ⟨stopped, _, hclock, hrun⟩ := gives_bind.mp hrun
  obtain ⟨hstopped, rfl⟩ := Prod.mk.inj (hclock.symm.trans (gives_readClock h₂))
  obtain rfl := Except.ok.inj hstopped
  obtain ⟨totalMillis, _, helapsed, hrun⟩ := gives_bind.mp hrun
  obtain ⟨htakes, rfl⟩ := gives_ofValue helapsed
  obtain ⟨_, h₃, hwrite, hshow⟩ := gives_bind.mp hrun
  obtain ⟨l, hsave⟩ := gives_writeLockfile hwrite
  -- What is shown afterwards does not touch the disk that the save left.
  rw [← (prints_showUpdate ..).leaves _ _ _ hshow] at hsave
  exact ⟨stored, current, h₂, scanned, l,
    hopens, horders, hresolves, hscans, totalMillis, htakes, hsave⟩

theorem fails_requireOrder (g : Graph) : StopsOnly Stop.Fails (requireOrder g) := by
  unfold requireOrder
  split
  · exact .pure _
  · exact fails_sayAndExit Nat.one_ne_zero
  · exact .throw nofun

theorem fails_writeLockfile (p : Path) (l : Lockfile) :
    StopsOnly Stop.Fails (writeLockfile p l) := by
  refine StopsOnly.bind (fails_ofRun _) fun outcome => ?_
  split
  · exact .pure _
  · exact fails_sayAndExit Nat.one_ne_zero
  · exact fails_sayAndExit Nat.one_ne_zero
  · exact fails_sayAndExit Nat.one_ne_zero
  · exact .throw nofun

theorem fails_updateWith (s : Settings) (started : Value) (config : Path)
    (lockfile fingerprints : Option Path) :
    StopsOnly Stop.Fails (updateWith s started config lockfile fingerprints) :=
  (fails_openLockfile _).bind fun _ => (fails_requireOrder _).bind fun _ =>
    (fails_currentFingerprints _).bind fun _ => StopsOnly.get.bind fun _ =>
    (fails_ofExcept _).bind fun _ => StopsOnly.bind (fails_ofRun _) fun _ =>
    StopsOnly.bind (fails_ofRun _) fun _ => (fails_writeLockfile _ _).bind fun _ =>
    (prints_showUpdate ..).fails

end steps

/-! ## What an update records -/

section records
variable {h h₁ h₂ : Host} {s : Settings} {config p : Path} {lockfile fingerprints : Option Path}
  {started : Value} {stored : Lockfile} {current : Ledger String} {scanned : Ledger FileRecord}
  {l : Lockfile} {d : Disk}

theorem scanned_of_scanResolved (hscan : scanResolved h config s current = .ok scanned) :
    Scanned scanned := by
  obtain ⟨_, -, hscan⟩ := bind_eq_ok.mp hscan
  exact scanned_of_scanOutputs hscan

/-- An update saves what it made at the next revision.  That is there afterwards, if the path does
    not run through a link that stands at its own end. -/
theorem UpdateRun.written (hrun : UpdateRun s started config p fingerprints h stored current h₂
    scanned l d) :
    (∃ totalMillis, elapsedMillis started (reading h₂) = .ok totalMillis ∧
      l = (updatedLockfile s stored current scanned totalMillis h₂.now h₂.toolVersion).next) ∧
    ∃ d₁ content, h₂.disk.makeFolders p.parent = (d₁, .ok ()) ∧ l.encode = .ok content ∧
      (d₁.HasFreeEnd p → Lockfile.contentAt d p = some content) := by
  obtain ⟨totalMillis, htakes, hsave⟩ := hrun.saves
  have hend := Lockfile.saveWith_end Lockfile.noMishaps h₂.disk p
    (updatedLockfile s stored current scanned totalMillis h₂.now h₂.toolVersion) false
  rw [← Lockfile.save, hsave] at hend
  cases hend with
  | done hnull hmade _ hencode hleads _ _ _ _ =>
    exact ⟨⟨totalMillis, htakes, rfl⟩, _, _, hmade, hencode, fun hfree =>
      Lockfile.contentAt_of_holdsFile hnull (Disk.holdsFile_of_put hleads hfree)⟩

/-- **What is read after an update** is what it was to record, if YAML gives it back. -/
theorem UpdateRun.exists_updated {V : Value → Value → Prop} (hV : ReadsBack V)
    (hnames : s.sourceNames.Nodup)
    (hrun : UpdateRun s started config p fingerprints h stored current h₂ scanned l d)
    (hback : l.GivenBack V) {content : Bytes} (hcontent : l.encode = .ok content) :
    ∃ m, Updated V s stored current scanned m ∧
      ∀ {d p}, Lockfile.contentAt d p = some content → Lockfile.load d p = .ok m := by
  obtain ⟨hstored, hoffsets⟩ := Lockfile.of_loadOrCreate hrun.opens
  have hscanned := scanned_of_scanResolved hrun.scans
  obtain ⟨⟨totalMillis, -, rfl⟩, -⟩ := hrun.written
  obtain ⟨m, hrel, hload⟩ := Lockfile.exists_load hV
    (wellFormed_updatedLockfile hstored hscanned) hcontent hback
  exact ⟨m, updated_of_rel hV hnames (current_of_gives hrun.resolves) hstored hoffsets hscanned
    hrel, hload⟩

theorem run_lockUpdate (hopen : Gives (openSettings config) h s h₁) (hsources : s.sources ≠ []) :
    (lockUpdate config lockfile fingerprints).run.run h =
      (updateWith s (reading h) config lockfile fingerprints).run.run (afterReading h) := by
  obtain ⟨rfl, hopened⟩ := gives_openSettings.mp hopen
  -- Reading the clock comes first and does not change what is opened.
  have hlater : Gives (openSettings config) (afterReading h) s (afterReading h) :=
    gives_openSettings.mpr ⟨rfl, hopened⟩
  unfold lockUpdate
  rw [(gives_readClock h).run_bind, hlater.run_bind,
    if_neg (fun hempty => hsources (List.isEmpty_iff.mp hempty))]

/-- Without sources an update says so, and nothing else. -/
theorem run_lockUpdate_of_none (hopen : Gives (openSettings config) h s h₁) (hnone : s.sources = []) :
    (lockUpdate config lockfile fingerprints).run.run h =
      (sayAndExit Message.noSources 0 : Command Unit).run.run (afterReading h) := by
  obtain ⟨rfl, hopened⟩ := gives_openSettings.mp hopen
  have hlater : Gives (openSettings config) (afterReading h) s (afterReading h) :=
    gives_openSettings.mpr ⟨rfl, hopened⟩
  unfold lockUpdate
  rw [(gives_readClock h).run_bind, hlater.run_bind, if_pos (List.isEmpty_iff.mpr hnone)]

/-- **An update records the current state.**  An update that ends with success took a lockfile,
    found fingerprints and scanned files.  Whatever these were, if the lockfile's path does not run
    through a link that stands at its own end, and if YAML gives back the document that was
    written, then a lockfile is read at the path that records the resolved sources as they are,
    what was recorded of the unresolved ones, and nothing else. -/
theorem lockUpdate_exact (hopen : Gives (openSettings config) h s h₁) (hsources : s.sources ≠ [])
    (hexit : (ending ((lockUpdate config lockfile fingerprints).run.run h).1).exitCode = 0) :
    ∃ stored current h₂ scanned l d₁,
      UpdateRun s (reading h) config (lockfilePath s lockfile) fingerprints (afterReading h) stored
        current h₂ scanned l ((lockUpdate config lockfile fingerprints).run.run h).2.disk ∧
      h₂.disk.makeFolders (lockfilePath s lockfile).parent = (d₁, .ok ()) ∧
      (d₁.HasFreeEnd (lockfilePath s lockfile) → l.GivenBack Value.Alike →
        ∃ m, Lockfile.load ((lockUpdate config lockfile fingerprints).run.run h).2.disk
            (lockfilePath s lockfile) = .ok m ∧
          Updated Value.Alike s stored current scanned m) := by
  rw [run_lockUpdate hopen hsources] at hexit ⊢
  obtain ⟨h', hrun⟩ := gives_of_exitCode (fails_updateWith s _ config lockfile fingerprints) hexit
  obtain ⟨stored, current, h₂, scanned, l, hrun'⟩ := gives_updateWith hrun
  obtain ⟨-, d₁, content, hmade, hencode, hcontent⟩ := hrun'.written
  rw [hrun]
  refine ⟨stored, current, h₂, scanned, l, d₁, hrun', hmade, fun hfree hback => ?_⟩
  obtain ⟨m, hm, hload⟩ := hrun'.exists_updated Value.readsBack_alike
    (nodup_sourceNames_of_open hopen) hback hencode
  exact ⟨m, hload (hcontent hfree), hm⟩

end records

/-! ### One source -/

section oneSource

/-- Settings with one source. -/
def oneSource (ref : String) : String := "sources:
- type: crd
  name: api
  git:
    url: https://a.b/c
    ref: " ++ ref

/-- A machine with these settings, where the source has a current fingerprint. -/
def oneSourceHost (ref : String) (entries : List (Place × Entry)) : Host :=
  { twoSourcesHost with
    disk := ⟨(configPath.parts, .file (oneSource ref).toUTF8.toList 0) ::
      (listPath.parts, .file "api: x".toUTF8.toList 0) :: entries, []⟩ }

/-- Does what an update would save pass a check, and is its lockfile's path vacant? -/
def savesBy (s : Settings) (p : Path) (h : Host) (check : Lockfile → Bool) : Bool :=
  let h₁ := afterReading h
  match Lockfile.loadOrCreate h₁.disk p h₁.now h₁.toolVersion,
    (currentFingerprints s (some listPath)).run.run h₁ with
  | .ok stored, (.ok current, h₂) =>
    match scanResolved h₂ configPath s current, elapsedMillis (reading h) (reading h₂),
      h₂.disk.makeFolders p.parent with
    | .ok scanned, .ok totalMillis, (d₁, .ok ()) =>
      (d₁.locate p false).toOption.any (· matches .vacant _) &&
      check (updatedLockfile s stored current scanned totalMillis h₂.now h₂.toolVersion).next
    | _, _, _ => false
  | _, _ => false

/-- Is what an update writes legible, and is its lockfile's path vacant? -/
def comesBack (s : Settings) (p : Path) (h : Host) : Bool :=
  savesBy s p h fun l => decide l.IsLegible

variable {h h₂ : Host} {s : Settings} {p : Path} {stored l : Lockfile} {current : Ledger String}
  {scanned : Ledger FileRecord} {d d₁ : Disk}

theorem of_savesBy {check : Lockfile → Bool} (hcheck : savesBy s p h check)
    (hrun : UpdateRun s (reading h) configPath p (some listPath) (afterReading h) stored current h₂
      scanned l d) (hmade : h₂.disk.makeFolders p.parent = (d₁, .ok ())) :
    d₁.HasFreeEnd p ∧ check l := by
  obtain ⟨⟨totalMillis, htakes, rfl⟩, -⟩ := hrun.written
  have hcurrent : (currentFingerprints s (some listPath)).run.run (afterReading h) =
    (.ok current, h₂) := hrun.resolves
  simp only [savesBy, hrun.opens, hcurrent, hrun.scans, htakes, hmade, Bool.and_eq_true] at hcheck
  refine ⟨?_, hcheck.2⟩
  match hlocate : d₁.locate p false with
  | .ok (.vacant q) => exact Disk.IsVacant.hasFreeEnd ⟨q, Disk.leads_of_locate_vacant hlocate⟩
  | .ok (.found ..) | .error _ => simp [hlocate, Except.toOption] at hcheck

theorem of_comesBack (hcheck : comesBack s p h)
    (hrun : UpdateRun s (reading h) configPath p (some listPath) (afterReading h) stored current h₂
      scanned l d) (hmade : h₂.disk.makeFolders p.parent = (d₁, .ok ())) :
    d₁.HasFreeEnd p ∧ l.GivenBack Value.Alike := by
  obtain ⟨hfree, hlegible⟩ := of_savesBy hcheck hrun hmade
  obtain ⟨⟨totalMillis, -, rfl⟩, -⟩ := hrun.written
  exact ⟨hfree, (of_decide_eq_true hlegible).givenBack (wellFormed_updatedLockfile
    (Lockfile.of_loadOrCreate hrun.opens).1 (scanned_of_scanResolved hrun.scans))⟩

/-- What an update on this machine leaves. -/
abbrev oneSourceRun (lockfile : Option Path) (ref : String) (entries : List (Place × Entry)) :
    Except Stop Unit × Host :=
  (lockUpdate configPath lockfile (some listPath)).run.run (oneSourceHost ref entries)

/-- What the settings say of a reference, with the output folder that is proposed. -/
def oneSettings (ref : String) : Settings :=
  { Settings.default with
    sources := [⟨"crd", "api", ⟨"https://a.b/c", ref⟩, [], [], [], "generated/api", []⟩] }

/-- With these settings an update of this machine goes on to its source. -/
theorem oneSourceRun_of_open {ref ref' : String} {entries : List (Place × Entry)}
    (hopen : Gives (openSettings configPath) (oneSourceHost ref entries) (oneSettings ref')
      (oneSourceHost ref entries)) (lockfile : Option Path) :
    oneSourceRun lockfile ref entries =
      (updateWith (oneSettings ref') (reading (oneSourceHost ref entries)) configPath lockfile
        (some listPath)).run.run (afterReading (oneSourceHost ref entries)) :=
  run_lockUpdate hopen (List.cons_ne_nil _ _)

/-- Does a run end with success, on a machine that passes a check? -/
def endsWell (run : Except Stop Unit × Host) (check : Host → Bool) : Bool :=
  match run with
  | (r, h) => (ending r).exitCode == 0 && check h

theorem of_endsWell {run : Except Stop Unit × Host} {check : Host → Bool}
    (hrun : endsWell run check) : (ending run.1).exitCode = 0 ∧ check run.2 := by
  simpa [endsWell] using hrun

/-- An update of this machine succeeds, and what it writes comes back. -/
theorem oneSource_comesBack :
    Gives (openSettings configPath) (oneSourceHost "main" []) (oneSettings "main")
        (oneSourceHost "main" []) ∧
      comesBack (oneSettings "main") (lockfilePath (oneSettings "main") none)
        (oneSourceHost "main" []) ∧
      (ending (oneSourceRun none "main" []).1).exitCode = 0 := by
  have hopen : Gives (openSettings configPath) (oneSourceHost "main" []) (oneSettings "main")
    (oneSourceHost "main" []) := gives_of_opened (by decide +kernel)
  refine ⟨hopen, by decide +kernel, ?_⟩
  rw [oneSourceRun_of_open hopen]
  decide +kernel

theorem lockUpdate_exact_of_one :
    ∃ s stored current scanned m,
      Gives (openSettings configPath) (oneSourceHost "main" []) s (oneSourceHost "main" []) ∧
      (ending (oneSourceRun none "main" []).1).exitCode = 0 ∧
      Lockfile.load (oneSourceRun none "main" []).2.disk (lockfilePath s none) = .ok m ∧
      Updated Value.Alike s stored current scanned m := by
  obtain ⟨hopen, hcheck, hexit⟩ := oneSource_comesBack
  obtain ⟨stored, current, h₂, scanned, l, d₁, hrun, hmade, hload⟩ :=
    lockUpdate_exact hopen (List.cons_ne_nil _ _) hexit
  obtain ⟨hfree, hback⟩ := of_comesBack hcheck hrun hmade
  obtain ⟨m, hm, hupdated⟩ := hload hfree hback
  exact ⟨_, stored, current, scanned, m, hopen, hexit, hm, hupdated⟩

/-- A reference with a line end that YAML folds. -/
def foldedRef : String := "\"x\\Ny\""

/-- What is written of that reference: its line end stays as it is. -/
def foldedDocument : String := "schema_version: '1.0'
generated_at: '2024-06-01T12:00:00+00:00'
tool_version: 0.1.0
revision: 1
sources:
  api:
    url: https://a.b/c
    ref: 'x\u0085      y'
    fingerprint: x
    fetched_at: '2024-06-01T12:00:00+00:00'
    filters: []
    metadata: \x7b\x7d
files: \x7b\x7d
dependencies: \x7b\x7d
statistics:
  total_processing_time_ms: 0
  sources_processed: 1
  files_generated: 0
  error_count: 0
  warning_count: 0
  cache_hit_rate: 0.0
"

set_option maxRecDepth 3000 in
/-- An update writes that document, and another reference is read in it. -/
theorem folded_misread :
    Gives (openSettings configPath) (oneSourceHost foldedRef []) (oneSettings "x\u0085y")
      (oneSourceHost foldedRef []) ∧
    (ending (oneSourceRun none foldedRef []).1).exitCode = 0 ∧
    ∃ current h₂ m r, Gives (currentFingerprints (oneSettings "x\u0085y") (some listPath))
        (afterReading (oneSourceHost foldedRef [])) current h₂ ∧ current.has "api" ∧
      Lockfile.load (oneSourceRun none foldedRef []).2.disk
        (lockfilePath (oneSettings "x\u0085y") none) = .ok m ∧
      m.sources.find? "api" = some r ∧ r.ref = "x y" := by
  have hopen : Gives (openSettings configPath) (oneSourceHost foldedRef [])
    (oneSettings "x\u0085y") (oneSourceHost foldedRef []) := gives_of_opened (by decide +kernel)
  have hexit : (ending (oneSourceRun none foldedRef []).1).exitCode = 0 := by
    rw [oneSourceRun_of_open hopen]
    decide +kernel
  have htext : foldedDocument.toList = _ := Text.toList_eq rfl
  have hwrites : savesBy (oneSettings "x\u0085y") (lockfilePath (oneSettings "x\u0085y") none)
      (oneSourceHost foldedRef []) fun l =>
        l.encode.toOption.any (· == Text.encodeUtf8 foldedDocument.toList) := by
    rw [htext]
    decide +kernel
  have hread : Lockfile.isRead foldedDocument.toList fun m =>
      (m.sources.find? "api").any (·.ref == "x y") := by
    rw [htext]
    decide +kernel
  have hresolved : ((currentFingerprints (oneSettings "x\u0085y") (some listPath)).run.run
      (afterReading (oneSourceHost foldedRef []))).1.toOption.any (·.has "api") := by
    decide +kernel
  obtain ⟨stored, current, h₂, scanned, l, d₁, hrun, hmade, -⟩ :=
    lockUpdate_exact hopen (List.cons_ne_nil _ _) hexit
  obtain ⟨hfree, hsaved⟩ := of_savesBy hwrites hrun hmade
  obtain ⟨-, d₁', content, hmade', hencode, hcontent⟩ := hrun.written
  obtain rfl : d₁ = d₁' := congrArg Prod.fst (hmade.symm.trans hmade')
  rw [hencode] at hsaved
  rw [eq_of_beq hsaved] at hcontent
  obtain ⟨m, hm, hcheck⟩ := Lockfile.exists_load_of_isRead (hcontent hfree) hread
  obtain ⟨r, hr, href⟩ := (Option.any_eq_true _ _).mp hcheck
  rw [congrArg Prod.fst hrun.resolves] at hresolved
  exact ⟨hopen, hexit, current, h₂, m, r, hrun.resolves, hresolved, hm, hr, eq_of_beq href⟩

/-- A folder and a chain of links to it, each of which is followed once on the way. -/
def linkChain : List (Place × Entry) :=
  (["sub"], .folder) :: (["c21"], .link "sub") ::
    (List.range 20).map fun n => ([s!"c{n + 1}"], .link s!"c{n + 2}")

/-- A path that goes through the chain twice, which is too far. -/
def chainPath : Path := ⟨0, ["c1", "..", "c1"]⟩

/-- An update through the chain succeeds, and nothing is read at the path afterwards. -/
theorem chained_lost :
    Gives (openSettings configPath) (oneSourceHost "main" linkChain) (oneSettings "main")
      (oneSourceHost "main" linkChain) ∧
    (ending (oneSourceRun (some chainPath) "main" linkChain).1).exitCode = 0 ∧
    ∀ m, Lockfile.load (oneSourceRun (some chainPath) "main" linkChain).2.disk chainPath ≠
      .ok m := by
  have hopen : Gives (openSettings configPath) (oneSourceHost "main" linkChain)
    (oneSettings "main") (oneSourceHost "main" linkChain) := gives_of_opened (by decide +kernel)
  have hchained : endsWell (oneSourceRun (some chainPath) "main" linkChain) fun h =>
      !(Lockfile.load h.disk chainPath).toOption.isSome := by
    rw [oneSourceRun_of_open hopen]
    decide +kernel
  obtain ⟨hexit, hcheck⟩ := of_endsWell hchained
  refine ⟨hopen, hexit, fun m hm => ?_⟩
  rw [hm] at hcheck
  cases hcheck

/-- **What is read after an update may not be what it was to record**: when YAML folds a reference
    that was written, and when the lockfile takes the place of a link that its own path runs
    through. -/
theorem lockUpdate_misses_state :
    (∃ s x current h₂ m r,
      Gives (openSettings configPath) (oneSourceHost foldedRef []) s (oneSourceHost foldedRef []) ∧
      (ending (oneSourceRun none foldedRef []).1).exitCode = 0 ∧
      Gives (currentFingerprints s (some listPath)) (afterReading (oneSourceHost foldedRef []))
        current h₂ ∧
      Lockfile.load (oneSourceRun none foldedRef []).2.disk (lockfilePath s none) = .ok m ∧
      x ∈ s.sources ∧ current.has x.name ∧ m.sources.find? x.name = some r ∧
      r.ref ≠ x.git.ref) ∧
    ∃ s, Gives (openSettings configPath) (oneSourceHost "main" linkChain) s
        (oneSourceHost "main" linkChain) ∧ s.sources ≠ [] ∧
      (ending (oneSourceRun (some chainPath) "main" linkChain).1).exitCode = 0 ∧
      ∀ m, Lockfile.load (oneSourceRun (some chainPath) "main" linkChain).2.disk chainPath ≠
        .ok m := by
  constructor
  · obtain ⟨hopen, hexit, current, h₂, m, r, hcurrent, hresolved, hm, hr, href⟩ := folded_misread
    refine ⟨_, _, current, h₂, m, r, hopen, hexit, hcurrent, hm, List.mem_singleton_self _,
      hresolved, hr, ?_⟩
    rw [href]
    decide
  · obtain ⟨hopen, hexit, hlost⟩ := chained_lost
    exact ⟨_, hopen, List.cons_ne_nil _ _, hexit, hlost⟩

end oneSource

end Regen.Command
