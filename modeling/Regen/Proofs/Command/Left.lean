import Regen.Proofs.Command.Keeps
import Regen.Proofs.Command.Update
import Regen.Proofs.Disk.Apart

/-! # What commands leave

    A command leaves the path of its lockfile as it was, or it saves one lockfile there: an
    empty one, one with the stale records swept out, or the updated one.  Nothing else that it does
    reaches the lockfile, if the path is not that of another file that it writes and nobody else
    writes there while git runs. -/

namespace Regen

namespace Lockfile

/-- **What is left at a path** that held `c`: the same, or the document of a lockfile that was
    saved at the revision of what was there. -/
inductive Left (Saved : Lockfile → Prop) (p : Path) (c : Option Bytes) (d : Disk) : Prop
  | same (hholds : Holds d p c)
  | saved {l : Lockfile} {content : Bytes} {d₁ : Disk} (hsaved : Saved l)
      (hencode : l.next.encode = .ok content) (hthere : Holds d₁ p c)
      (hcheck : checkRevision d₁ p l.revision = .ok ()) (hholds : Holds d p (some content))

variable {Saved : Lockfile → Prop} {d : Disk} {p : Path} {c : Option Bytes} {l : Lockfile}

theorem left_save (h : Holds d p c) (hsaved : Saved l) : Left Saved p c (save d p l false).1 := by
  match hsave : save d p l false with
  | (d', .error f) => exact .same (h.save_error hsave)
  | (d', .ok l') =>
    obtain ⟨rfl, content, hencode, hend, hcheck⟩ := h.save_ok hsave
    obtain ⟨d₁, hthere, hcheck⟩ := hcheck rfl
    rcases hend with hholds | ⟨rfl, hcut⟩
    · exact .saved hsaved hencode hthere hcheck hholds
    · exact .same hcut

end Lockfile

namespace Command

open Lockfile

/-! ## Files of a command -/

/-- Nobody else writes: a path holds the same all the while git answers. -/
def Undisturbed (p : Path) (c : Option Bytes) : Disk → List GitReply → Prop
  | d, [] => Holds d p c
  | d, reply :: rest => Holds d p c ∧ Undisturbed p c (Run.applyWrites d reply.writes) rest

section undisturbed
variable {p : Path} {c : Option Bytes}

theorem Undisturbed.holds {d : Disk} {git : List GitReply} (h : Undisturbed p c d git) :
    Holds d p c := by
  cases git with
  | nil => exact h
  | cons => exact h.1

theorem answered_undisturbed : Answered fun h => Undisturbed p c h.disk h.git := by
  intro h reply rest hgit hI
  rw [hgit] at hI
  exact hI.2

theorem aloof_undisturbed : Aloof fun h => Undisturbed p c h.disk h.git :=
  fun _ _ _ _ _ hI => hI

theorem aloof_holds : Aloof fun h => Holds h.disk p c := fun _ _ _ _ _ hI => hI

theorem aloof_left {Saved : Lockfile → Prop} : Aloof fun h => Left Saved p c h.disk :=
  fun _ _ _ _ _ hI => hI

end undisturbed

/-- The path of the lockfile that a command comes to have, if it gets as far. -/
def Invocation.lockfile? : Invocation → Host → Option Path
  | .version, _ => none
  | .init folder, h =>
    (resolvePath h.disk folder).toOption.map (· / Path.ofText Lockfile.defaultName)
  | .status config lockfile _ _, h | .plan config lockfile _ _, h
  | .cleanup config lockfile _ _ _, h | .lockStatus config lockfile, h
  | .lockUpdate config lockfile _, h =>
    ((openSettings config).run.run h).1.toOption.map (lockfilePath · lockfile)

/-- **A command uses one lockfile path**: its lockfile is there, and the settings file of a new
    project is another file. -/
structure Invocation.Uses (i : Invocation) (h : Host) (p : Path) : Prop where
  lockfile : ∀ q, i.lockfile? h = some q → q = p
  settings : ∀ folder real, i = .init folder → resolvePath h.disk folder = .ok real →
    (h.disk.makeFolders real).1.Apart p (real / Path.ofText settingsName)

/-- **The lockfile that a command may save** on a host at a path. -/
inductive Saves (h : Host) : Invocation → Path → Lockfile → Prop
  /-- A new project begins with an empty lockfile. -/
  | init {folder real : Path} (hreal : resolvePath h.disk folder = .ok real) :
      Saves h (.init folder) (real / Path.ofText Lockfile.defaultName)
        (Lockfile.empty h.now h.toolVersion)
  /-- Cleaning up sweeps out the stale records. -/
  | cleanup {config : Path} {lockfile : Option Path} {maxAge : Option Int} {dryRun yes : Bool}
      {s : Settings} {stored swept : Lockfile} (hopen : Gives (openSettings config) h s h)
      (hopens : loadOrCreate h.disk (lockfilePath s lockfile) h.now h.toolVersion = .ok stored)
      (hswept : stored.sweep (maxAge.getD s.maxAgeHours) h.now = .ok (swept, true)) :
      Saves h (.cleanup config lockfile maxAge dryRun yes) (lockfilePath s lockfile) swept
  /-- An update records the current state, if the configured sources have an order. -/
  | update {config : Path} {lockfile fingerprints : Option Path} {s : Settings} {stored : Lockfile}
      {order : List String} {current : Ledger String} {h₂ : Host} {scanned : Ledger FileRecord}
      {totalMillis : Int} (hopen : Gives (openSettings config) h s h)
      (hopens : loadOrCreate h.disk (lockfilePath s lockfile) h.now h.toolVersion = .ok stored)
      (horders : (Graph.ofDependencies s.dependencies s.sourceNames).generationOrder = .ok order)
      (hresolves : Gives (currentFingerprints s fingerprints) (afterReading h) current h₂)
      (hscans : scanResolved h₂ config s current = .ok scanned)
      (htakes : elapsedMillis (reading h) (reading h₂) = .ok totalMillis) :
      Saves h (.lockUpdate config lockfile fingerprints) (lockfilePath s lockfile)
        (updatedLockfile s stored current scanned totalMillis h₂.now h₂.toolVersion)

section leaving
variable {h : Host} {p : Path} {c : Option Bytes}

/-- However a change of the disk ends, it changes nothing else. -/
theorem host_onDisk {α : Type} (f : Disk → Disk × Except Failure α) (h : Host) :
    ((Run.onDisk f).run.run h).2 = { h with disk := (f h.disk).1 } :=
  Run.keeps_ofExcept (I := (· = { h with disk := (f h.disk).1 })) (f h.disk).2 _ rfl

/-- A save within a command does what a save does, and after it there are only messages. -/
theorem brings_writeLockfile {I J : Host → Prop} {l : Lockfile} (haloof : Aloof J)
    (hsave : ∀ h, I h → J { h with disk := (save h.disk p l false).1 }) :
    Brings I J (writeLockfile p l) := by
  refine Brings.bind (fun h hI => ?_) (fun _ hJ => hJ) fun outcome => ?_
  · have hafter : ((attempt (Run.onDisk fun d => save d p l false)).run.run h).2 =
        { h with disk := (save h.disk p l false).1 } := host_onDisk (fun d => save d p l false) h
    rw [hafter]
    exact hsave h hI
  · split
    · exact Keeps.pure _
    · exact keeps_sayAndExit haloof _ _
    · exact keeps_sayAndExit haloof _ _
    · exact keeps_sayAndExit haloof _ _
    · exact Keeps.throw

/-- So a path that held something is left as a save leaves it. -/
theorem brings_left {Saved : Lockfile → Prop} {l : Lockfile} (hsaved : Saved l) :
    Brings (fun h : Host => Holds h.disk p c) (fun h => Left Saved p c h.disk)
      (writeLockfile p l) :=
  brings_writeLockfile aloof_left fun _ hI => left_save hI hsaved

/-! ## Beginning a project -/

/-- The time and the version of the tool that a host has. -/
def SameTool (h h' : Host) : Prop := h'.now = h.now ∧ h'.installed = h.installed

/-- The settings file of a new project is written at most once, and nothing else is changed. -/
theorem brings_writeTemplate {I J : Host → Prop} {file : Path} (haloof : Aloof I)
    (haloof' : Aloof J) (hIJ : ∀ h, I h → J h)
    (hwrite : ∀ h content d, I h → h.disk.writeFile file content = .ok d → J { h with disk := d }) :
    Brings I J (writeTemplate file) := by
  refine .bind (keeps_pathExists file) hIJ fun found => ?_
  dsimp only
  split
  on_goal 1 => refine .bind (keeps_say haloof _) hIJ fun _ => .bind (keeps_confirm haloof _) hIJ ?_
  on_goal 2 => refine .bind (Keeps.pure true) hIJ ?_
  all_goals
    intro wanted
    split
    · refine Brings.get_bind fun h hI => ?_
      generalize Text.encodeUtf8 Settings.template.toList = content
      cases hresult : h.disk.writeFile file content with
      | error f => exact hIJ h hI
      | ok d =>
        have hgives : Gives (ofRun (Run.ofDisk (.ok d))) h d h := rfl
        rw [hgives.run_bind]
        refine Brings.bind (I := (· = h)) (.modify fun h' heq => ?_) (fun _ hJ => hJ)
          (fun _ => keeps_say haloof' _) h rfl
        exact heq ▸ hwrite h content d hI hresult
    · exact (keeps_say haloof _).brings hIJ

theorem brings_writeEmptyLockfile {Saved : Lockfile → Prop}
    (hsaved : Saved (Lockfile.empty h.now h.toolVersion)) :
    Brings (fun h' => Holds h'.disk p c ∧ SameTool h h') (fun h' => Left Saved p c h'.disk)
      (writeEmptyLockfile p) := by
  have haloof : Aloof fun h' => Holds h'.disk p c ∧ SameTool h h' := fun _ _ _ _ _ hI => hI
  refine .bind (keeps_pathExists p) (fun _ hI => .same hI.1) fun found => ?_
  split
  · exact (keeps_say haloof _).brings fun _ hI => .same hI.1
  · refine Brings.get_bind fun h' hI => ?_
    have hempty : Lockfile.empty h'.now h'.toolVersion = Lockfile.empty h.now h.toolVersion := by
      rw [Host.toolVersion, Host.toolVersion, hI.2.1, hI.2.2]
    refine Brings.bind (brings_left (hempty ▸ hsaved)) (fun _ hJ => hJ)
      (fun _ => keeps_say aloof_left _) h' hI.1

/-- Beginning a project leaves the lockfile's path as it was, or an empty lockfile there. -/
theorem brings_init {folder : Path} (hI : Holds h.disk p c)
    (huses : (Invocation.init folder).Uses h p) :
    Brings (· = h) (fun h' => Left (Saves h (.init folder) p) p c h'.disk) (init folder) := by
  have hsame : ∀ h' : Host, Holds h'.disk p c → Left (Saves h (.init folder) p) p c h'.disk :=
    fun _ => .same
  refine .seq (Keeps.get.atState hI) hsame ?_
  rintro _ h _ rfl hget -
  obtain ⟨rfl, rfl⟩ := gives_get.mp hget
  refine .seq ((keeps_ofExcept _).atState hI) hsame ?_
  rintro real h _ rfl hgives -
  obtain ⟨hreal, rfl⟩ := gives_ofExcept.mp hgives
  obtain rfl : real / Path.ofText Lockfile.defaultName = p :=
    huses.lockfile _ (by rw [Invocation.lockfile?, hreal]; rfl)
  -- Making the folder of the project makes a folder on the way of the lockfile.
  have hparent : (real / Path.ofText Lockfile.defaultName).parent = real := by
    show ({ real with parts := (real.parts ++ [Lockfile.defaultName]).dropLast } : Path) = real
    rw [List.dropLast_concat]
  have hthere : Holds (h.disk.makeFolders real).1 (real / Path.ofText Lockfile.defaultName) c :=
    hI.made (by
      rw [hparent]
      exact Disk.foldersMade_makeFolders h.disk real)
  have hholds : ∀ h' : Host, h'.disk = (h.disk.makeFolders real).1 ∧ SameTool h h' →
      Holds h'.disk (real / Path.ofText Lockfile.defaultName) c ∧ SameTool h h' :=
    fun h' hmade => ⟨hmade.1 ▸ hthere, hmade.2⟩
  refine .bind (K := fun h' => h'.disk = (h.disk.makeFolders real).1 ∧ SameTool h h') ?_
    (fun h' hmade => .same (hholds h' hmade).1) fun _ => ?_
  · rintro h rfl
    have hafter := host_onDisk (fun d =>
      ((d.makeFolders real).1, (d.makeFolders real).2.mapError Failure.disk)) h
    exact ⟨congrArg Host.disk hafter, (congrArg Host.now hafter :),
      (congrArg Host.installed hafter :)⟩
  refine .bind (brings_writeTemplate (fun _ _ _ _ _ hmade => hmade) (fun _ _ _ _ _ hI => hI) hholds
    fun h' content d hmade hwrite => ?_) (fun _ hI => .same hI.1) fun _ => ?_
  · have hapart := huses.settings folder real rfl hreal
    rw [← hmade.1] at hapart
    exact ⟨(hholds h' hmade).1.writeFile hapart hwrite, hmade.2⟩
  refine .bind (brings_writeEmptyLockfile (.init hreal)) (fun _ hJ => hJ) fun _ => ?_
  exact (keeps_say aloof_left _).bind fun _ => (keeps_say aloof_left _).bind fun _ =>
    (keeps_say aloof_left _).bind fun _ => (keeps_say aloof_left _).bind fun _ =>
    keeps_say aloof_left _

/-! ## Cleaning up -/

/-- **What cleaning up does to the disk**: nothing, or it saves the lockfile without the records
    that were stale. -/
inductive Cleaned (h : Host) (config : Path) (lockfile : Option Path) (maxAge : Option Int)
    (dryRun : Bool) (d : Disk) : Prop
  | same (hsame : d = h.disk)
  | swept {s : Settings} {stored swept : Lockfile} (hopen : Gives (openSettings config) h s h)
      (hopens : loadOrCreate h.disk (lockfilePath s lockfile) h.now h.toolVersion = .ok stored)
      (hreal : dryRun = false)
      (hswept : stored.sweep (maxAge.getD s.maxAgeHours) h.now = .ok (swept, true))
      (hsaved : d = (save h.disk (lockfilePath s lockfile) swept false).1)

/-- The disk of a host. -/
def HasDisk (d : Disk) (h : Host) : Prop := h.disk = d

theorem brings_cleaned {config : Path} {lockfile : Option Path} {maxAge : Option Int}
    {dryRun yes : Bool} :
    Brings (· = h) (fun h' => Cleaned h config lockfile maxAge dryRun h'.disk)
      (cleanup config lockfile maxAge dryRun yes) := by
  have hI : HasDisk h.disk h := rfl
  have hsame : ∀ h', HasDisk h.disk h' → Cleaned h config lockfile maxAge dryRun h'.disk :=
    fun _ => .same
  have haloof : Aloof (HasDisk h.disk) := fun _ _ _ _ _ hI => hI
  have haloof' : Aloof fun h' => Cleaned h config lockfile maxAge dryRun h'.disk :=
    fun _ _ _ _ _ hI => hI
  refine .seq ((keeps_openSettings haloof config).atState hI) hsame ?_
  rintro s h _ rfl hopen -
  obtain ⟨rfl, -⟩ := gives_openSettings.mp hopen
  refine .seq ((keeps_pathExists _).atState hI) hsame ?_
  rintro found h _ rfl hexists -
  obtain ⟨-, rfl⟩ := gives_pathExists.mp hexists
  dsimp only
  split
  -- Without a lockfile the command stops, though its text goes on.
  · exact .seq ((keeps_sayAndExit haloof _ _).atState hI) hsame
      fun _ _ _ _ hgives => absurd hgives not_gives_sayAndExit
  refine .seq ((keeps_openLockfile haloof _).atState hI) hsame ?_
  rintro stored h _ rfl hgives -
  obtain ⟨hopens, rfl⟩ := gives_openLockfile.mp hgives
  refine .seq (Keeps.get.atState hI) hsame ?_
  rintro _ h _ rfl hget -
  obtain ⟨rfl, rfl⟩ := gives_get.mp hget
  refine .bind ((keeps_ofValue _).atState hI) hsame fun report => ?_
  split
  · exact Keeps.brings ((keeps_ofValue _).bind fun _ => keeps_say haloof _) hsame
  -- From here on the host is no longer the one at the start, but its disk is.
  refine .bind (keeps_showReport haloof _) hsame fun _ => ?_
  split
  · exact (keeps_say haloof _).brings hsame
  next hdry =>
  split
  -- Only one branch asks the user; both go on with the sweep.
  on_goal 1 =>
    refine .bind (keeps_confirm haloof _) hsame fun sure => ?_
    split
    on_goal 1 =>
      exact .seq ((keeps_sayAndExit haloof _ _).brings hsame) (fun _ hJ => hJ)
        fun _ _ _ _ hgives => absurd hgives not_gives_sayAndExit
  all_goals
    refine .seq (keeps_ofValue _) hsame ?_
    rintro ⟨swept, removed⟩ h₁ _ hI hgives -
    obtain ⟨hswept, rfl⟩ := gives_ofValue hgives
    dsimp only
    split
    · next hremoved =>
      subst hremoved
      refine .bind (Brings.atState (brings_writeLockfile haloof' fun h' hhere => ?_) hI)
        (fun _ hJ => hJ) fun _ => keeps_say haloof' _
      exact .swept hopen hopens (Bool.eq_false_iff.mpr hdry) hswept
        (congrArg (fun d => (save d _ _ false).1) hhere)
    · exact ((keeps_say haloof _).brings hsame).atState hI

theorem brings_cleanup {config : Path} {lockfile : Option Path} {maxAge : Option Int}
    {dryRun yes : Bool} (hI : Holds h.disk p c)
    (huses : (Invocation.cleanup config lockfile maxAge dryRun yes).Uses h p) :
    Brings (· = h)
      (fun h' => Left (Saves h (.cleanup config lockfile maxAge dryRun yes) p) p c h'.disk)
      (cleanup config lockfile maxAge dryRun yes) := by
  rintro h rfl
  have hcleaned : Cleaned h config lockfile maxAge dryRun
      ((cleanup config lockfile maxAge dryRun yes).run.run h).2.disk := brings_cleaned h rfl
  rcases hcleaned with hsame | ⟨hopen, hopens, -, hswept, hsaved⟩
  · exact .same (hsame ▸ hI)
  · obtain rfl := huses.lockfile _ (by rw [Invocation.lockfile?, hopen]; rfl)
    rw [hsaved]
    exact left_save hI (.cleanup hopen hopens hswept)

/-! ## Updating -/

theorem brings_lockUpdate {config : Path} {lockfile fingerprints : Option Path}
    (hI : Undisturbed p c h.disk h.git)
    (huses : (Invocation.lockUpdate config lockfile fingerprints).Uses h p) :
    Brings (· = h)
      (fun h' => Left (Saves h (.lockUpdate config lockfile fingerprints) p) p c h'.disk)
      (lockUpdate config lockfile fingerprints) := by
  have hsame : ∀ h' : Host, Undisturbed p c h'.disk h'.git →
      Left (Saves h (.lockUpdate config lockfile fingerprints) p) p c h'.disk :=
    fun _ hI => .same hI.holds
  refine .seq ((keeps_ofRun (Run.keeps_readClock aloof_undisturbed)).atState hI) hsame ?_
  rintro started h _ rfl hclock hI
  obtain ⟨hstarted, rfl⟩ := Prod.mk.inj (hclock.symm.trans (gives_readClock h))
  obtain rfl := Except.ok.inj hstarted
  refine .seq ((keeps_openSettings aloof_undisturbed config).atState hI) hsame ?_
  rintro s _ _ rfl hgives -
  obtain ⟨rfl, hopened⟩ := gives_openSettings.mp hgives
  have hopen : Gives (openSettings config) h s h := gives_openSettings.mpr ⟨rfl, hopened⟩
  obtain rfl : lockfilePath s lockfile = p :=
    huses.lockfile _ (by rw [Invocation.lockfile?, hopen]; rfl)
  split
  -- Without sources there is only a hint.
  · exact ((keeps_sayAndExit aloof_undisturbed _ _).brings hsame).atState hI
  unfold updateWith
  refine .seq ((keeps_openLockfile aloof_undisturbed _).atState hI) hsame ?_
  rintro stored _ _ rfl hgives -
  obtain ⟨hopens, rfl⟩ := gives_openLockfile.mp hgives
  refine .seq ((keeps_requireOrder aloof_undisturbed _).atState hI) hsame ?_
  rintro _ _ _ rfl horder -
  obtain ⟨rfl, order, horders⟩ := gives_requireOrder horder
  -- Others may write while git runs, so that the disk is another one afterwards.
  refine .seq ((keeps_currentFingerprints aloof_undisturbed answered_undisturbed _ _).atState hI)
    hsame ?_
  rintro current _ h₂ rfl hresolves hI₂
  refine .seq (Keeps.get.atState hI₂) hsame ?_
  rintro _ h₂ _ rfl hget -
  obtain ⟨rfl, rfl⟩ := gives_get.mp hget
  refine .seq ((keeps_ofExcept _).atState hI₂) hsame ?_
  rintro scanned h₂ _ rfl hgives -
  obtain ⟨hscans, rfl⟩ := gives_ofExcept.mp hgives
  refine .seq ((keeps_ofRun (Run.keeps_readClock aloof_undisturbed)).atState hI₂) hsame ?_
  rintro stopped h₂ _ rfl hclock hI₃
  obtain ⟨hstopped, rfl⟩ := Prod.mk.inj (hclock.symm.trans (gives_readClock h₂))
  obtain rfl := Except.ok.inj hstopped
  refine .seq ((keeps_ofValue _).atState hI₃) hsame ?_
  rintro totalMillis _ _ rfl hgives -
  obtain ⟨htakes, rfl⟩ := gives_ofValue hgives
  exact .bind ((brings_left (.update hopen hopens horders hresolves hscans htakes)).atState
    hI₃.holds) (fun _ hJ => hJ) fun _ => keeps_showUpdate aloof_left _ _ _ _ _ _

/-- **A command leaves the lockfile's path as it was, or it saves one lockfile there.** -/
theorem left_perform {i : Invocation} (hI : Undisturbed p c h.disk h.git) (huses : i.Uses h p) :
    Left (Saves h i p) p c ((perform i).run.run h).2.disk := by
  cases i with
  | version => exact .same (keeps_showVersion aloof_holds h hI.holds)
  | init folder => exact brings_init hI.holds huses h rfl
  | status config lockfile fingerprints detailed =>
    exact .same (keeps_status aloof_undisturbed answered_undisturbed _ _ _ _ h hI).holds
  | plan config lockfile fingerprints force =>
    exact .same (keeps_plan aloof_undisturbed answered_undisturbed _ _ _ _ h hI).holds
  | cleanup config lockfile maxAge dryRun yes => exact brings_cleanup hI.holds huses h rfl
  | lockStatus config lockfile => exact .same (keeps_lockStatus aloof_holds _ _ h hI.holds)
  | lockUpdate config lockfile fingerprints => exact brings_lockUpdate hI huses h rfl

end leaving

end Command

end Regen
