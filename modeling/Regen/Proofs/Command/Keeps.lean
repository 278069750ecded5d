import Regen.Proofs.Command.Basic

/-! # What commands keep

    However a command ends, it keeps what holds of its surroundings, unless it writes there.
    Printing, asking the user and reading the clock keep everything that is not about these, and
    a call of git keeps what its answer does. -/

namespace Regen

section keeping
variable {ε σ α β : Type}

/-- However a computation ends, it brings a state where `I` holds to one where `J` holds. -/
def Brings (I J : σ → Prop) (c : ExceptT ε (StateM σ) α) : Prop := ∀ s, I s → J (c.run.run s).2

/-- However a computation ends, it keeps what holds of the state. -/
def Keeps (I : σ → Prop) (c : ExceptT ε (StateM σ) α) : Prop := Brings I I c

variable {I J : σ → Prop} {c : ExceptT ε (StateM σ) α} {f : α → ExceptT ε (StateM σ) β}

theorem Brings.modify {g : σ → σ} (hg : ∀ s, I s → J (g s)) :
    Brings I J (modify g : ExceptT ε (StateM σ) PUnit) := hg

theorem Keeps.pure (x : α) : Keeps I (pure x : ExceptT ε (StateM σ) α) := fun _ h => h

theorem Keeps.throw {e : ε} : Keeps I (throw e : ExceptT ε (StateM σ) α) := fun _ h => h

theorem Keeps.get : Keeps I (get : ExceptT ε (StateM σ) σ) := fun _ h => h

theorem Keeps.modify {g : σ → σ} (hg : ∀ s, I s → I (g s)) :
    Keeps I (modify g : ExceptT ε (StateM σ) PUnit) := hg

theorem Keeps.brings (hc : Keeps I c) (hIJ : ∀ s, I s → J s) : Brings I J c :=
  fun s hs => hIJ _ (hc s hs)

theorem Brings.atState (hc : Brings I J c) {s : σ} (hs : I s) : Brings (· = s) J c := by
  rintro _ rfl
  exact hc _ hs

/-- Two steps end where the first stops, or where the second ends on what the first gave. -/
theorem Brings.seq {K : σ → Prop} (hc : Brings I K c) (hKJ : ∀ s, K s → J s)
    (hf : ∀ x s s', I s → Gives c s x s' → K s' → Brings (· = s') J (f x)) :
    Brings I J (c >>= f) := by
  intro s hs
  have hafter := hc s hs
  rcases gives_or_stops c s with ⟨x, s', hgives⟩ | ⟨e, s', hstops⟩
  · rw [hgives] at hafter
    rw [hgives.run_bind]
    exact hf x s s' hs hgives hafter s' rfl
  · rw [hstops] at hafter
    rw [hstops.run_bind]
    exact hKJ s' hafter

theorem Brings.bind {K : σ → Prop} (hc : Brings I K c) (hKJ : ∀ s, K s → J s)
    (hf : ∀ x, Brings K J (f x)) : Brings I J (c >>= f) :=
  hc.seq hKJ fun x _ _ _ _ hs' => (hf x).atState hs'

/-- What is done with the state need only do so from this state. -/
theorem Brings.get_bind {f : σ → ExceptT ε (StateM σ) β} (hf : ∀ s, I s → J ((f s).run.run s).2) :
    Brings I J ((MonadState.get : ExceptT ε (StateM σ) σ) >>= f) := hf

theorem Keeps.bind (hc : Keeps I c) (hf : ∀ x, Keeps I (f x)) : Keeps I (c >>= f) :=
  Brings.bind hc (fun _ h => h) hf

theorem Keeps.mapM {γ : Type} {g : γ → ExceptT ε (StateM σ) α} {xs : List γ}
    (hg : ∀ x, Keeps I (g x)) : Keeps I (xs.mapM g) := by
  induction xs with
  | nil => exact .pure []
  | cons x rest ih =>
    rw [List.mapM_cons]
    exact (hg x).bind fun _ => ih.bind fun _ => .pure _

theorem Keeps.forIn {γ : Type} {g : γ → β → ExceptT ε (StateM σ) (ForInStep β)} {xs : List γ}
    {y : β} (hg : ∀ x y, Keeps I (g x y)) : Keeps I (forIn xs y g) := by
  induction xs generalizing y with
  | nil => exact .pure y
  | cons x rest ih =>
    rw [List.forIn_cons]
    refine (hg x y).bind fun z => ?_
    match z with
    | .done y => exact .pure y
    | .yield y => exact ih

end keeping

/-! ## Hosts -/

/-- What holds of a host whatever else is printed, asked and read from the clock. -/
def Aloof (I : Host → Prop) : Prop :=
  ∀ h more input clock calls, I h → I { h with printed := h.printed ++ more, input, clock, calls }

theorem Aloof.silent {I : Host → Prop} (haloof : Aloof I) {h : Host} (input : List Char)
    (clock : List Value) (calls : List GitCall) (hI : I h) : I { h with input, clock, calls } := by
  have hmore := haloof h "" input clock calls hI
  rwa [String.append_empty] at hmore

/-- What holds of a host is kept by the answers of git that are still to come. -/
def Answered (I : Host → Prop) : Prop :=
  ∀ h reply rest, h.git = reply :: rest → I h →
    I { h with git := rest, disk := Run.applyWrites h.disk reply.writes }

namespace Run

section git
variable {I : Host → Prop} {α : Type}

theorem keeps_ofExcept (r : Except Failure α) : Keeps I (ofExcept r) := by
  cases r with
  | ok x => exact .pure x
  | error f => exact .throw

theorem keeps_outcome {r : Run α} (hr : Keeps I r) : Keeps I r.outcome := hr

theorem keeps_readClock (haloof : Aloof I) : Keeps I readClock := by
  refine Brings.get_bind fun h hI => ?_
  split
  · exact hI
  · exact haloof.silent h.input _ h.calls hI

theorem keeps_callGit (haloof : Aloof I) (hanswered : Answered I) (arguments : List String)
    (folder : Option String) : Keeps I (callGit arguments folder) := by
  refine Keeps.bind (.modify fun h hI => haloof.silent h.input h.clock _ hI) fun _ => ?_
  refine Brings.get_bind fun h hI => ?_
  split
  · exact hI
  · next reply rest hgit =>
    have hafter := hanswered h reply rest hgit hI
    -- The answer is looked at after its changes were made.
    cases hanswer : reply.answer with
    | output text => exact hafter
    | missing => exact hafter
    | refusal stderr => exact hafter

end git

end Run

section resolving
variable {I : Host → Prop} (haloof : Aloof I) (hanswered : Answered I)
include haloof hanswered

theorem keeps_askGit (arguments : List String) (folder : Option String) :
    Keeps I (askGit arguments folder) := by
  refine (Run.keeps_outcome (Run.keeps_callGit haloof hanswered arguments folder)).bind
    fun outcome => ?_
  split
  · exact .pure _
  · exact .throw
  · exact .throw

theorem keeps_resolveRemote (url ref : String) : Keeps I (resolveRemote url ref) := by
  unfold resolveRemote
  split
  · exact .pure _
  · refine (keeps_askGit haloof hanswered _ _).bind fun output => ?_
    split
    · exact .pure _
    · exact .throw

theorem keeps_resolveLocal (path ref : String) : Keeps I (resolveLocal path ref) := by
  refine Keeps.get.bind fun _ => (Run.keeps_ofExcept _).bind fun repository => ?_
  refine Keeps.get.bind fun _ => (Run.keeps_ofExcept _).bind fun found => ?_
  split
  · exact (keeps_askGit haloof hanswered _ _).bind fun _ => .pure _
  · exact .throw

theorem keeps_fingerprint (s : Source) : Keeps I s.fingerprint := by
  have hcommit : ∀ commit : String, Keeps I (if commit == "" then
      throw (.fingerprint (.empty s.name)) else pure commit : Run String) := by
    intro commit
    split
    · exact .throw
    · exact .pure _
  unfold Source.fingerprint
  split
  · exact (keeps_resolveRemote haloof hanswered _ _).bind hcommit
  · exact (keeps_resolveLocal haloof hanswered _ _).bind hcommit

theorem keeps_resolveFrom (failFast : Bool) (r : Resolution) (sources : List Source) :
    Keeps I (resolveFrom failFast r sources) := by
  induction sources generalizing r with
  | nil => exact .pure r
  | cons s rest ih =>
    refine (Run.keeps_outcome (keeps_fingerprint haloof hanswered s)).bind fun outcome => ?_
    split
    · exact ih _
    · split
      · exact .throw
      · exact ih _
    · exact .throw

end resolving

namespace Command

/-! ## The console -/

section console
variable {I : Host → Prop} {α : Type}

theorem keeps_ofRun {r : Run α} (hr : Keeps I r) : Keeps I (ofRun r) := hr

theorem keeps_attempt {r : Run α} (hr : Keeps I r) : Keeps I (attempt r) := hr

theorem keeps_ofExcept (r : Except Failure α) : Keeps I (ofExcept r) :=
  keeps_ofRun (Run.keeps_ofExcept r)

theorem keeps_ofValue (r : Except Fault α) : Keeps I (ofValue r) :=
  keeps_ofRun (Run.keeps_ofExcept _)

theorem keeps_exit (code : Nat) : Keeps I (exit code : Command α) := .throw

theorem keeps_showStyles (texts : List Markup.Rendered) : Keeps I (showStyles texts) := by
  unfold showStyles
  split
  · exact .throw
  · exact .pure _

theorem keeps_renderColumns (columns : List MarkedColumn) : Keeps I (renderColumns columns) :=
  (Keeps.mapM fun _ => .mapM fun _ => keeps_ofExcept _).bind fun _ =>
    (keeps_showStyles _).bind fun _ => .pure _

variable (haloof : Aloof I)
include haloof

theorem keeps_echo (text : String) : Keeps I (echo text) :=
  .modify fun h hI => haloof h _ h.input h.clock h.calls hI

theorem keeps_printLines (lines : List (List Char)) : Keeps I (printLines lines) :=
  keeps_echo haloof _

theorem keeps_say (text : String) : Keeps I (say text) :=
  (keeps_ofExcept _).bind fun _ => (keeps_showStyles _).bind fun _ => keeps_printLines haloof _

theorem keeps_sayPanel (title : String) (lines : List String) : Keeps I (sayPanel title lines) :=
  (keeps_ofExcept _).bind fun _ => (keeps_showStyles _).bind fun _ => keeps_printLines haloof _

theorem keeps_sayTable (title : Option String) (columns : List MarkedColumn) :
    Keeps I (sayTable title columns) :=
  (keeps_renderColumns columns).bind fun _ => keeps_printLines haloof _

theorem keeps_sayAndExit (text : String) (code : Nat) :
    Keeps I (sayAndExit text code : Command α) :=
  (keeps_say haloof text).bind fun _ => keeps_exit code

theorem keeps_readLine : Keeps I readLine := by
  refine Brings.get_bind fun h hI => ?_
  split
  · exact hI
  · exact haloof.silent _ h.clock h.calls hI

theorem keeps_confirmFrom (question : String) (fuel : Nat) :
    Keeps I (confirmFrom question fuel) := by
  induction fuel with
  | zero => exact .throw
  | succ fuel ih =>
    refine (keeps_echo haloof _).bind fun _ => (keeps_readLine haloof).bind fun line => ?_
    split
    · exact .throw
    · refine (keeps_echo haloof _).bind fun _ => ?_
      split
      · exact .pure _
      · exact (keeps_echo haloof _).bind fun _ => ih

theorem keeps_confirm (question : String) : Keeps I (confirm question) :=
  Keeps.get.bind fun _ => keeps_confirmFrom haloof question _

end console

/-! ## Opening -/

section opening
variable {I : Host → Prop} (haloof : Aloof I)

theorem keeps_pathExists (p : Path) : Keeps I (pathExists p) :=
  Keeps.get.bind fun _ => keeps_ofExcept _

include haloof

theorem keeps_openSettings (file : Path) : Keeps I (openSettings file) := by
  refine (keeps_pathExists file).bind fun found => ?_
  refine Keeps.bind (Keeps.get.bind fun _ => .pure _) fun loaded => ?_
  split
  · exact .pure _
  · exact keeps_sayAndExit haloof _ _
  · exact .throw

theorem keeps_openLockfile (p : Path) : Keeps I (openLockfile p) := by
  refine Keeps.get.bind fun h => ?_
  split
  · exact .pure _
  · exact keeps_sayAndExit haloof _ _
  · exact .throw

theorem keeps_readFingerprints (p : Path) : Keeps I (readFingerprints p) := by
  refine Keeps.get.bind fun h => ?_
  split
  · exact keeps_sayAndExit haloof _ _
  · exact keeps_sayAndExit haloof _ _
  · exact .throw
  · split
    · exact (keeps_ofValue _).bind fun _ => .pure _
    · exact keeps_sayAndExit haloof _ _

theorem keeps_currentFingerprints (hanswered : Answered I) (s : Settings) (file : Option Path) :
    Keeps I (currentFingerprints s file) := by
  match file with
  | some p =>
    refine (keeps_readFingerprints haloof p).bind fun given => ?_
    refine Keeps.bind (.forIn fun name _ => ?_) fun _ => .pure _
    split
    · exact (keeps_say haloof _).bind fun _ => .pure _
    · exact .pure _
  | none =>
    have hresolve := keeps_resolveFrom haloof hanswered s.failFast ⟨[], []⟩ s.sources
    refine (keeps_attempt hresolve).bind fun outcome => ?_
    split
    · refine Keeps.bind (.forIn fun failure _ => ?_) fun _ => .pure _
      exact (keeps_say haloof _).bind fun _ => .pure _
    · exact keeps_sayAndExit haloof _ _
    · exact .throw

end opening

/-! ## Commands that show something -/

section showing
variable {I : Host → Prop} (haloof : Aloof I)
include haloof

theorem keeps_showVersion : Keeps I showVersion := Keeps.get.bind fun _ => keeps_echo haloof _

theorem keeps_requireOrder (g : Graph) : Keeps I (requireOrder g) := by
  unfold requireOrder
  split
  · exact .pure _
  · exact keeps_sayAndExit haloof _ _
  · exact .throw

theorem keeps_explainCircle {α : Type} (r : Except Failure α) : Keeps I (explainCircle r) := by
  unfold explainCircle
  split
  · exact .pure _
  · exact keeps_sayAndExit haloof _ _
  · exact .throw

theorem keeps_showUpdate (p : Path) (sources files : Nat) (changed kept : List String)
    (current : Ledger String) : Keeps I (showUpdate p sources files changed kept current) := by
  have hkept : ∀ text, Keeps I (if !kept.isEmpty then say text else pure ()) := by
    intro text
    split
    · exact keeps_say haloof text
    · exact .pure ()
  refine (keeps_say haloof _).bind fun _ => (keeps_say haloof _).bind fun _ => ?_
  dsimp only
  split
  · exact (keeps_say haloof _).bind fun _ => hkept _
  · refine (keeps_say haloof _).bind fun _ => .bind (.forIn fun name _ => ?_) fun _ => hkept _
    exact (keeps_say haloof _).bind fun _ => .pure _

theorem keeps_showReport (r : SweepReport) : Keeps I (showReport r) := by
  refine (keeps_ofValue _).bind fun hours => (keeps_say haloof _).bind fun _ => ?_
  dsimp only
  split
  on_goal 1 => refine (keeps_sayTable haloof _ _).bind fun _ => ?_
  all_goals
    split
    · exact (Keeps.mapM fun _ => keeps_ofValue _).bind fun _ =>
        (keeps_sayTable haloof _ _).bind fun _ => (keeps_ofValue _).bind fun _ => keeps_say haloof _
    · exact .pure _

theorem keeps_showStatus (p : Path) (l : Lockfile) (configured : Nat) (plan : Plan) :
    Keeps I (showStatus p l configured plan) :=
  (keeps_pathExists p).bind fun _ => (keeps_ofValue _).bind fun _ => keeps_sayPanel haloof _ _

theorem keeps_showStatistics (s : Statistics) : Keeps I (showStatistics s) :=
  (Keeps.mapM fun _ => keeps_ofValue _).bind fun _ => (keeps_renderColumns _).bind fun _ =>
    keeps_printLines haloof _

/-- What is shown behind the panel of a lockfile. -/
theorem keeps_showRecorded (l : Lockfile) : Keeps I (do
    if !l.sources.isEmpty then showSources l
    if !l.dangling.isEmpty then say (Message.dangling l.dangling)) := by
  have hdangling : Keeps I
      (if !l.dangling.isEmpty then say (Message.dangling l.dangling) else pure ()) := by
    split
    · exact keeps_say haloof _
    · exact .pure _
  dsimp only
  split
  · exact (keeps_sayTable haloof _ _).bind fun _ => hdangling
  · exact hdangling

theorem keeps_lockStatus (config : Path) (lockfile : Option Path) :
    Keeps I (lockStatus config lockfile) := by
  refine (keeps_openSettings haloof _).bind fun s => (keeps_pathExists _).bind fun found => ?_
  dsimp only
  split
  -- Behind the exit stands the same as without it.
  on_goal 1 => refine (keeps_sayAndExit haloof _ _).bind fun _ => ?_
  all_goals
    refine (keeps_openLockfile haloof _).bind fun l => (keeps_ofValue _).bind fun revision => ?_
    exact (keeps_sayPanel haloof _ _).bind fun _ => keeps_showRecorded haloof l

theorem keeps_showWork (s : Settings) (w : Work) (force : Bool) : Keeps I (showWork s w force) := by
  have hfiles : Keeps I (showFiles w.plan.files) := by
    unfold showFiles
    split
    · refine (keeps_say haloof _).bind fun _ => .bind (.forIn fun file _ => ?_) fun _ => .pure _
      exact (keeps_say haloof _).bind fun _ => .pure _
    · exact .pure _
  unfold showWork
  split
  · exact keeps_say haloof _
  · exact (keeps_say haloof _).bind fun _ => (keeps_sayTable haloof _ _).bind fun _ =>
      hfiles.bind fun _ => (keeps_ofValue _).bind fun _ => keeps_say haloof _

end showing

/-- A run that shows the state of a project keeps what git keeps. -/
theorem keeps_status {I : Host → Prop} (haloof : Aloof I) (hanswered : Answered I) (config : Path)
    (lockfile fingerprints : Option Path) (detailed : Bool) :
    Keeps I (status config lockfile fingerprints detailed) := by
  refine (keeps_openSettings haloof _).bind fun s => (keeps_openLockfile haloof _).bind fun l => ?_
  refine (keeps_currentFingerprints haloof hanswered _ _).bind fun current => ?_
  refine (keeps_showStatus haloof _ _ _ _).bind fun _ => ?_
  split
  · exact keeps_showStatistics haloof _
  · exact .pure _

theorem keeps_plan {I : Host → Prop} (haloof : Aloof I) (hanswered : Answered I) (config : Path)
    (lockfile fingerprints : Option Path) (force : Bool) :
    Keeps I (plan config lockfile fingerprints force) := by
  refine (keeps_openSettings haloof _).bind fun s => ?_
  split
  · exact keeps_sayAndExit haloof _ _
  · refine (keeps_openLockfile haloof _).bind fun stored => ?_
    refine (keeps_currentFingerprints haloof hanswered _ _).bind fun current => ?_
    exact (keeps_explainCircle haloof _).bind fun w => keeps_showWork haloof s w force

end Command

end Regen
