import Mathlib.Logic.Function.Basic
import Regen.Proofs.Lockfile.Legible

/-! # Sessions

    Any number of clients keep a lockfile in memory and read, edit and save it at one path, in any
    order; nothing else touches the path, and a save is not interrupted.  A log keeps who read or
    saved when, so that it can be said whose save came in between.

    The revision of a lockfile in memory lags behind the one on the disk by exactly the saves that
    others made since the client last read or saved.  So a save goes through only for a client
    that nobody overtook, and no update is lost. -/

namespace Regen.Lockfile

open Time

/-! ## Clients -/

/-- A client read, began or saved its lockfile. -/
structure Event (Client : Type) where
  client : Client
  isSave : Bool
  /-- What the path held afterwards. -/
  content : Option Bytes

/-- Lockfiles in memory and the disk that they are read from and saved to. -/
structure Session (Client : Type) where
  disk : Disk
  stores : Client → Option Lockfile
  /-- What happened, the latest first. -/
  log : List (Event Client)

/-- What a client may do. -/
inductive Action (Client : Type) where
  | load (c : Client)
  | loadOrCreate (c : Client) (now : Moment) (tool : String)
  /-- Change the lockfile in memory; its revision stays. -/
  | edit (c : Client) (change : Lockfile → Lockfile)
  /-- Save without force. -/
  | save (c : Client)

/-- The events since the latest one of a client. -/
def since {Client : Type} [DecidableEq Client] (log : List (Event Client)) (c : Client) :
    List (Event Client) :=
  log.takeWhile fun e => e.client ≠ c

/-- **A client is overtaken** if another one saved since it last read or saved. -/
def Overtaken {Client : Type} [DecidableEq Client] (log : List (Event Client)) (c : Client) :
    Prop :=
  ∃ e ∈ since log c, e.isSave

instance {Client : Type} [DecidableEq Client] (log : List (Event Client)) (c : Client) :
    Decidable (Overtaken log c) :=
  inferInstanceAs (Decidable (∃ e ∈ since log c, e.isSave))

/-- What a client saw at the path when it last read or saved. -/
def lastSeen {Client : Type} [DecidableEq Client] (log : List (Event Client)) (c : Client) :
    Option (Option Bytes) :=
  (log.find? fun e => e.client = c).map (·.content)

/-- How many saves there were. -/
def saves {Client : Type} (log : List (Event Client)) : Nat := log.countP (·.isSave)

namespace Session

variable {Client : Type}

/-- The session before anybody did anything. -/
def start (d : Disk) : Session Client := ⟨d, fun _ => none, []⟩

@[simp] theorem disk_start (d : Disk) : (start d : Session Client).disk = d := rfl

variable [DecidableEq Client]

/-- A client has a lockfile in step with the disk. -/
def keep (s : Session Client) (p : Path) (c : Client) (isSave : Bool) (d : Disk) (l : Lockfile) :
    Session Client where
  disk := d
  stores := Function.update s.stores c (some l)
  log := ⟨c, isSave, contentAt d p⟩ :: s.log

/-- What an action does; one that fails leaves the client's lockfile as it was. -/
def step (s : Session Client) (p : Path) : Action Client → Session Client
  | .load c =>
    match load s.disk p with
    | .ok l => s.keep p c false s.disk l
    | .error _ => s
  | .loadOrCreate c now tool =>
    match Lockfile.loadOrCreate s.disk p now tool with
    | .ok l => s.keep p c false s.disk l
    | .error _ => s
  | .edit c change =>
    match s.stores c with
    | some l =>
      { s with stores := Function.update s.stores c (some { change l with revision := l.revision }) }
    | none => s
  | .save c =>
    match s.stores c with
    | some l =>
      match Lockfile.save s.disk p l false with
      | (d, .ok l') => s.keep p c true d l'
      | (d, .error _) => { s with disk := d }
    | none => s

/-- What a save may count on: the disk does not fail, and the document that is written keeps its
    revision. -/
def Smooth (s : Session Client) (p : Path) : Action Client → Prop
  | .save c => ∀ l, s.stores c = some l →
      (∀ f, (Lockfile.save s.disk p l false).2 = .error f → ¬f.IsOfDisk) ∧ KeepsRevision l.next
  | _ => True

instance (s : Session Client) (p : Path) (a : Action Client) : Decidable (s.Smooth p a) :=
  match a with
  | .save c =>
    decidable_of_iff ((s.stores c).all fun l =>
        (match (Lockfile.save s.disk p l false).2 with
          | .error f => !decide f.IsOfDisk
          | .ok _ => true) && decide (KeepsRevision l.next)) <| by
      unfold Smooth
      match hstore : s.stores c with
      | none => simp [hstore]
      | some l =>
        match hsave : (Lockfile.save s.disk p l false).2 with
        | .error f => simp [hstore, hsave]
        | .ok l' => simp [hstore, hsave]
  | .load _ | .loadOrCreate .. | .edit .. => isTrue trivial

/-- The sessions that smooth actions lead to, in any order and number. -/
inductive Reaches (p : Path) (s₀ : Session Client) : Session Client → Prop
  | start : Reaches p s₀ s₀
  | step {s : Session Client} (h : Reaches p s₀ s) (a : Action Client) (hsmooth : s.Smooth p a) :
      Reaches p s₀ (s.step p a)

end Session

section steps
variable {Client : Type} [DecidableEq Client] {s : Session Client} {p : Path} {c : Client}
  {l : Lockfile}

theorem Session.step_load (hload : Lockfile.load s.disk p = .ok l) :
    s.step p (.load c) = s.keep p c false s.disk l := by
  rw [Session.step, hload]

/-- A save that succeeds leaves its client with the next revision. -/
theorem Session.keep_of_save {force : Bool} (hok : (Lockfile.save s.disk p l force).2.isOk) :
    (match Lockfile.save s.disk p l force with
      | (d, .ok l') => s.keep p c true d l'
      | (d, .error _) => { s with disk := d }) =
      s.keep p c true (Lockfile.save s.disk p l force).1 l.next := by
  have hnext := next_of_save hok
  rcases hsave : Lockfile.save s.disk p l force with ⟨d, f | l'⟩
  · rw [hsave] at hok
    cases hok
  · rw [hsave] at hnext
    obtain rfl := Except.ok.inj hnext
    rfl

theorem Session.step_save (hstore : s.stores c = some l)
    (hok : (Lockfile.save s.disk p l false).2.isOk) :
    s.step p (.save c) = s.keep p c true (Lockfile.save s.disk p l false).1 l.next := by
  rw [Session.step, hstore]
  exact Session.keep_of_save hok

end steps

/-! ## The path -/

/-- Nothing exists at a path, nor will when its folders are made, and the path leads freely to its
    end. -/
def IsFresh (d : Disk) (p : Path) : Prop :=
  d.exists? p = .ok false ∧ ∀ d', d.makeFolders p.parent = (d', .ok ()) →
    d'.exists? p = .ok false ∧ d'.HasFreeEnd p

/-- A path leads to a file at a revision. -/
def HoldsRevision (d : Disk) (p : Path) (n : Int) : Prop :=
  Disk.holdsNull p = false ∧ ∃ content, d.HoldsFile p content ∧ ReadsRevision content n

/-- The revision at a path; where nothing is it is zero. -/
def pathRevision (d : Disk) (p : Path) : Except Failure Int :=
  match d.exists? p with
  | .error f => .error (.disk f)
  | .ok false => .ok 0
  | .ok true => diskRevision d p

section path
variable {d d' : Disk} {p : Path} {n : Int}

theorem IsFresh.contentAt (h : IsFresh d p) : contentAt d p = none := by
  unfold Lockfile.contentAt
  split
  · rfl
  · next hnull =>
    obtain ⟨f, hf⟩ := Disk.fileAt_of_not_exists (Bool.eq_false_iff.mpr hnull) h.1
    rw [hf]
    rfl

/-- A fresh path is fresh when its folders have been made. -/
theorem IsFresh.made (h : IsFresh d p) (hnull : Disk.holdsNull p.parent = false)
    (hmade : d.makeFolders p.parent = (d', .ok ())) : IsFresh d' p := by
  have hfresh := h.2 d' hmade
  refine ⟨hfresh.1, fun d'' hagain => ?_⟩
  rw [Disk.makeFolders_again hnull hmade] at hagain
  obtain rfl := (Prod.mk.inj hagain).1
  exact hfresh

/-- A path is fresh if its folders need not be made and nothing is located there. -/
theorem IsFresh.of_locate {q : Place} (hmade : d.makeFolders p.parent = (d, .ok ()))
    (hlocate : d.locate p false = .ok (.vacant q)) : IsFresh d p := by
  have hvacant : d.IsVacant p := ⟨q, Disk.leads_of_locate_vacant hlocate⟩
  refine ⟨hvacant.exists?, fun d' hmade' => ?_⟩
  obtain rfl := (Prod.mk.inj (hmade.symm.trans hmade')).1
  exact ⟨hvacant.exists?, hvacant.hasFreeEnd⟩

theorem grown_of_made (hmade : d.makeFolders p.parent = (d', .ok ())) : d.Grown d' := by
  have hgrown := Disk.grown_makeFolders d p.parent
  rw [hmade] at hgrown
  exact hgrown

end path

/-! ## The log -/

section log
variable {Client : Type} [DecidableEq Client]

/-- How many saves of others a client missed. -/
def behind (log : List (Event Client)) (c : Client) : Nat := saves (since log c)

theorem behind_eq_zero {log : List (Event Client)} {c : Client} :
    behind log c = 0 ↔ ¬Overtaken log c := by
  simp [behind, saves, Overtaken, List.countP_eq_zero]

theorem behind_le_saves (log : List (Event Client)) (c : Client) : behind log c ≤ saves log :=
  (List.takeWhile_sublist _).countP_le

variable {s : Session Client} {p : Path} {c k : Client} {isSave : Bool} {d : Disk} {l : Lockfile}

@[simp] theorem disk_keep : (s.keep p c isSave d l).disk = d := rfl

@[simp] theorem saves_keep :
    saves (s.keep p c isSave d l).log = saves s.log + if isSave then 1 else 0 :=
  List.countP_cons

@[simp] theorem stores_keep_self : (s.keep p c isSave d l).stores c = some l :=
  Function.update_self ..

@[simp] theorem behind_keep_self : behind (s.keep p c isSave d l).log c = 0 := by
  simp [Session.keep, behind, saves, since]

@[simp] theorem lastSeen_keep_self :
    lastSeen (s.keep p c isSave d l).log c = some (contentAt d p) := by
  simp [Session.keep, lastSeen]

@[simp] theorem stores_keep_ne (hk : k ≠ c) : (s.keep p c isSave d l).stores k = s.stores k :=
  Function.update_of_ne hk ..

@[simp] theorem behind_keep_ne (hk : k ≠ c) :
    behind (s.keep p c isSave d l).log k = behind s.log k + if isSave then 1 else 0 := by
  rw [behind, since, Session.keep, List.takeWhile_cons_of_pos (by simpa using Ne.symm hk)]
  exact List.countP_cons

@[simp] theorem lastSeen_keep_ne (hk : k ≠ c) :
    lastSeen (s.keep p c isSave d l).log k = lastSeen s.log k := by
  simp [Session.keep, lastSeen, Ne.symm hk]

end log

/-! ## The invariant -/

/-- **Lockfiles in memory keep step with the disk.**  The disk counts the saves, and a client is
    behind by the saves that it missed; one that missed none has seen what is there. -/
structure InStep {Client : Type} [DecidableEq Client] (p : Path) (base : Int)
    (s : Session Client) : Prop where
  onDisk : (base = 0 ∧ saves s.log = 0 ∧ IsFresh s.disk p) ∨
    HoldsRevision s.disk p (base + saves s.log)
  revision : ∀ c l, s.stores c = some l → l.revision + behind s.log c = base + saves s.log
  seen : ∀ c l, s.stores c = some l → behind s.log c = 0 →
    lastSeen s.log c = some (contentAt s.disk p)

section invariant
variable {Client : Type} [DecidableEq Client] {p : Path} {base : Int} {s : Session Client}
  {c : Client} {l : Lockfile} {d' : Disk}

/-- A client that read or began a lockfile at the revision of the disk is in step. -/
theorem InStep.read (h : InStep p base s) (hl : l.revision = base + saves s.log) :
    InStep p base (s.keep p c false s.disk l) where
  onDisk := by simpa using h.onDisk
  revision := by
    intro k m hm
    by_cases hk : k = c
    · subst hk
      obtain rfl : l = m := by simpa using hm
      simpa using hl
    -- The log grows by no save, so nobody else falls behind.
    · rw [stores_keep_ne hk] at hm
      simpa [hk] using h.revision k m hm
  seen := by
    intro k m hm hbehind
    by_cases hk : k = c
    · subst hk
      exact lastSeen_keep_self
    · rw [stores_keep_ne hk] at hm
      rw [lastSeen_keep_ne hk]
      exact h.seen k m hm (by simpa [hk] using hbehind)

/-- A client that missed no save and saves leaves all others one more save behind. -/
theorem InStep.saved (h : InStep p base s) (hstore : s.stores c = some l)
    (hbehind : behind s.log c = 0) (hdisk : HoldsRevision d' p (base + saves s.log + 1)) :
    InStep p base (s.keep p c true d' l.next) where
  onDisk := .inr (by simpa [Int.add_assoc] using hdisk)
  revision := by
    intro k m hm
    by_cases hk : k = c
    · subst hk
      obtain rfl : l.next = m := by simpa using hm
      have hl := h.revision k l hstore
      simp only [behind_keep_self, saves_keep, next, if_true]
      omega
    -- Everybody else misses this save and the disk counts it: both sides grow by one.
    · rw [stores_keep_ne hk] at hm
      have hl := h.revision k m hm
      simp only [behind_keep_ne hk, saves_keep, if_true]
      omega
  seen := by
    intro k m hm hmissed
    by_cases hk : k = c
    · subst hk
      exact lastSeen_keep_self
    · simp [hk] at hmissed

/-- What does not change the file at the path leaves everybody in step. -/
theorem InStep.of_disk (h : InStep p base s)
    (hdisk : (base = 0 ∧ saves s.log = 0 ∧ IsFresh d' p) ∨
      HoldsRevision d' p (base + saves s.log))
    (hcontent : contentAt d' p = contentAt s.disk p) : InStep p base { s with disk := d' } where
  onDisk := hdisk
  revision := h.revision
  seen k m hm hbehind := (h.seen k m hm hbehind).trans (congrArg some hcontent.symm)

/-- An edit does not touch the revision. -/
theorem InStep.edit (h : InStep p base s) (hstore : s.stores c = some l) (m : Lockfile)
    (hm : m.revision = l.revision) :
    InStep p base { s with stores := Function.update s.stores c (some m) } where
  onDisk := h.onDisk
  revision := by
    intro k m' hk
    by_cases hkc : k = c
    · subst hkc
      obtain rfl : m = m' := by simpa using hk
      rw [hm]
      exact h.revision k l hstore
    · exact h.revision k m' (by simpa [hkc] using hk)
  seen := by
    intro k m' hk
    by_cases hkc : k = c
    · subst hkc
      exact h.seen k l hstore
    · exact h.seen k m' (by simpa [hkc] using hk)

/-- Making the folders of the path leaves everybody in step. -/
theorem InStep.made (h : InStep p base s) (hnull : Disk.holdsNull p.parent = false)
    (hmade : s.disk.makeFolders p.parent = (d', .ok ())) :
    InStep p base { s with disk := d' } ∧ contentAt d' p = contentAt s.disk p := by
  rcases h.onDisk with ⟨hbase, hsaves, hfresh⟩ | ⟨hname, content, hfile, hreads⟩
  · have hfresh' := hfresh.made hnull hmade
    have hcontent : contentAt d' p = contentAt s.disk p := by
      rw [hfresh'.contentAt, hfresh.contentAt]
    exact ⟨h.of_disk (.inl ⟨hbase, hsaves, hfresh'⟩) hcontent, hcontent⟩
  · have hfile' := hfile.grown (grown_of_made hmade)
    have hcontent : contentAt d' p = contentAt s.disk p := by
      rw [contentAt_of_holdsFile hname hfile', contentAt_of_holdsFile hname hfile]
    exact ⟨h.of_disk (.inr ⟨hname, content, hfile', hreads⟩) hcontent, hcontent⟩

/-- Once its folders are made, the path leads freely to its end. -/
theorem InStep.hasFreeEnd (h : InStep p base s)
    (hmade : s.disk.makeFolders p.parent = (d', .ok ())) : d'.HasFreeEnd p := by
  rcases h.onDisk with ⟨_, _, hfresh⟩ | ⟨_, content, hfile, _⟩
  · exact (hfresh.2 d' hmade).2
  · exact (hfile.grown (grown_of_made hmade)).hasFreeEnd

/-- **The check of the revision stops exactly the clients that missed a save.** -/
theorem InStep.checkRevision (h : InStep p base s) (hstore : s.stores c = some l) :
    checkRevision s.disk p l.revision =
      if behind s.log c = 0 then .ok ()
      else .error (revisionFailure p l.revision (base + saves s.log)) := by
  have hrevision := h.revision c l hstore
  rcases h.onDisk with ⟨hbase, hsaves, hfresh⟩ | ⟨hnull, content, hfile, hreads⟩
  -- Before the first save nobody can have missed one.
  · have hbehind := behind_le_saves s.log c
    rw [checkRevision_of_absent hfresh.1, if_pos (by omega)]
  · rw [checkRevision_of_reads hnull hfile hreads]
    by_cases hbehind : behind s.log c = 0
    · rw [if_pos hbehind, if_pos (by omega)]
    · rw [if_neg hbehind, if_neg (by omega)]

theorem holdsNull_parent (hnull : Disk.holdsNull p = false) : Disk.holdsNull p.parent = false := by
  rw [Disk.holdsNull, List.any_eq_false] at hnull ⊢
  exact fun name hname => hnull name ((List.dropLast_sublist _).subset hname)

theorem InStep.save_ok {l' : Lockfile} (h : InStep p base s) (hstore : s.stores c = some l)
    (hkeeps : KeepsRevision l.next) (hsave : save s.disk p l false = (d', .ok l')) :
    l' = l.next ∧ behind s.log c = 0 ∧ HoldsRevision d' p (base + saves s.log + 1) ∧
      ∃ content, l.next.encode = .ok content ∧ contentAt d' p = some content := by
  obtain ⟨hl, hnull, d₁, content, hmade, hcheck, hencode, hfile⟩ :=
    Lockfile.save_ok hsave fun _ hmade => h.hasFreeEnd hmade
  -- Had the client missed a save, the check of the revision would have stopped it.
  have hbehind : behind s.log c = 0 := by
    by_contra hmissed
    have hstop := (h.made (holdsNull_parent hnull) hmade).1.checkRevision hstore
    rw [hcheck, if_neg hmissed] at hstop
    cases hstop
  have hrevision : l.next.revision = base + saves s.log + 1 := by
    have hl := h.revision c l hstore
    simp only [next]
    omega
  refine ⟨hl, hbehind, ⟨hnull, content, hfile, ?_⟩, content, hencode,
    contentAt_of_holdsFile hnull hfile⟩
  rw [← hrevision]
  exact hkeeps content hencode

theorem InStep.save_error {f : Failure} (h : InStep p base s) (hstore : s.stores c = some l)
    (hsave : save s.disk p l false = (d', .error f)) (hdisk : ¬f.IsOfDisk) :
    InStep p base { s with disk := d' } ∧ contentAt d' p = contentAt s.disk p ∧
      if behind s.log c = 0 then l.next.encode = .error f
      else f = revisionFailure p l.revision (base + saves s.log) := by
  obtain ⟨hnull, hmade, hcause⟩ := Lockfile.save_error hsave hdisk
  obtain ⟨hstep, hcontent⟩ := h.made hnull hmade
  refine ⟨hstep, hcontent, ?_⟩
  have hcheck := hstep.checkRevision hstore
  dsimp only at hcheck
  rw [hcheck] at hcause
  split at hcause
  · next hbehind =>
    rw [if_pos hbehind]
    rcases hcause with hstop | ⟨_, hencode⟩
    · cases hstop
    · exact hencode
  · next hbehind =>
    rw [if_neg hbehind]
    rcases hcause with hstop | ⟨hgo, _⟩
    · exact (Except.error.inj hstop).symm
    · cases hgo

/-- A lockfile that was read where everybody is in step is at the revision of the disk. -/
theorem InStep.revision_of_loadOrCreate (h : InStep p base s) {now : Moment} {tool : String}
    (hl : loadOrCreate s.disk p now tool = .ok l) : l.revision = base + saves s.log := by
  rcases h.onDisk with ⟨hbase, hsaves, hfresh⟩ | ⟨hnull, content, hfile, hreads⟩
  · rw [loadOrCreate_of_absent hfresh.1] at hl
    obtain rfl := Except.ok.inj hl
    rw [hbase, hsaves]
    rfl
  · exact revision_of_load hnull hfile hreads (load_of_loadOrCreate hnull hfile hl)

theorem InStep.revision_of_load (h : InStep p base s) (hl : load s.disk p = .ok l) :
    l.revision = base + saves s.log := by
  rcases h.onDisk with ⟨_, _, hfresh⟩ | ⟨hnull, content, hfile, hreads⟩
  · rw [load_of_absent hfresh.1] at hl
    cases hl
  · exact Lockfile.revision_of_load hnull hfile hreads hl

/-- **Every action leaves everybody in step.** -/
theorem InStep.step (h : InStep p base s) (a : Action Client) (hsmooth : s.Smooth p a) :
    InStep p base (s.step p a) := by
  cases a with
  | load c =>
    dsimp only [Session.step]
    split
    · next l hl => exact h.read (h.revision_of_load hl)
    · exact h
  | loadOrCreate c now tool =>
    dsimp only [Session.step]
    split
    · next l hl => exact h.read (h.revision_of_loadOrCreate hl)
    · exact h
  | edit c change =>
    dsimp only [Session.step]
    split
    · next l hstore => exact h.edit hstore _ rfl
    · exact h
  | save c =>
    dsimp only [Session.step]
    split
    · next l hstore =>
      obtain ⟨hdisk, hkeeps⟩ := hsmooth l hstore
      split
      · next d' l' hsave =>
        obtain ⟨rfl, hbehind, hholds, _⟩ := h.save_ok hstore hkeeps hsave
        exact h.saved hstore hbehind hholds
      · next d' f hsave => exact (h.save_error hstore hsave (hdisk f (by rw [hsave]))).1
    · exact h

theorem InStep.reaches {s₀ : Session Client} (h : InStep p base s₀)
    (hrun : Session.Reaches p s₀ s) : InStep p base s := by
  induction hrun with
  | start => exact h
  | step _ a hsmooth ih => exact ih.step a hsmooth

theorem InStep.start {d : Disk}
    (hstart : base = 0 ∧ IsFresh d p ∨ HoldsRevision d p base) :
    InStep p base (Session.start d : Session Client) where
  onDisk := by simpa [Session.start, saves] using hstart
  revision := fun _ _ hstore => nomatch hstore
  seen := fun _ _ hstore => nomatch hstore

theorem InStep.pathRevision (h : InStep p base s) :
    pathRevision s.disk p = .ok (base + saves s.log) := by
  unfold Lockfile.pathRevision
  rcases h.onDisk with ⟨hbase, hsaves, hfresh⟩ | ⟨hnull, content, hfile, hreads⟩
  · rw [hfresh.1, hbase, hsaves]
    rfl
  · rw [hfile.exists? hnull]
    exact diskRevision_of_reads hnull hfile hreads

end invariant

/-! ## No update is lost -/

/-- **No update is lost.**  Whatever clients did at a path where nothing was, or a lockfile, the
    revision there counts their saves.  A client's save goes through if and only if nobody saved
    since it last read or saved and its document can be written; then it replaces what the client
    saw there last.  A save that fails leaves the file and the lockfiles in memory as they were,
    and tells a client that was overtaken so. -/
theorem no_lost_update {Client : Type} [DecidableEq Client] {p : Path} {base : Int} {d : Disk}
    (hstart : base = 0 ∧ IsFresh d p ∨ HoldsRevision d p base) {s : Session Client}
    (hrun : Session.Reaches p (.start d) s) :
    pathRevision s.disk p = .ok (base + saves s.log) ∧
    ∀ c l, s.stores c = some l → s.Smooth p (.save c) →
      ((save s.disk p l false).2.isOk ↔ ¬Overtaken s.log c ∧ l.next.encode.isOk) ∧
      (∀ l', (save s.disk p l false).2 = .ok l' →
        l' = l.next ∧ lastSeen s.log c = some (contentAt s.disk p) ∧
        contentAt (s.step p (.save c)).disk p = l.next.encode.toOption) ∧
      (∀ f, (save s.disk p l false).2 = .error f →
        contentAt (s.step p (.save c)).disk p = contentAt s.disk p ∧
        (s.step p (.save c)).stores = s.stores ∧
        (Overtaken s.log c → f = revisionFailure p l.revision (base + saves s.log))) := by
  have h := (InStep.start hstart).reaches hrun
  refine ⟨h.pathRevision, fun c l hstore hsmooth => ?_⟩
  obtain ⟨hdisk, hkeeps⟩ := hsmooth l hstore
  have hstep : s.step p (.save c) = match save s.disk p l false with
      | (d, .ok l') => s.keep p c true d l'
      | (d, .error _) => { s with disk := d } := by
    rw [Session.step, hstore]
  rw [hstep, ← behind_eq_zero]
  rcases hsave : save s.disk p l false with ⟨d', f | l'⟩
  · obtain ⟨_, hcontent, hcause⟩ := h.save_error hstore hsave (hdisk f (by rw [hsave]))
    refine ⟨⟨fun hok => (nomatch hok), fun ⟨hbehind, hencode⟩ => ?_⟩, fun _ hok => (nomatch hok),
      fun g hg => ⟨hcontent, rfl, fun hovertaken => ?_⟩⟩
    · rw [if_pos hbehind] at hcause
      rw [hcause] at hencode
      cases hencode
    · obtain rfl := Except.error.inj hg
      rwa [if_neg fun hbehind => behind_eq_zero.mp hbehind hovertaken] at hcause
  · obtain ⟨hl, hbehind, _, content, hencode, hcontent⟩ := h.save_ok hstore hkeeps hsave
    refine ⟨⟨fun _ => ⟨hbehind, by rw [hencode]; rfl⟩, fun _ => rfl⟩, fun m hm => ?_,
      fun _ hf => (nomatch hf)⟩
    obtain rfl := Except.ok.inj hm
    refine ⟨hl, h.seen c l hstore hbehind, ?_⟩
    rw [hencode]
    exact hcontent

/-! ### Two clients -/

/-- A lockfile before any run. -/
def blank : Lockfile := empty ⟨⟨2024, 6, 1⟩, 12, 0, 0, 0, some 0⟩ "0.1.0"

def lockPath : Path := ⟨0, ["gensonnet.lock"]⟩

/-- A client begins a lockfile where nothing is. -/
def begun : Session Nat :=
  (Session.start ⟨[], []⟩).step lockPath (.loadOrCreate 0 blank.generatedAt blank.toolVersion)

/-- Another one begins it too. -/
def begunTwice : Session Nat :=
  begun.step lockPath (.loadOrCreate 1 blank.generatedAt blank.toolVersion)

/-- Then the first one saves. -/
def overtaking : Session Nat := begunTwice.step lockPath (.save 0)

theorem keepsRevision_blank : KeepsRevision blank.next :=
  IsLegible.keepsRevision (WellFormed.next (wellFormed_empty _ _))
    (isLegible_next_empty _ (by decide))

/-- The client that saves second finds the save of the first. -/
theorem no_lost_update_of_two :
    overtaking.Smooth lockPath (.save 1) ∧ (overtaking.stores 1).isSome ∧
      pathRevision overtaking.disk lockPath = .ok 1 ∧
      ∀ l, overtaking.stores 1 = some l → ¬(save overtaking.disk lockPath l false).2.isOk := by
  obtain ⟨hok, hfolder⟩ : (save begunTwice.disk lockPath blank false).2.isOk ∧
      overtaking.disk.isFolder? lockPath.parent = .ok true := by decide +kernel
  have hfirst : begunTwice.Smooth lockPath (.save 0) := by
    intro l hstore
    obtain rfl : blank = l := Option.some.inj hstore
    refine ⟨fun f hf => ?_, keepsRevision_blank⟩
    rw [hf] at hok
    cases hok
  have hrun : Session.Reaches lockPath (.start ⟨[], []⟩) overtaking :=
    .step (.step (.step .start (.loadOrCreate 0 _ _) trivial) (.loadOrCreate 1 _ _) trivial)
      (.save 0) hfirst
  -- The second client has what it began with, and it missed one save.
  have hsaved := Session.step_save (s := begunTwice) (c := 0) rfl hok
  have hstored : overtaking.stores 1 = some blank := by
    rw [overtaking, hsaved, stores_keep_ne (by decide)]
    rfl
  have hone : saves overtaking.log = 1 := by
    rw [overtaking, hsaved, saves_keep]
    rfl
  have hbehind : behind overtaking.log 1 = 1 := by
    rw [overtaking, hsaved, behind_keep_ne (by decide)]
    rfl
  have hsecond : overtaking.Smooth lockPath (.save 1) := by
    intro l hstore
    obtain rfl : blank = l := Option.some.inj (hstored.symm.trans hstore)
    refine ⟨fun f hf => ?_, keepsRevision_blank⟩
    have hcheck := ((InStep.start (.inl ⟨rfl, .of_locate rfl rfl⟩)).reaches hrun).checkRevision
      hstored
    rw [if_neg (by omega), hone] at hcheck
    rw [save_refused rfl (Disk.makeFolders_of_isFolder hfolder) hcheck] at hf
    obtain rfl := Except.error.inj hf
    exact not_isOfDisk_revisionFailure _ _ _
  obtain ⟨hrevision, hsaves⟩ := no_lost_update (.inl ⟨rfl, .of_locate rfl rfl⟩) hrun
  rw [hone] at hrevision
  refine ⟨hsecond, by rw [hstored]; rfl, hrevision, fun l hstore hok => ?_⟩
  refine ((hsaves 1 l hstore hsecond).1.mp hok).1 ?_
  by_contra hfresh
  rw [← behind_eq_zero] at hfresh
  omega

/-- A time that is no time in universal time. -/
def beforeReckoning : Moment := ⟨⟨1, 1, 1⟩, 0, 0, 0, 0, some 50400000000⟩

/-- A disk with a lockfile at a revision, and a path to it through a folder that is missing. -/
def aside : Disk := ⟨[(["lock"], .file "revision: 1".toUTF8.toList 0)], []⟩

def detour : Path := ⟨0, ["a", "..", "lock"]⟩

theorem not_exists_detour : aside.exists? detour = .ok false := by
  have hfalse : (aside.exists? detour).toOption = some false := by decide
  match hexists : aside.exists? detour with
  | .ok b =>
    rw [hexists] at hfalse
    rw [Option.some.inj hfalse]
  | .error f =>
    rw [hexists] at hfalse
    cases hfalse

/-- **A save may fail though nobody saved in between**: when its document cannot be written, and
    when the path did not exist only because a folder on its way was missing. -/
theorem save_fails_unovertaken :
    (∃ (d : Disk) (p : Path) (s : Session Nat) (l : Lockfile),
      d.exists? p = .ok false ∧ Session.Reaches p (.start d) s ∧ s.Smooth p (.save 0) ∧
      ¬Overtaken s.log 0 ∧ s.stores 0 = some l ∧ ¬(save s.disk p l false).2.isOk ∧
      ¬l.next.encode.isOk) ∧
    ∃ (d : Disk) (p : Path) (s : Session Nat) (l : Lockfile),
      d.exists? p = .ok false ∧ Session.Reaches p (.start d) s ∧ s.Smooth p (.save 0) ∧
      ¬Overtaken s.log 0 ∧ s.stores 0 = some l ∧ ¬(save s.disk p l false).2.isOk ∧
      l.next.encode.isOk := by
  constructor
  · exact ⟨⟨[], []⟩, lockPath,
      begun.step lockPath (.edit 0 fun l => { l with generatedAt := beforeReckoning }),
      { blank with generatedAt := beforeReckoning }, rfl,
      .step (.step .start (.loadOrCreate 0 _ _) trivial) (.edit 0 _) trivial, by decide,
      by decide, rfl, by decide, by decide⟩
  · have hstep : (Session.start aside).step detour
        (.loadOrCreate 0 blank.generatedAt blank.toolVersion) =
        (Session.start aside).keep detour 0 false aside blank := by
      rw [Session.step, Session.disk_start, loadOrCreate_of_absent not_exists_detour]
      rfl
    obtain ⟨hdisk, hfails, hencodes⟩ :
        (∀ f, (save aside detour blank false).2 = .error f → ¬f.IsOfDisk) ∧
          ¬(save aside detour blank false).2.isOk ∧ blank.next.encode.isOk := by decide +kernel
    refine ⟨aside, detour, (Session.start aside).keep detour 0 false aside blank, blank,
      not_exists_detour, ?_, ?_, ?_, stores_keep_self, hfails, hencodes⟩
    · rw [← hstep]
      exact .step .start _ trivial
    · intro l hstore
      obtain rfl : blank = l := by simpa using hstore
      exact ⟨hdisk, keepsRevision_blank⟩
    · rw [← behind_eq_zero]
      exact behind_keep_self

end Regen.Lockfile
