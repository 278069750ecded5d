import Regen.Proofs.Lockfile.Holds

/-! # Forced saves

    A save that is forced replaces whatever the path holds, and it writes the revision after that
    of its own client, whatever the revision at the path was.  So the revision there no longer
    counts the saves and may come back to one that it had.

    A save that is not forced goes through for the clients at the revision of the path.  These are
    the clients that nobody overtook, and besides them only those whose revision came back: a save
    in between left it at the path once more. -/

namespace Regen.Lockfile

/-- What a client may do when saves can be forced. -/
inductive Move (Client : Type) where
  /-- Take a lockfile that was made elsewhere, if the client has none. -/
  | bring (c : Client) (l : Lockfile)
  | load (c : Client)
  /-- Change the lockfile in memory; its revision stays. -/
  | edit (c : Client) (change : Lockfile → Lockfile)
  | save (c : Client) (force : Bool)

namespace Session

variable {Client : Type} [DecidableEq Client]

/-- What a move does; one that fails leaves the client's lockfile as it was. -/
def move (s : Session Client) (p : Path) : Move Client → Session Client
  | .bring c l =>
    match s.stores c with
    | some _ => s
    | none => { s with stores := Function.update s.stores c (some l) }
  | .load c => s.step p (.load c)
  | .edit c change => s.step p (.edit c change)
  | .save c force =>
    match s.stores c with
    | some l =>
      match Lockfile.save s.disk p l force with
      | (d, .ok l') => s.keep p c true d l'
      | (d, .error _) => { s with disk := d }
    | none => s

theorem move_save {s : Session Client} {p : Path} {c : Client} {l : Lockfile} {force : Bool}
    (hstore : s.stores c = some l) (hok : (Lockfile.save s.disk p l force).2.isOk) :
    s.move p (.save c force) = s.keep p c true (Lockfile.save s.disk p l force).1 l.next := by
  rw [Session.move, hstore]
  exact Session.keep_of_save hok

/-- What a save may count on: the document that is written keeps its revision. -/
def Faithful (s : Session Client) : Move Client → Prop
  | .save c _ => ∀ l, s.stores c = some l → KeepsRevision l.next
  | _ => True

instance (s : Session Client) (m : Move Client) : Decidable (s.Faithful m) :=
  match m with
  | .save c _ =>
    decidable_of_iff ((s.stores c).all fun l => decide (KeepsRevision l.next)) <| by
      unfold Faithful
      match hstore : s.stores c with
      | none => simp [hstore]
      | some l => simp [hstore]
  | .bring .. | .load _ | .edit .. => isTrue trivial

/-- The sessions that faithful moves lead to, in any order and number. -/
inductive Moves (p : Path) (s₀ : Session Client) : Session Client → Prop
  | start : Moves p s₀ s₀
  | step {s : Session Client} (h : Moves p s₀ s) (m : Move Client) (hfaithful : s.Faithful m) :
      Moves p s₀ (s.move p m)

end Session

/-- A client has read the lockfile at the path. -/
def HasRead {Client : Type} (log : List (Event Client)) (c : Client) : Prop :=
  ∃ e ∈ log, e.client = c ∧ e.isSave = false

/-- A save since a client last read or saved has left a revision at the path. -/
def LeftSince {Client : Type} [DecidableEq Client] (log : List (Event Client)) (c : Client)
    (n : Int) : Prop :=
  ∃ e ∈ since log c, e.isSave ∧ ∃ content, e.content = some content ∧ ReadsRevision content n

instance {Client : Type} [DecidableEq Client] (log : List (Event Client)) (c : Client) :
    Decidable (HasRead log c) :=
  inferInstanceAs (Decidable (∃ e ∈ log, e.client = c ∧ e.isSave = false))

/-! ## The invariant -/

section invariant
variable {Client : Type} [DecidableEq Client] {p : Path} {s : Session Client} {c k : Client}
  {isSave force : Bool} {l : Lockfile} {d : Disk} {held held' : Option Bytes}

theorem since_keep_self : since (s.keep p c isSave d l).log c = [] := by
  simp [since, Session.keep]

theorem since_keep_ne (hk : k ≠ c) :
    since (s.keep p c isSave d l).log k = ⟨c, isSave, contentAt d p⟩ :: since s.log k := by
  rw [since, Session.keep, List.takeWhile_cons_of_pos (by simpa using Ne.symm hk)]
  rfl

theorem ReadsRevision.unique {content : Bytes} {m n : Int} (hm : ReadsRevision content m)
    (hn : ReadsRevision content n) : m = n := by
  obtain ⟨v, hv, hm⟩ := hm
  obtain ⟨w, hw, hn⟩ := hn
  obtain rfl := Except.ok.inj (hv.symm.trans hw)
  exact Except.ok.inj (hm.symm.trans hn)

/-- **The log tells what the path holds.**  A client that was not overtaken is at the revision
    there, and for one that was the latest save has left what is there. -/
structure Tracks (p : Path) (s : Session Client) (held : Option Bytes) : Prop where
  holds : Holds s.disk p held
  /-- Nobody can have read where nothing was. -/
  unread : held = none → ∀ e ∈ s.log, e.isSave
  known : ∀ e ∈ s.log, (s.stores e.client).isSome
  readable : ∀ content, held = some content → s.log ≠ [] → ∃ n, ReadsRevision content n
  inStep : ∀ content, held = some content → ∀ k l, s.stores k = some l →
    (∃ e ∈ s.log, e.client = k) → ¬Overtaken s.log k → ReadsRevision content l.revision
  left : ∀ k, Overtaken s.log k → ∃ e ∈ since s.log k, e.isSave ∧ e.content = held

theorem Tracks.start {d : Disk} (h : Holds d p held) :
    Tracks p (Session.start d : Session Client) held where
  holds := h
  unread := fun _ e he => nomatch he
  known := fun e he => nomatch he
  readable := fun _ _ hlog => absurd rfl hlog
  inStep := fun _ _ _ _ hstore => nomatch hstore
  left := fun _ hovertaken => by
    obtain ⟨_, he, _⟩ := hovertaken
    cases he

/-- A disk on which the path holds the same changes nothing. -/
theorem Tracks.of_disk (h : Tracks p s held) (hd : Holds d p held) :
    Tracks p { s with disk := d } held :=
  { h with holds := hd }

/-- **A client that read or saved is at the revision that the path holds now**, and everybody else
    is overtaken if that was a save. -/
theorem Tracks.keep (h : Tracks p s held) (hd : Holds d p held')
    (hread : isSave = false → held' = held ∧ held ≠ none)
    (hcut : held' = none → held = none)
    (hl : ∀ content, held' = some content → ReadsRevision content l.revision) :
    Tracks p (s.keep p c isSave d l) held' where
  holds := hd
  unread := by
    intro hnone e he
    rcases List.mem_cons.mp he with rfl | he
    · by_contra hplain
      obtain ⟨hsame, hsome⟩ := hread (Bool.eq_false_iff.mpr hplain)
      exact hsome (hsame ▸ hnone)
    · exact h.unread (hcut hnone) e he
  known := by
    intro e he
    by_cases hclient : e.client = c
    · rw [hclient, stores_keep_self]
      rfl
    · rw [stores_keep_ne hclient]
      rcases List.mem_cons.mp he with rfl | he
      · exact absurd rfl hclient
      · exact h.known e he
  readable := fun content hcontent _ => ⟨_, hl content hcontent⟩
  inStep := by
    intro content hcontent k m hstore hevent hfresh
    by_cases hk : k = c
    · subst hk
      obtain rfl : l = m := by simpa using hstore
      exact hl content hcontent
    -- Somebody else was not overtaken only if this was no save, so that the path holds the same.
    · rw [Overtaken, since_keep_ne hk] at hfresh
      have hplain : isSave = false := by
        by_contra hsave
        exact hfresh ⟨_, List.mem_cons_self, by simpa using hsave⟩
      obtain ⟨rfl, -⟩ := hread hplain
      rw [stores_keep_ne hk] at hstore
      refine h.inStep content hcontent k m hstore ?_ ?_
      · obtain ⟨e, he, hclient⟩ := hevent
        rcases List.mem_cons.mp he with rfl | he
        · exact absurd hclient (Ne.symm hk)
        · exact ⟨e, he, hclient⟩
      · rintro ⟨e, he, hsave⟩
        exact hfresh ⟨e, List.mem_cons_of_mem _ he, hsave⟩
  left := by
    intro k hovertaken
    by_cases hk : k = c
    · subst hk
      rw [Overtaken, since_keep_self] at hovertaken
      obtain ⟨_, he, _⟩ := hovertaken
      cases he
    · rw [Overtaken, since_keep_ne hk] at hovertaken
      rw [since_keep_ne hk]
      cases hsave : isSave with
      | true => exact ⟨_, List.mem_cons_self, rfl, hd.contentAt⟩
      | false =>
        obtain ⟨rfl, -⟩ := hread hsave
        obtain ⟨e, he, hmade⟩ := hovertaken
        rcases List.mem_cons.mp he with rfl | he
        · rw [hsave] at hmade
          cases hmade
        · obtain ⟨e, he, hleft⟩ := h.left k ⟨e, he, hmade⟩
          exact ⟨e, List.mem_cons_of_mem _ he, hleft⟩

/-- Another lockfile in memory changes nothing while it is at the same revision, or its client
    neither read nor saved. -/
theorem Tracks.change (h : Tracks p s held)
    (hl : ∀ m, s.stores c = some m → l.revision = m.revision) :
    Tracks p { s with stores := Function.update s.stores c (some l) } held where
  holds := h.holds
  unread := h.unread
  known := by
    intro e he
    by_cases hclient : e.client = c
    · simp [hclient]
    · simpa [hclient] using h.known e he
  readable := h.readable
  inStep := by
    intro content hcontent k m hstore hevent hfresh
    by_cases hk : k = c
    · subst hk
      obtain rfl : l = m := by simpa using hstore
      obtain ⟨e, he, rfl⟩ := hevent
      obtain ⟨m, hm⟩ := Option.isSome_iff_exists.mp (h.known e he)
      rw [hl m hm]
      exact h.inStep content hcontent _ m hm ⟨e, he, rfl⟩ hfresh
    · exact h.inStep content hcontent k m (by simpa [hk] using hstore) hevent hfresh
  left := h.left

/-- **The log tells what the path holds after every move.** -/
theorem Tracks.move (h : Tracks p s held) (m : Move Client) (hfaithful : s.Faithful m) :
    ∃ held', Tracks p (s.move p m) held' := by
  cases m with
  | bring c l =>
    dsimp only [Session.move]
    split
    · exact ⟨held, h⟩
    · next hnone => exact ⟨held, h.change fun m hm => by rw [hnone] at hm; cases hm⟩
  | load c =>
    dsimp only [Session.move, Session.step]
    split
    · next l hload =>
      obtain ⟨content, rfl, hreads⟩ := h.holds.reads_of_load hload
      refine ⟨some content, h.keep h.holds ?_ ?_ ?_⟩
      · exact fun _ => ⟨rfl, Option.some_ne_none content⟩
      · rintro ⟨⟩
      · rintro _ ⟨⟩
        exact hreads
    · exact ⟨held, h⟩
  | edit c change =>
    dsimp only [Session.move, Session.step]
    split
    · next l hstore =>
      refine ⟨held, h.change fun m hm => ?_⟩
      rw [hstore] at hm
      rw [← Option.some.inj hm]
    · exact ⟨held, h⟩
  | save c force =>
    dsimp only [Session.move]
    split
    · next l hstore =>
      split
      · next d' l' hsave =>
        obtain ⟨rfl, content, hencode, hheld, -⟩ := h.holds.save_ok hsave
        rcases hheld with hheld | ⟨rfl, hcut⟩
        · refine ⟨some content, h.keep hheld ?_ ?_ ?_⟩
          · rintro ⟨⟩
          · rintro ⟨⟩
          · rintro _ ⟨⟩
            exact hfaithful l hstore content hencode
        · refine ⟨none, h.keep hcut ?_ (fun _ => rfl) ?_⟩
          · rintro ⟨⟩
          · rintro _ ⟨⟩
      · next d' f hsave => exact ⟨held, h.of_disk (h.holds.save_error hsave)⟩
    · exact ⟨held, h⟩

theorem Tracks.moves {s₀ : Session Client} (h : Tracks p s₀ held)
    (hrun : Session.Moves p s₀ s) : ∃ held', Tracks p s held' := by
  induction hrun with
  | start => exact ⟨held, h⟩
  | step _ m hfaithful ih =>
    obtain ⟨held', h'⟩ := ih
    exact h'.move m hfaithful

end invariant

/-! ## Saves that are not forced -/

/-- **A save that is not forced goes through at the revision of the path, and nowhere else.**
    Whatever clients did at a path where nothing was, or a file, forced saves among it: a client
    that read the lockfile and was not overtaken is at that revision.  One that was overtaken and
    can save all the same is at a revision that a save in between left at the path again. -/
theorem save_ok_iff_revision {Client : Type} [DecidableEq Client] {p : Path} {d : Disk}
    {held : Option Bytes} (hstart : Holds d p held) {s : Session Client}
    (hrun : Session.Moves p (.start d) s) {c : Client} {l : Lockfile}
    (hstore : s.stores c = some l) (hread : HasRead s.log c) :
    ∃ n, pathRevision s.disk p = .ok n ∧
      (¬Overtaken s.log c → l.revision = n) ∧
      ((∀ f, (save s.disk p l false).2 = .error f → ¬f.IsOfDisk) →
        ((save s.disk p l false).2.isOk ↔ l.revision = n ∧ l.next.encode.isOk)) ∧
      ((save s.disk p l false).2.isOk → l.revision = n ∧
        (Overtaken s.log c → LeftSince s.log c l.revision)) := by
  obtain ⟨held, h⟩ := (Tracks.start hstart).moves hrun
  obtain ⟨e, he, hclient, hplain⟩ := hread
  match held with
  | none =>
    have hsave := h.unread rfl e he
    rw [hplain] at hsave
    cases hsave
  | some content =>
    obtain ⟨n, hn⟩ := h.readable content rfl (List.ne_nil_of_mem he)
    have hrevision : pathRevision s.disk p = .ok n := by
      rw [pathRevision, h.holds.2.exists? h.holds.1]
      exact diskRevision_of_reads h.holds.1 h.holds.2 hn
    have hpassed : (save s.disk p l false).2.isOk → l.revision = n := by
      intro hok
      match hsave : save s.disk p l false with
      | (_, .error _) =>
        rw [hsave] at hok
        cases hok
      | (d', .ok l') =>
        obtain ⟨-, -, -, -, hcheck⟩ := h.holds.save_ok hsave
        obtain ⟨d₁, hheld, hcheck⟩ := hcheck rfl
        exact (hheld.reads_of_check hcheck).unique hn
    refine ⟨n, hrevision, ?_, fun hdisk => ⟨fun hok => ⟨hpassed hok, ?_⟩, ?_⟩,
      fun hok => ⟨hpassed hok, fun hovertaken => ?_⟩⟩
    · exact fun hfresh => (h.inStep content rfl c l hstore ⟨e, he, hclient⟩ hfresh).unique hn
    · match hsave : save s.disk p l false with
      | (_, .error _) =>
        rw [hsave] at hok
        cases hok
      | (d', .ok l') =>
        obtain ⟨-, _, hencode, -⟩ := h.holds.save_ok hsave
        rw [hencode]
        rfl
    · -- Without a failure of the disk only the check and the document can stop the save.
      rintro ⟨hsame, hencodes⟩
      match hsave : save s.disk p l false with
      | (_, .ok _) => rfl
      | (d', .error f) =>
        obtain ⟨-, -, hcause⟩ := save_error hsave (hdisk f (by rw [hsave]))
        have hheld := h.holds.save_error hsave
        rw [checkRevision_of_reads hheld.1 hheld.2 hn, if_pos hsame.symm] at hcause
        rcases hcause with hcheck | ⟨-, hencode⟩
        · cases hcheck
        · rw [hencode] at hencodes
          cases hencodes
    · -- The latest save left what is there now, and that reads as the client's revision.
      obtain ⟨e, he, hsave, hleft⟩ := h.left c hovertaken
      refine ⟨e, he, hsave, content, hleft, ?_⟩
      rw [hpassed hok]
      exact hn

/-! ### Two clients and a forced save -/

/-- A disk with a lockfile that was written by hand. -/
def byHand : Disk :=
  ⟨[(lockPath.parts, .file "schema_version: '1.0'\ngenerated_at: '2024-06-01'".toUTF8.toList 0)],
    []⟩

/-- Two clients have read it. -/
def shared : Session Nat := ((Session.start byHand).move lockPath (.load 0)).move lockPath (.load 1)

theorem holds_byHand : ∃ content, Holds byHand lockPath (some content) := by
  have hlocate : byHand.locate lockPath false = .ok (.found lockPath.parts (.file _ 0)) := rfl
  exact ⟨_, by decide, .of_locate hlocate rfl (by decide)⟩

theorem moves_shared : Session.Moves lockPath (.start byHand) shared :=
  .step (.step .start (.load 0) trivial) (.load 1) trivial

/-- What they read can be saved, and saved by force after that. -/
theorem exists_byHand : ∃ l, load byHand lockPath = .ok l ∧ l.revision = 0 ∧
    KeepsRevision l.next ∧ (save byHand lockPath l true).2.isOk ∧
    (save (save byHand lockPath l true).1 lockPath l true).2.isOk ∧
    (save (save (save byHand lockPath l true).1 lockPath l true).1 lockPath l.next true).2.isOk := by
  have htext : "schema_version: '1.0'\ngenerated_at: '2024-06-01'".toUTF8.toList =
      Text.encodeUtf8 "schema_version: '1.0'\ngenerated_at: '2024-06-01'".toList :=
    Text.toUTF8_toList rfl
  obtain ⟨content, hholds⟩ := holds_byHand
  have hread : isRead "schema_version: '1.0'\ngenerated_at: '2024-06-01'".toList fun l =>
      decide (l.revision = 0 ∧ l.next.IsLegible ∧ (save byHand lockPath l true).2.isOk ∧
        (save (save byHand lockPath l true).1 lockPath l true).2.isOk ∧
        (save (save (save byHand lockPath l true).1 lockPath l true).1 lockPath l.next
          true).2.isOk) := by
    decide +kernel
  obtain ⟨l, hload, hcheck⟩ := exists_load_of_isRead (d := byHand) (p := lockPath)
    (htext ▸ rfl) hread
  obtain ⟨hzero, hlegible, hsaves⟩ := of_decide_eq_true hcheck
  obtain ⟨v, -, hl⟩ := ofDocument_of_load hload
  exact ⟨l, hload, hzero, hlegible.keepsRevision (of_ofDocument hl).1.next, hsaves⟩

/-- Both clients keep what was read. -/
theorem shared_eq {l : Lockfile} (hload : load byHand lockPath = .ok l) :
    shared = ((Session.start byHand).keep lockPath 0 false byHand l).keep lockPath 1 false byHand
      l := by
  have hfirst : (Session.start byHand).step lockPath (.load 0) = _ := Session.step_load hload
  rw [shared, Session.move, Session.move, hfirst]
  exact Session.step_load hload

/-- A forced save of one is noticed by the other, as the revision went on. -/
theorem save_ok_iff_revision_of_two :
    ∃ l, (shared.move lockPath (.save 1 true)).stores 0 = some l ∧
      Overtaken (shared.move lockPath (.save 1 true)).log 0 ∧
      ¬(save (shared.move lockPath (.save 1 true)).disk lockPath l false).2.isOk := by
  obtain ⟨l, hload, hzero, hkeeps, hok, -⟩ := exists_byHand
  obtain ⟨old, hholds⟩ := holds_byHand
  have hmove : shared.move lockPath (.save 1 true) =
      shared.keep lockPath 1 true (save byHand lockPath l true).1 l.next := by
    rw [shared_eq hload]
    exact Session.move_save stores_keep_self hok
  have hfaithful : shared.Faithful (.save 1 true) := by
    intro m hm
    rw [shared_eq hload, stores_keep_self] at hm
    obtain rfl := Option.some.inj hm
    exact hkeeps
  have hstore : (shared.move lockPath (.save 1 true)).stores 0 = some l := by
    rw [hmove, stores_keep_ne (by decide), shared_eq hload, stores_keep_ne (by decide),
      stores_keep_self]
  have hread : HasRead (shared.move lockPath (.save 1 true)).log 0 := by
    rw [hmove, shared_eq hload]
    exact ⟨_, .tail _ (.tail _ (.head _)), rfl, rfl⟩
  have hbehind : behind (shared.move lockPath (.save 1 true)).log 0 = 1 := by
    rw [hmove, behind_keep_ne (by decide), shared_eq hload, behind_keep_ne (by decide),
      behind_keep_self]
    rfl
  have hovertaken : Overtaken (shared.move lockPath (.save 1 true)).log 0 := by
    by_contra hfresh
    rw [← behind_eq_zero] at hfresh
    omega
  obtain ⟨n, hn, -, -, hsaved⟩ := save_ok_iff_revision hholds
    (.step moves_shared (.save 1 true) hfaithful) hstore hread
  refine ⟨l, hstore, hovertaken, fun hgoes => ?_⟩
  obtain ⟨content, hheld, hreads⟩ := hholds.saved hkeeps hok
  have hnext : pathRevision (shared.move lockPath (.save 1 true)).disk lockPath =
      .ok l.next.revision := by
    rw [hmove, disk_keep, pathRevision, hheld.2.exists? hheld.1]
    exact diskRevision_of_reads hheld.1 hheld.2 hreads
  have hone : n = l.revision + 1 := Except.ok.inj (hn.symm.trans hnext)
  have hzero : l.revision = n := (hsaved hgoes).1
  omega

/-- One client saves, and the other one forces a save of what was there before. -/
def setBack : Session Nat := (shared.move lockPath (.save 0 false)).move lockPath (.save 1 true)

/-- **A save may not notice a forced one in between**, which set the revision back. -/
theorem save_misses_forced : ∃ (d : Disk) (content : Bytes) (s : Session Nat) (l : Lockfile),
    Holds d lockPath (some content) ∧ Session.Moves lockPath (.start d) s ∧
      s.stores 0 = some l ∧ HasRead s.log 0 ∧ Overtaken s.log 0 ∧
      (save s.disk lockPath l false).2.isOk := by
  obtain ⟨l, hload, -, hkeeps, hok, hok', hok''⟩ := exists_byHand
  obtain ⟨old, hholds⟩ := holds_byHand
  obtain ⟨_, hold, hreads⟩ := hholds.reads_of_load hload
  obtain rfl := Option.some.inj hold
  -- The first save is at the revision of the disk.
  have hplain := hholds.save_eq_forced hreads hok
  have hfirst : shared.move lockPath (.save 0 false) =
      shared.keep lockPath 0 true (save byHand lockPath l true).1 l.next := by
    rw [shared_eq hload, ← hplain]
    refine Session.move_save ?_ (hplain ▸ hok)
    rw [stores_keep_ne (by decide), stores_keep_self]
  have hsecond : setBack = (shared.keep lockPath 0 true (save byHand lockPath l true).1 l.next).keep
      lockPath 1 true (save (save byHand lockPath l true).1 lockPath l true).1 l.next := by
    rw [setBack, hfirst]
    refine Session.move_save ?_ hok'
    rw [stores_keep_ne (by decide), shared_eq hload, stores_keep_self]
  have hfaithful : shared.Faithful (.save 0 false) := by
    intro m hm
    rw [shared_eq hload, stores_keep_ne (by decide), stores_keep_self] at hm
    obtain rfl := Option.some.inj hm
    exact hkeeps
  have hfaithful' : (shared.move lockPath (.save 0 false)).Faithful (.save 1 true) := by
    intro m hm
    rw [hfirst, stores_keep_ne (by decide), shared_eq hload, stores_keep_self] at hm
    obtain rfl := Option.some.inj hm
    exact hkeeps
  refine ⟨byHand, old, setBack, l.next, hholds,
    .step (.step moves_shared _ hfaithful) _ hfaithful', ?_, ?_, ?_, ?_⟩
  · rw [hsecond, stores_keep_ne (by decide), stores_keep_self]
  · rw [hsecond, shared_eq hload]
    exact ⟨_, .tail _ (.tail _ (.tail _ (.head _))), rfl, rfl⟩
  · by_contra hfresh
    rw [← behind_eq_zero, hsecond, behind_keep_ne (by decide), behind_keep_self] at hfresh
    cases hfresh
  -- The forced save has left the revision that the first client is at.
  · obtain ⟨_, hheld, -⟩ := hholds.saved hkeeps hok
    obtain ⟨_, hheld, hreads⟩ := hheld.saved hkeeps hok'
    rw [hsecond, disk_keep, hheld.save_eq_forced hreads hok'']
    exact hok''

end Regen.Lockfile
