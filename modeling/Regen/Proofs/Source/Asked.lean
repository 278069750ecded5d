import Regen.Proofs.Outcome
import Regen.Source.Fingerprint

/-! # Questions to git

    What looking up a fingerprint comes to.  It asks git at most once.  Whether it does, and what
    it asks, is decided by the source and the disk; what it comes to is decided by these and the
    answer. -/

namespace Regen

/-! ## One question -/

/-- The next answer of git; where none is left there is no git. -/
def Host.answer (h : Host) : GitAnswer :=
  match h.git with
  | [] => .missing
  | reply :: _ => reply.answer

/-- The host after a question to git. -/
def Host.asked (h : Host) (call : GitCall) : Host :=
  match h.git with
  | [] => { h with calls := h.calls ++ [call] }
  | reply :: rest =>
    { h with calls := h.calls ++ [call], git := rest
             disk := Run.applyWrites h.disk reply.writes }

/-- What is made of an answer to a command. -/
def GitAnswer.heard (command : String) : GitAnswer → Except Failure String
  | .output text => .ok text
  | .refusal stderr => .error (.fingerprint (.git command (maskCredentials (Text.trim stderr))))
  | .missing => .error (.fingerprint .noGit)

@[simp] theorem Host.calls_asked (h : Host) (call : GitCall) :
    (h.asked call).calls = h.calls ++ [call] := by
  unfold Host.asked
  split <;> rfl

theorem run_askGit (command : String) (arguments : List String) (folder : Option String)
    (h : Host) :
    (askGit (command :: arguments) folder).run.run h =
      (h.answer.heard command, h.asked ⟨"git" :: command :: arguments, folder⟩) := by
  unfold askGit
  -- Who answers is decided by the answers that are left, and what is made of it by the answer.
  obtain ⟨disk, shared, now, env, git, clock, unreadable, installed, input, calls, printed⟩ := h
  cases git with
  | nil => rfl
  | cons reply rest =>
    obtain ⟨answer, writes⟩ := reply
    cases answer with
    | output text => rfl
    | refusal stderr => rfl
    | missing => rfl

/-! ## Sources -/

/-- The folder of a local repository, if there is one. -/
def repository? (d : Disk) (path : String) : Except Failure (Option Path) :=
  match resolvePath d (Path.ofText path) with
  | .ok real => (isFolder d real).map fun found => if found then some real else none
  | .error f => .error f

/-- The question that the fingerprint of a source needs, if it needs one. -/
def Source.question? (s : Source) (d : Disk) : Option GitCall :=
  if Url.isRemote s.git.url then
    if isCommit s.git.ref then none
    else some ⟨["git", "ls-remote", "--", s.git.url, s.git.ref], none⟩
  else match repository? d s.git.url with
    | .ok (some folder) =>
      some ⟨["git", "rev-parse", "--verify", s.git.ref ++ "^\x7bcommit\x7d"], some folder.text⟩
    | _ => none

/-- The commit of a remote reference in git's list. -/
def commitIn (url ref output : String) : Except Failure String :=
  match chooseRef? (listedRefs output) ref with
  | some commit => .ok commit
  | none => .error (.fingerprint (.unknownRef ref (maskCredentials url)))

/-- The commit that a source is at, given the answer of git. -/
def Source.commit (s : Source) (d : Disk) (a : GitAnswer) : Except Failure String :=
  if Url.isRemote s.git.url then
    if isCommit s.git.ref then .ok s.git.ref
    else (a.heard "ls-remote").bind (commitIn s.git.url s.git.ref)
  else match repository? d s.git.url with
    | .ok (some _) => (a.heard "rev-parse").map Text.trim
    | .ok none => .error (.fingerprint (.noRepository s.git.url))
    | .error f => .error f

/-- A commit that is empty is none. -/
def Source.nonempty (s : Source) (commit : String) : Except Failure String :=
  if commit == "" then .error (.fingerprint (.empty s.name)) else .ok commit

/-- What looking up the fingerprint of a source comes to, given the answer of git. -/
def Source.comesTo (s : Source) (d : Disk) (a : GitAnswer) : Except Failure String :=
  (s.commit d a).bind s.nonempty

/-- The host after the fingerprint of a source was looked up. -/
def Host.after (h : Host) (s : Source) : Host :=
  match s.question? h.disk with
  | some call => h.asked call
  | none => h

theorem Source.commit_of_remote {s : Source} {d : Disk} {a : GitAnswer}
    (hremote : Url.isRemote s.git.url) :
    s.commit d a = if isCommit s.git.ref then .ok s.git.ref
      else (a.heard "ls-remote").bind (commitIn s.git.url s.git.ref) := if_pos hremote

theorem Source.question?_of_remote {s : Source} {d : Disk}
    (hremote : Url.isRemote s.git.url) :
    s.question? d = if isCommit s.git.ref then none
      else some ⟨["git", "ls-remote", "--", s.git.url, s.git.ref], none⟩ := if_pos hremote

theorem run_resolveRemote (url ref : String) (h : Host) :
    (resolveRemote url ref).run.run h =
      if isCommit ref then (.ok ref, h)
      else ((h.answer.heard "ls-remote").bind (commitIn url ref),
        h.asked ⟨["git", "ls-remote", "--", url, ref], none⟩) := by
  unfold resolveRemote
  by_cases hcommit : isCommit ref
  · rw [if_pos hcommit, if_pos hcommit]
    rfl
  · rw [if_neg hcommit, if_neg hcommit]
    have hask := run_askGit "ls-remote" ["--", url, ref] none h
    cases hheard : h.answer.heard "ls-remote" with
    | error f =>
      rw [hheard] at hask
      exact Stops.run_bind hask
    | ok output =>
      rw [hheard] at hask
      rw [Gives.run_bind hask]
      show _ = (commitIn url ref output, _)
      unfold commitIn
      cases chooseRef? (listedRefs output) ref <;> rfl

theorem run_resolveLocal (path ref : String) (h : Host) :
    (resolveLocal path ref).run.run h =
      match repository? h.disk path with
      | .ok (some folder) => ((h.answer.heard "rev-parse").map Text.trim,
          h.asked ⟨["git", "rev-parse", "--verify", ref ++ "^\x7bcommit\x7d"], some folder.text⟩)
      | .ok none => (.error (.fingerprint (.noRepository path)), h)
      | .error f => (.error f, h) := by
  have hget : Gives (get : Run Host) h h h := rfl
  unfold resolveLocal repository?
  rw [hget.run_bind]
  cases hreal : resolvePath h.disk (Path.ofText path) with
  | error f => rfl
  | ok real =>
    have hpath : Gives (Run.ofExcept (.ok real)) h real h := rfl
    rw [hpath.run_bind, hget.run_bind]
    dsimp only
    cases hfolder : isFolder h.disk real with
    | error f => rfl
    | ok found =>
      cases found with
      | false => rfl
      | true =>
        have hask := run_askGit "rev-parse" ["--verify", ref ++ "^\x7bcommit\x7d"]
          (some real.text) h
        have hfound : Gives (Run.ofExcept (.ok true)) h true h := rfl
        rw [hfound.run_bind]
        cases hheard : h.answer.heard "rev-parse" with
        | error f =>
          rw [hheard] at hask
          exact Stops.run_bind hask
        | ok output =>
          rw [hheard] at hask
          exact Gives.run_bind hask

/-- What a source is at before it is known that this is not empty. -/
theorem run_commit (s : Source) (h : Host) :
    (if Url.isRemote s.git.url then resolveRemote s.git.url s.git.ref
      else resolveLocal s.git.url s.git.ref : Run String).run.run h =
      (s.commit h.disk h.answer, h.after s) := by
  unfold Source.commit Host.after Source.question?
  by_cases hremote : Url.isRemote s.git.url
  · rw [if_pos hremote, if_pos hremote, if_pos hremote, run_resolveRemote]
    by_cases hcommit : isCommit s.git.ref
    · rw [if_pos hcommit, if_pos hcommit, if_pos hcommit]
    · rw [if_neg hcommit, if_neg hcommit, if_neg hcommit]
  · rw [if_neg hremote, if_neg hremote, if_neg hremote, run_resolveLocal]
    cases repository? h.disk s.git.url with
    | error f => rfl
    | ok found => cases found <;> rfl

/-- **Looking up a fingerprint** asks at most one question, and its outcome hangs on nothing but
    the source, the disk and the answer. -/
theorem run_fingerprint (s : Source) (h : Host) :
    s.fingerprint.run.run h = (s.comesTo h.disk h.answer, h.after s) := by
  have hrun := run_commit s h
  have hsteps : s.fingerprint =
      (if Url.isRemote s.git.url then resolveRemote s.git.url s.git.ref
        else resolveLocal s.git.url s.git.ref) >>= fun commit =>
          if commit == "" then throw (.fingerprint (.empty s.name)) else pure commit := by
    unfold Source.fingerprint
    split <;> rfl
  rw [hsteps]
  unfold Source.comesTo
  cases hcommit : s.commit h.disk h.answer with
  | error f =>
    rw [hcommit] at hrun
    exact Stops.run_bind hrun
  | ok commit =>
    rw [hcommit] at hrun
    rw [Gives.run_bind hrun]
    show _ = (s.nonempty commit, h.after s)
    unfold Source.nonempty
    split <;> rfl

/-! ## Single runs -/

/-- A source of a repository and a reference. -/
def sourceAt (name url ref : String) : Source :=
  ⟨"crd", name, ⟨url, ref⟩, [], [], [], "", []⟩

/-- A host with a disk and answers of git. -/
def answeringHost (entries : List (Place × Entry)) (answers : List GitAnswer) : Host where
  disk := ⟨entries, []⟩
  sharedSettings := ⟨1, ["shared"]⟩
  now := ⟨⟨2024, 6, 1⟩, 12, 0, 0, 0, some 0⟩
  environment := ⟨none, none⟩
  git := answers.map fun a => ⟨a, []⟩
  clock := []
  unreadable := []
  installed := true
  input := []
  calls := []
  printed := ""

end Regen
