import Regen.Host
import Regen.Source.Credentials

/-! # Fingerprints of sources

    The fingerprint of a source is the commit that its reference names now.  For a local
    repository git looks it up there; for a remote one git lists the references of the remote,
    unless the reference is a commit already. -/

namespace Regen

/-- Is a path an existing folder? -/
def isFolder (d : Disk) (p : Path) : Except Failure Bool := (d.isFolder? p).mapError .disk

/-- The real path of something; links in a circle have none. -/
def resolvePath (d : Disk) (p : Path) : Except Failure Path :=
  if Disk.holdsNull p then .error (.value .nullInPath)
  else
    let real := d.realPath p
    match d.locate real true with
    | .error .tooManyLinks => .error (.linkCircle real.text)
    | _ => .ok real

/-! ## Remote references -/

/-- Is the reference a full commit: 40 or 64 hexadecimal digits in lower case?  A line feed at its
    end is overlooked. -/
def isCommit (ref : String) : Bool :=
  let cs := ref.toList
  let cs := if cs.getLast? == some '\n' then cs.dropLast else cs
  (cs.length == 40 || cs.length == 64) && cs.all fun c => c.isDigit || ('a' ≤ c && c ≤ 'f')

/-- The commit and name on a line of git's list, if both are there. -/
def listedRef? (line : List Char) : Option (String × String) :=
  let commit := line.takeWhile (· != '\t')
  let name := (line.dropWhile (· != '\t')).drop 1
  if commit.isEmpty || name.isEmpty then none
  else some (Text.trim (String.ofList name), Text.trim (String.ofList commit))

/-- The names that git lists with their commits; a name listed again has its last commit. -/
def listedRefs (output : String) : Ledger String :=
  Ledger.ofEntries ((Text.lines output.toList).filterMap listedRef?)

/-- The names that a reference may stand for, the preferred one first: a tag's commit, a branch,
    a tag, and the name itself. -/
def refNames (ref : String) : List String :=
  ["refs/tags/" ++ ref ++ "^\x7b\x7d", "refs/heads/" ++ ref, "refs/tags/" ++ ref, ref]

/-- The commit of a reference among those that git lists.  The only one listed will do. -/
def chooseRef? (refs : Ledger String) (ref : String) : Option String :=
  ((refNames ref).findSome? fun name => refs.find? name).or
    (match refs with
      | [(_, commit)] => some commit
      | _ => none)

/-! ## Resolving -/

/-- Call git; what it says when it refuses is shown without credentials. -/
def askGit (arguments : List String) (folder : Option String) : Run String := do
  match ← (Run.callGit arguments folder).outcome with
  | .ok text => pure text
  | .error (.fingerprint (.git command stderr)) =>
    throw (.fingerprint (.git command (maskCredentials (Text.trim stderr))))
  | .error f => throw f

def resolveRemote (url ref : String) : Run String := do
  if isCommit ref then pure ref
  else
    let output ← askGit ["ls-remote", "--", url, ref] none
    match chooseRef? (listedRefs output) ref with
    | some commit => pure commit
    | none => throw (.fingerprint (.unknownRef ref (maskCredentials url)))

def resolveLocal (path ref : String) : Run String := do
  let repository ← Run.ofExcept (resolvePath (← get).disk (Path.ofText path))
  if ← Run.ofExcept (isFolder (← get).disk repository) then
    let output ← askGit ["rev-parse", "--verify", ref ++ "^\x7bcommit\x7d"] (some repository.text)
    pure (Text.trim output)
  else throw (.fingerprint (.noRepository path))

/-- The commit that a source is at now. -/
def Source.fingerprint (s : Source) : Run String := do
  let commit ←
    if Url.isRemote s.git.url then resolveRemote s.git.url s.git.ref
    else resolveLocal s.git.url s.git.ref
  if commit == "" then throw (.fingerprint (.empty s.name)) else pure commit

/-- What resolving several sources gives. -/
structure Resolution where
  fingerprints : Ledger String
  /-- Why the others have none. -/
  failures : Ledger FingerprintFault
  deriving Repr

/-- Resolve sources one after the other.  With `failFast` the first that has no fingerprint is the
    failure of all. -/
def resolveFrom (failFast : Bool) (r : Resolution) : List Source → Run Resolution
  | [] => pure r
  | s :: rest => do
    match ← s.fingerprint.outcome with
    | .ok commit =>
      resolveFrom failFast { r with fingerprints := r.fingerprints.insert s.name commit } rest
    | .error (.fingerprint cause) =>
      if failFast then throw (.fingerprint (.ofSource s.name cause))
      else resolveFrom failFast { r with failures := r.failures.insert s.name cause } rest
    | .error f => throw f

/-- Resolve sources. -/
def resolveAll (sources : List Source) (failFast : Bool) : Run Resolution :=
  resolveFrom failFast ⟨[], []⟩ sources

end Regen
