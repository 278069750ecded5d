import Regen.Lockfile.Document
import Regen.Yaml.File
import Regen.Yaml.Writer

/-! # Lockfiles on the disk

    A lockfile is written to a new file beside it, which then takes its place, so that a failure
    leaves what was there.  Before that its revision on the disk must be the one that was read:
    a lockfile that somebody else wrote in the meantime is not replaced unless that is forced. -/

namespace Regen.Lockfile

open Time

/-! ## Reading -/

/-- Does a fault of a document's content make the lockfile corrupt?  A number that is too large
    does not. -/
def isCorrupting (f : Fault) : Bool :=
  match f.kind with
  | .key | .type | .attribute | .value | .decoding => true
  | .overflow | .index => false

/-- Read a lockfile. -/
def load (d : Disk) (p : Path) : Except Failure Lockfile :=
  match d.exists? p with
  | .error f => .error (.disk f)
  | .ok false => .error (.absent p.text)
  | .ok true =>
    match Yaml.load d p with
    | .error .malformed => .error (.corrupt p.text .notYaml)
    | .error f => .error f.failure
    | .ok v =>
      match ofDocument v with
      | .ok l => .ok l
      | .error f =>
        .error (if isCorrupting f then .corrupt p.text (.document f) else .value f)

/-- Read a lockfile, or begin one where there is none. -/
def loadOrCreate (d : Disk) (p : Path) (now : Moment) (tool : String) : Except Failure Lockfile :=
  match load d p with
  | .error (.absent _) => .ok (empty now tool)
  | r => r

/-- Does a fault hide the revision?  What a missing key or a number that is too large means is
    left to the caller. -/
def hidesRevision (f : Fault) : Bool :=
  match f.kind with
  | .type | .attribute | .value | .decoding => true
  | .key | .overflow | .index => false

/-- The revision of the lockfile on the disk. -/
def diskRevision (d : Disk) (p : Path) : Except Failure Int :=
  let hide (f : Fault) : Failure := if hidesRevision f then .corrupt p.text .revision else .value f
  match Yaml.load d p with
  | .error (.disk f) => .error (.disk f)
  | .error .malformed => .error (.corrupt p.text .revision)
  | .error (.value f) => .error (hide f)
  | .ok v => (counter v "revision").mapError hide

/-! ## Writing -/

/-- The steps of a save, in order. -/
inductive SaveStep where
  /-- Go on when the folders of the path's first parts are there. -/
  | makeFolders (depth : Nat)
  | readRevision
  | encode
  | createTemporary
  | write
  | flush
  | sync
  | rename
  /-- Remove the new file after a failure. -/
  | discard
  deriving DecidableEq, Repr

/-- What goes wrong at a step, if anything does. -/
abbrev Mishaps := SaveStep → Option Failure

/-- Nothing goes wrong by chance. -/
def noMishaps : Mishaps := fun _ => none

/-- A name for a new file beside `name`. -/
def temporaryName (name : String) (n : Nat) : String :=
  "." ++ name ++ "." ++ pad 8 n ++ ".tmp"

/-- The first name for a new file that is not taken, counting from `n`. -/
def freshTemporary (d : Disk) (folder : Path) (name : String) : Nat → Nat → Path
  | 0, n => folder / ⟨0, [temporaryName name n]⟩
  | fuel + 1, n =>
    let p := folder / ⟨0, [temporaryName name n]⟩
    match d.locate p false with
    | .ok (.found ..) => freshTemporary d folder name fuel (n + 1)
    | _ => p

/-- Why a lockfile of another revision is not replaced.  Revisions that are too long to be named
    are a fault of their own. -/
def revisionFailure (p : Path) (expected found : Int) : Failure :=
  if Number.isLong expected || Number.isLong found then .value .intTooLong
  else .conflict p.text expected found

/-- May the lockfile be replaced: is it absent, or at the revision that was read? -/
def checkRevision (d : Disk) (p : Path) (expected : Int) : Except Failure Unit :=
  match d.exists? p with
  | .error f => .error (.disk f)
  | .ok false => .ok ()
  | .ok true => do
    let found ← diskRevision d p
    if found = expected then .ok () else .error (revisionFailure p expected found)

/-- The bytes of a lockfile's document; integers that are too long cannot be written. -/
def encode (l : Lockfile) : Except Failure Bytes :=
  match l.toDocument with
  | .error f => .error (.value f)
  | .ok es =>
    if Value.anyLongEntry es then .error (.value .intTooLong)
    else .ok (Text.encodeUtf8 (Yaml.write es))

/-- The failure of a step: a mishap first, else the step's own. -/
def stepResult {α : Type} (mishaps : Mishaps) (step : SaveStep) (own : Except Failure α) :
    Except Failure α :=
  match mishaps step with
  | some f => .error f
  | none => own

/-- Make a folder and the folders around it that are missing.  A mishap strikes at the first depth
    that has one; the folders that were made stay. -/
def makeFoldersWith (mishaps : Mishaps) (d : Disk) (p : Path) : Disk × Except Failure Unit :=
  let stops := (List.range (p.parts.length + 1)).findSome? fun n =>
    (mishaps (.makeFolders n)).map (n, ·)
  match stops with
  | none =>
    let (d, r) := d.makeFolders p
    (d, r.mapError .disk)
  | some (n, f) =>
    match d.makeFolders { p with parts := p.parts.take n } with
    | (d, .ok ()) => (d, .error f)
    | (d, .error own) => (d, .error (.disk own))

/-- Fill the new file and let it take the lockfile's place.  The disk is left as the last step that
    succeeded made it. -/
def fillAndRename (mishaps : Mishaps) (d : Disk) (temporary p : Path) (content : Bytes) :
    Disk × Except Failure Unit :=
  match stepResult mishaps .write ((d.writeFile temporary content).mapError .disk) with
  | .error f => (d, .error f)
  | .ok written =>
    let moved : Except Failure Disk := do
      stepResult mishaps .flush (.ok ())
      stepResult mishaps .sync (.ok ())
      stepResult mishaps .rename ((written.moveFile temporary p).mapError .disk)
    match moved with
    | .error f => (written, .error f)
    | .ok d => (d, .ok ())

/-- Remove the new file if that can be done. -/
def discard (mishaps : Mishaps) (d : Disk) (temporary : Path) : Disk :=
  match stepResult mishaps .discard ((d.unlink temporary).mapError .disk) with
  | .error _ => d
  | .ok d => d

/-- Write the bytes to a new file beside the lockfile that then takes its place.  After a failure
    the new file is removed. -/
def replaceFile (mishaps : Mishaps) (d : Disk) (p : Path) (content : Bytes) :
    Disk × Except Failure Unit :=
  if Disk.holdsNull p then (d, .error (.value .nullInPath))
  else
    let temporary := freshTemporary d (d.absolute p.parent) p.name (d.entries.length + 1) 0
    match stepResult mishaps .createTemporary ((d.createFile temporary []).mapError .disk) with
    | .error f => (d, .error f)
    | .ok made =>
      match fillAndRename mishaps made temporary p content with
      | (d, .ok ()) => (d, .ok ())
      | (d, .error f) => (discard mishaps d temporary, .error f)

/-- The lockfile that a save writes. -/
def next (l : Lockfile) : Lockfile := { l with revision := l.revision + 1 }

/-- Write a lockfile while mishaps may happen.  The result is the disk afterwards and the lockfile
    at its new revision. -/
def saveWith (mishaps : Mishaps) (d : Disk) (p : Path) (l : Lockfile) (force : Bool) :
    Disk × Except Failure Lockfile :=
  if Disk.holdsNull p.parent then (d, .error (.value .nullInPath))
  else
    match makeFoldersWith mishaps d p.parent with
    | (d, .error f) => (d, .error f)
    | (d, .ok ()) =>
      let written := l.next
      let prepared : Except Failure Bytes := do
        if force then pure () else stepResult mishaps .readRevision (checkRevision d p l.revision)
        stepResult mishaps .encode written.encode
      match prepared with
      | .error f => (d, .error f)
      | .ok content =>
        match replaceFile mishaps d p content with
        | (d, .error f) => (d, .error f)
        | (d, .ok ()) => (d, .ok written)

/-- Write a lockfile. -/
def save (d : Disk) (p : Path) (l : Lockfile) (force : Bool) : Disk × Except Failure Lockfile :=
  saveWith noMishaps d p l force

/-- Read or begin a lockfile, update it and write it. -/
def update (d : Disk) (p : Path) (sources : Ledger SourceRecord) (files : Ledger FileRecord)
    (dependencies : Option (Ledger (List String))) (statistics : Option Statistics)
    (now : Moment) (tool : String) : Disk × Except Failure Lockfile :=
  match loadOrCreate d p now tool with
  | .error f => (d, .error f)
  | .ok l => save d p (l.applyUpdate sources files dependencies statistics now tool) false

end Regen.Lockfile
