import Regen.Settings.Load

/-! # Hosts

    The machine that a command runs on, as far as it is asked: its disk, time, variables and
    clock, and what git answers.  A run changes the disk and leaves a record of the calls of git
    and of what it printed. -/

namespace Regen

open Time

/-! ## Git -/

/-- What a call of git comes to. -/
inductive GitAnswer where
  | output (text : String)
  /-- Git refuses, with what it says on standard error. -/
  | refusal (stderr : String)
  /-- There is no git. -/
  | missing
  deriving DecidableEq, Repr

/-- An answer of git, and what others put on the disk while it runs. -/
structure GitReply where
  answer : GitAnswer
  writes : List (Path × Entry)
  deriving Repr

/-- A call of git and the folder that it runs in, if that is not the working folder. -/
structure GitCall where
  arguments : List String
  folder : Option String
  deriving DecidableEq, Repr

/-! ## The machine -/

/-- The machine that a command runs on. -/
structure Host where
  disk : Disk
  /-- The file with the settings for all projects. -/
  sharedSettings : Path
  now : Moment
  environment : Variables
  /-- The answers of git that are still to come; afterwards there is no git. -/
  git : List GitReply
  /-- The readings of the clock that are still to come; afterwards it stands at zero. -/
  clock : List Value
  /-- Files that may not be opened for a checksum. -/
  unreadable : List Path
  /-- Is the tool installed, so that it knows its version? -/
  installed : Bool
  /-- What the user still has to say, with line feeds at the ends of lines. -/
  input : List Char
  calls : List GitCall
  printed : String
  deriving Repr

/-- The version of the tool. -/
def Host.toolVersion (h : Host) : String := if h.installed then "0.1.0" else "dev"

/-! ## Runs -/

/-- Something that is done on a host and may fail; what was done before a failure stays. -/
abbrev Run := ExceptT Failure (StateM Host)

namespace Run

def ofExcept {α : Type} (r : Except Failure α) : Run α :=
  match r with
  | .ok x => pure x
  | .error f => throw f

/-- A result of the disk. -/
def ofDisk {α : Type} (r : Except DiskFault α) : Run α := ofExcept (r.mapError .disk)

/-- A result about a value. -/
def ofValue {α : Type} (r : Except Fault α) : Run α := ofExcept (r.mapError .value)

/-- The outcome of a run, failure or not. -/
def outcome {α : Type} (r : Run α) : Run (Except Failure α) :=
  ExceptT.mk do return .ok (← r.run)

/-- Change the disk. -/
def onDisk {α : Type} (f : Disk → Disk × Except Failure α) : Run α := do
  let (d, r) := f (← get).disk
  modify fun h => { h with disk := d }
  ofExcept r

/-- Put what others write on the disk; what cannot be put is left out. -/
def applyWrites (d : Disk) (writes : List (Path × Entry)) : Disk :=
  writes.foldl (fun d w => (d.install w.1 w.2).1) d

/-- Call git. -/
def callGit (arguments : List String) (folder : Option String) : Run String := do
  modify fun h => { h with calls := h.calls ++ [⟨"git" :: arguments, folder⟩] }
  match (← get).git with
  | [] => throw (.fingerprint .noGit)
  | reply :: rest =>
    modify fun h => { h with git := rest, disk := applyWrites h.disk reply.writes }
    match reply.answer with
    | .output text => pure text
    | .missing => throw (.fingerprint .noGit)
    | .refusal stderr => throw (.fingerprint (.git (arguments.head?.getD "") stderr))

/-- The next reading of the clock, in seconds. -/
def readClock : Run Value := do
  match (← get).clock with
  | [] => pure (.real .zero)
  | reading :: rest =>
    modify fun h => { h with clock := rest }
    pure reading

end Run

end Regen
