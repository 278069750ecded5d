import Regen.Settings.Check
import Regen.Settings.Read
import Regen.Yaml.File

/-! # Loading settings

    Settings come in layers: a file for all projects, which may set only how generation behaves
    and where the lockfile is, then the project's file, then variables of the environment.
    Sections that nobody knows are warned about and ignored. -/

namespace Regen

/-- The variables of the environment that settings look at. -/
structure Variables where
  lockfile : Option String
  maxAgeHours : Option String
  deriving Repr, DecidableEq

/-- A reading of settings, which may warn on the way. -/
abbrev Reading := ExceptT Failure (StateM (List String))

def warn (message : String) : Reading Unit := modify (· ++ [message])

/-- A result within a reading. -/
def Reading.ofExcept {α : Type} (r : Except Failure α) : Reading α :=
  match r with
  | .ok x => pure x
  | .error f => throw f

/-- The sections of a settings file. -/
def knownSections : List String := ["version", "sources", "output", "generation", "lockfile"]

/-- The sections that the file for all projects may set. -/
def sharedSections : List String := ["generation", "lockfile"]

/-- Is a key one of the names? -/
def isOneOf (key : Value) (names : List String) : Bool :=
  match key with
  | .text s => names.contains s
  | _ => false

/-- Warn about sections that nobody knows. -/
def warnUnknown (es : Entries) (file : Path) : Reading Unit :=
  es.forM fun e =>
    if isOneOf e.1 knownSections then pure ()
    else do
      let key ← Reading.ofExcept (valueFailure e.1.toText)
      warn s!"Unknown config key '{key}' in '{file.text}' — ignored."

/-- The first section that only a project may set. -/
def projectSection? (es : List (Value × Value)) : Option Value :=
  (es.map (·.1)).find? fun key => isOneOf key knownSections && !isOneOf key sharedSections

/-- The entries of a settings file; what holds nothing has none. -/
def readSettingsFile (d : Disk) (file : Path) : Except Failure Entries :=
  match Yaml.load d file with
  | .error .malformed => .error (.settings (.notYaml file.text))
  | .error f => .error f.failure
  | .ok v =>
    match Value.orElse (some v) (.map [] none) with
    | .map es _ => .ok es
    | _ => .error (.settings (.notMapping file.text))

/-- Does a file exist? -/
def fileExists (d : Disk) (p : Path) : Except Failure Bool := (d.exists? p).mapError .disk

/-- Let variables override the settings. -/
def Settings.override (s : Settings) (vars : Variables) : Except Failure Settings :=
  let s := match vars.lockfile.getD "" with
    | "" => s
    | path => { s with lockfilePath := path }
  match vars.maxAgeHours.getD "" with
  | "" => .ok s
  | hours =>
    match Number.readInt 10 hours with
    | .ok n => .ok { s with maxAgeHours := n }
    | .error _ => .error (.settings (.ageVariable hours))

/-- The entries of the file for all projects. -/
def sharedEntries (d : Disk) (file : Path) : Reading Entries := do
  if ← Reading.ofExcept (fileExists d file) then
    let es ← Reading.ofExcept (readSettingsFile d file)
    match projectSection? es with
    | some key => throw (.settings (.projectSection file.text key.display))
    | none => pure ()
    warnUnknown es file
    pure (mergeEntries [] es)
  else pure []

/-- The entries after the project's file; if the file was asked for by name it must exist. -/
def projectEntries (d : Disk) (base : Entries) (folder : Path) (named : Option Path) :
    Reading Entries := do
  let file := named.getD (folder / Path.ofText settingsName)
  if ← Reading.ofExcept (fileExists d file) then
    let es ← Reading.ofExcept (readSettingsFile d file)
    warnUnknown es file
    pure (mergeEntries base es)
  else match named with
    | some p => throw (.settings (.noFile p.text))
    | none => pure base

/-- Load the settings of a project: of the file asked for by name, or of the one in the
    project's folder. -/
def Settings.load (d : Disk) (vars : Variables) (folder : Path) (named : Option Path)
    (shared : Path) : Reading Settings := do
  let es ← projectEntries d (← sharedEntries d shared) folder named
  let s ← Reading.ofExcept (Settings.ofDocument es)
  Reading.ofExcept (checkSources s.sources)
  Reading.ofExcept (s.override vars)

end Regen
