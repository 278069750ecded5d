import Regen.Command.Basic
import Regen.Command.Message
import Regen.Lockfile.Plan
import Regen.Lockfile.Store
import Regen.Source.Fingerprint

/-! # What the commands share

    Opening the settings and the lockfile, writing the lockfile, and finding the current
    fingerprints.  Each explains its failures to the user and stops. -/

namespace Regen.Command

open Time

/-! ## Settings and lockfile -/

/-- Does something exist? -/
def pathExists (p : Path) : Command Bool := do ofExcept (fileExists (← get).disk p)

/-- Load settings on a host; warnings go elsewhere. -/
def loadSettings (folder : Path) (named : Option Path) : Command (Except Failure Settings) := do
  let h ← get
  pure ((Settings.load h.disk h.environment folder named h.sharedSettings).run.run []).1

/-- The settings in a file or, if it does not exist, those of its folder. -/
def openSettings (file : Path) : Command Settings := do
  let found ← pathExists file
  match ← loadSettings file.parent (if found then some file else none) with
  | .ok s => pure s
  | .error (.settings cause) => sayAndExit (Message.settings cause.message) 1
  | .error f => throw (Stop.failure f)

/-- Where the lockfile is. -/
def lockfilePath (s : Settings) (given : Option Path) : Path :=
  given.getD (Path.ofText s.lockfilePath)

/-- Read the lockfile, or begin one. -/
def openLockfile (p : Path) : Command Lockfile := do
  let h ← get
  match Lockfile.loadOrCreate h.disk p h.now h.toolVersion with
  | .ok l => pure l
  | .error (.corrupt _ cause) => sayAndExit (Message.corruptLockfile p.text cause.message) 1
  | .error f => throw (Stop.failure f)

/-- Write the lockfile. -/
def writeLockfile (p : Path) (l : Lockfile) : Command Unit := do
  match ← attempt (Run.onDisk fun d => Lockfile.save d p l false) with
  | .ok _ => pure ()
  | .error (.conflict ..) => sayAndExit (Message.conflict p.text) 1
  | .error (.corrupt _ cause) => sayAndExit (Message.corruptLockfile p.text cause.message) 1
  | .error (.disk f) => sayAndExit (Message.saveFailed p.text f.message) 1
  | .error f => throw (Stop.failure f)

/-- The lockfile with the dependencies of the settings added. -/
def withDependencies (l : Lockfile) (s : Settings) : Lockfile :=
  s.dependencies.foldl (fun l e => e.2.foldl (fun l wanted => l.addDependency e.1 wanted) l) l

/-! ## Fingerprints -/

/-- The fingerprints that a file gives. -/
def readFingerprints (p : Path) : Command (Ledger String) := do
  let refuse (cause : String) : Command (Ledger String) :=
    sayAndExit (Message.fingerprintsFile p.text cause) 1
  match Yaml.load (← get).disk p with
  | .error (.disk f) => refuse f.message
  | .error .malformed => refuse s!"invalid YAML: {yamlMessage}"
  | .error f => throw (Stop.failure f.failure)
  | .ok v =>
    match Value.orElse (some v) (.map [] none) with
    | .map es _ =>
      let texts ← ofValue (es.mapM fun e => do pure (← e.1.toText, ← e.2.toText))
      pure (Ledger.ofEntries texts)
    | _ => refuse "not a mapping"

/-- The fingerprints of the configured sources that a file lists; the others are reported. -/
def listedFingerprints (s : Settings) (p : Path) : Command (Ledger String) := do
  let given ← readFingerprints p
  for name in s.sourceNames do
    if !given.has name then say (Message.unresolved name s!"not listed in {p.text}")
  pure (Ledger.ofEntries (s.sourceNames.filterMap fun name =>
    (given.find? name).map fun fingerprint => (name, fingerprint)))

/-- The fingerprints that git finds; sources without one are reported. -/
def foundFingerprints (s : Settings) : Command (Ledger String) := do
  match ← attempt (resolveAll s.sources s.failFast) with
  | .ok r =>
    for (name, cause) in r.failures do
      say (Message.unresolved name cause.message)
    pure r.fingerprints
  | .error (.fingerprint cause) => sayAndExit (Message.fingerprint cause.message) 1
  | .error f => throw (Stop.failure f)

/-- The current fingerprints of the configured sources, as far as they are known. -/
def currentFingerprints (s : Settings) (file : Option Path) : Command (Ledger String) :=
  match file with
  | some p => listedFingerprints s p
  | none => foundFingerprints s

/-- The configured sources without a current fingerprint, in order.  They count as changed. -/
def unresolvedSources (s : Settings) (current : Ledger String) : List String :=
  Text.sorted (s.sourceNames.filter fun name => !current.has name)

/-- The first characters of a fingerprint. -/
def shortFingerprint (fingerprint : String) : String := String.ofList (fingerprint.toList.take 12)

/-- A share in percent with one place. -/
def percentText (share : Number.Binary64) : String :=
  (share * Number.Binary64.ofRatio false 100 1).textOnePlace ++ "%"

end Regen.Command
