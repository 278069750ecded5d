import Regen.Command.Shared
import Regen.Source.Record

/-! # The lockfile

    Shows what the lockfile records, and records the current state: the fingerprints of all
    sources that have one and the checksums of their files. -/

namespace Regen.Command

open Number

/-! ## Showing -/

/-- Show the recorded sources. -/
def showSources (l : Lockfile) : Command Unit := do
  let es := l.sources.sorted
  sayTable none [
    ⟨"Source", .left, es.map (·.1)⟩,
    ⟨"Origin", .left, es.map fun e => s!"{e.2.url}@{e.2.ref}"⟩,
    ⟨"Fingerprint", .left, es.map fun e => shortFingerprint e.2.fingerprint⟩,
    ⟨"Fetched", .left, es.map fun e => e.2.fetchedAt.minuteText⟩]

/-- Show what the lockfile records. -/
def lockStatus (config : Path) (lockfile : Option Path) : Command Unit := do
  let s ← openSettings config
  let p := lockfilePath s lockfile
  if !(← pathExists p) then sayAndExit (Message.noLockfile p.text) 0
  let l ← openLockfile p
  let revision ← intText l.revision
  let edges := (l.dependencies.map fun e => e.2.length).foldr (· + ·) 0
  sayPanel "Lockfile" [
    s!"Lockfile:      {p.text}",
    s!"Generated:     {l.generatedAt.secondText} UTC",
    s!"Tool version:  {l.toolVersion}",
    s!"Revision:      {revision}",
    s!"Sources: [bold]{l.sources.length}[/]  |  Files: [bold]{l.files.length}[/]  |  " ++
      s!"Dependencies: [bold]{edges}[/]"]
  if !l.sources.isEmpty then showSources l
  if !l.dangling.isEmpty then say (Message.dangling l.dangling)

/-! ## Updating -/

/-- Whole milliseconds between two readings of the clock. -/
def elapsedMillis (start stop : Value) : Except Fault Int :=
  match start, stop with
  | .int a, .int b => .ok ((b - a) * 1000)
  | a, b => do
    let seconds := (← b.toReal) - (← a.toReal)
    (seconds * Binary64.ofRatio false 1000 1).truncate

/-- The sources without a fingerprint that have a record. -/
def keptSources (l : Lockfile) (unresolved : List String) : List String :=
  unresolved.filter l.sources.has

/-- The records after an update: of the resolved sources as they are now, of kept ones as they
    were. -/
def updatedSources (l : Lockfile) (resolved : List Source) (current : Ledger String)
    (kept : List String) (now : Time.Moment) : Ledger SourceRecord :=
  let fresh := resolved.map fun s =>
    (s.name, s.record ((current.find? s.name).getD "") [] now)
  let old := kept.filterMap fun name => (l.sources.find? name).map fun r => (name, r)
  Ledger.ofEntries (fresh ++ old)

/-- The file records after an update: those that were scanned, and those of unresolved sources
    that were not. -/
def updatedFiles (l : Lockfile) (scanned : Ledger FileRecord) (unresolved : List String) :
    Ledger FileRecord :=
  (l.files.filter fun e => unresolved.contains e.2.owner).foldl
    (fun files e => files.insertNew e.1 e.2) scanned

/-- The sources with a current fingerprint. -/
def resolvedSources (s : Settings) (current : Ledger String) : List Source :=
  s.sources.filter fun x => current.has x.name

/-- The plan for the sources that are not up to date. -/
def updatePlan (s : Settings) (l : Lockfile) (current : Ledger String) : Plan :=
  l.planWith (Graph.ofDependencies s.dependencies s.sourceNames)
    (l.changedSources current ++ unresolvedSources s current)

/-- The lockfile after an update that scanned files and took its time. -/
def updatedLockfile (s : Settings) (l : Lockfile) (current : Ledger String)
    (scanned : Ledger FileRecord) (totalMillis : Int) (now : Time.Moment) (tool : String) :
    Lockfile :=
  let unresolved := unresolvedSources s current
  let resolved := resolvedSources s current
  let records := updatedSources l resolved current (keptSources l unresolved) now
  let files := updatedFiles l scanned unresolved
  let statistics : Statistics :=
    { totalMillis, sourcesProcessed := resolved.length, filesGenerated := files.length
      errors := 0, warnings := unresolved.length
      cacheHitRate := (updatePlan s l current).cacheHitRate s.sources.length }
  l.applyUpdate records files (some s.dependencies) (some statistics) now tool

/-- Record the files of the resolved sources, named as seen from the folder of the settings. -/
def scanResolved (h : Host) (config : Path) (s : Settings) (current : Ledger String) :
    Except Failure (Ledger FileRecord) := do
  let base ← resolvePath h.disk config
  scanOutputs h (resolvedSources s current) base.parent

/-- Explain a circle among dependencies and stop. -/
def requireOrder (g : Graph) : Command Unit :=
  match g.generationOrder with
  | .ok _ => pure ()
  | .error (.cycle source) => sayAndExit (Message.cycle source) 1
  | .error f => throw (Stop.failure f)

/-- Say what an update changed. -/
def showUpdate (p : Path) (sources files : Nat) (changed kept : List String)
    (current : Ledger String) : Command Unit := do
  say s!"[green]✓[/] Lockfile updated: {p.text}"
  say s!"  Sources: {sources}  |  Files: {files}"
  if changed.isEmpty then say "  [dim]No source changes since the last update.[/]"
  else
    say "  Changed sources:"
    for name in changed do
      let fingerprint := (current.find? name).getD ""
      say s!"    {name}: {shortFingerprint fingerprint}"
  if !kept.isEmpty then
    let names := String.intercalate ", " kept
    say s!"  [yellow]Kept previous records for:[/] {names}"

/-- Record the current state, with settings that have sources. -/
def updateWith (s : Settings) (started : Value) (config : Path)
    (lockfile fingerprints : Option Path) : Command Unit := do
  let p := lockfilePath s lockfile
  let l ← openLockfile p
  requireOrder (Graph.ofDependencies s.dependencies s.sourceNames)
  let current ← currentFingerprints s fingerprints
  let h ← get
  let scanned ← ofExcept (scanResolved h config s current)
  let totalMillis ← ofValue (elapsedMillis started (← ofRun Run.readClock))
  let updated := updatedLockfile s l current scanned totalMillis h.now h.toolVersion
  writeLockfile p updated
  showUpdate p updated.sources.length updated.files.length (l.changedSources current)
    (keptSources l (unresolvedSources s current)) current

/-- Record the current state. -/
def lockUpdate (config : Path) (lockfile fingerprints : Option Path) : Command Unit := do
  let started ← ofRun Run.readClock
  let s ← openSettings config
  if s.sources.isEmpty then sayAndExit Message.noSources 0
  else updateWith s started config lockfile fingerprints

end Regen.Command
