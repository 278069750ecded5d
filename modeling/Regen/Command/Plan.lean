import Regen.Command.Shared

/-! # Planning

    Shows the sources that the next run generates, in generation order and each with the reason,
    and the files of the changed ones. -/

namespace Regen.Command

/-- Why a source is generated again. -/
def reasonText (plan : Plan) (unresolved : List String) (source : String) : String :=
  if unresolved.contains source then "[yellow]unresolved[/]"
  else if plan.changed.contains source then "[yellow]changed[/]"
  else if plan.dependents.contains source then "dependent"
  else "[dim]full rebuild[/]"

/-- The line that says how much is generated again. -/
def extentText (plan : Plan) (force full : Bool) : String :=
  if force then "[bold]Full regeneration[/] (--force)"
  else if full then
    s!"[yellow]Full regeneration[/]: {plan.dependents.length} dependent(s) " ++
      s!"for {plan.changed.length} changed source(s) is too wide for an incremental run."
  else "[bold]Incremental regeneration[/]"

/-- Show the sources in generation order. -/
def showOrdered (plan : Plan) (unresolved ordered : List String) : Command Unit := do
  sayTable none [
    ⟨"#", .right, (List.range ordered.length).map fun i => toString (i + 1)⟩,
    ⟨"Source", .left, ordered⟩,
    ⟨"Reason", .left, ordered.map (reasonText plan unresolved)⟩]

/-- What the next run generates. -/
structure Work where
  plan : Plan
  /-- The configured sources whose current fingerprint is not known. -/
  unresolved : List String
  /-- Is everything generated again? -/
  full : Bool
  /-- The sources to generate, in generation order. -/
  ordered : List String
  deriving Repr

/-- Work out what the next run generates from the lockfile and the current fingerprints. -/
def workOf (s : Settings) (stored : Lockfile) (current : Ledger String) (force : Bool) :
    Except Failure Work := do
  let l := withDependencies stored s
  let g := l.graph
  let unresolved := unresolvedSources s current
  let p := l.planWith g (l.changedSources current ++ unresolved)
  let full := force || p.requiresFull
  let ordered ← g.orderSubset (if full then s.sourceNames else p.sourcesToRebuild)
  pure ⟨p, unresolved, full, ordered⟩

/-- A result that sources may spoil by needing each other in a circle; a circle is explained. -/
def explainCircle {α : Type} (r : Except Failure α) : Command α :=
  match r with
  | .ok x => pure x
  | .error (.cycle source) => sayAndExit (Message.cycle source) 1
  | .error f => throw (Stop.failure f)

/-- Show the files to generate, if there are any. -/
def showFiles (files : List String) : Command Unit := do
  if !files.isEmpty then
    say s!"\nFiles to regenerate ({files.length}):"
    for file in files do say s!"  {file}"

/-- Show how long the run will take and how much it need not do. -/
def showEstimate (s : Settings) (w : Work) : Command Unit := do
  let rate := if w.full then .zero else w.plan.cacheHitRate s.sources.length
  let millis ← intText w.plan.estimatedMillis
  say s!"\nEstimated time: {millis}ms  |  Cache hit rate: {percentText rate}"

/-- Show what the next run generates. -/
def showWork (s : Settings) (w : Work) (force : Bool) : Command Unit := do
  if w.ordered.isEmpty then
    say "[green]✓[/] Everything is up to date. Nothing to regenerate."
  else
    say (extentText w.plan force w.full)
    showOrdered w.plan w.unresolved w.ordered
    showFiles w.plan.files
    showEstimate s w

/-- Work out what the next run generates, with settings that have sources, and show it. -/
def planWith (s : Settings) (lockfile fingerprints : Option Path) (force : Bool) :
    Command Unit := do
  let stored ← openLockfile (lockfilePath s lockfile)
  let current ← currentFingerprints s fingerprints
  let w ← explainCircle (workOf s stored current force)
  showWork s w force

/-- Show what the next run generates. -/
def plan (config : Path) (lockfile fingerprints : Option Path) (force : Bool) :
    Command Unit := do
  let s ← openSettings config
  if s.sources.isEmpty then sayAndExit Message.noSources 0
  else planWith s lockfile fingerprints force

end Regen.Command
