import Regen.Command.Shared

/-! # Status

    Shows what the next run would generate, and on request what the last one counted. -/

namespace Regen.Command

/-- Names separated by commas. -/
def nameList (names : List String) : String := String.intercalate ", " names

/-- What is said of the last run and the next one; `recorded` tells whether there was a last
    one. -/
def statusLines (l : Lockfile) (recorded : Bool) (configured : Nat) (plan : Plan)
    (millis : String) : List String :=
  let last := if recorded then l.generatedAt.secondText ++ " UTC" else "[dim]never[/]"
  let changed := if plan.changed.isEmpty then "[dim]none[/]" else nameList plan.changed
  let mode := if plan.isIncremental then "[green]possible[/]" else "[yellow]not possible[/]"
  [s!"Last generation:     {last}",
      s!"Tool version:        {l.toolVersion}",
      s!"Sources configured:  [bold]{configured}[/]",
      s!"Changed sources:     {changed}"] ++
    (if plan.dependents.isEmpty then []
      else [s!"Dependent sources:   {nameList plan.dependents}"]) ++
    [s!"Incremental:         {mode}",
      s!"Estimated time:      {millis}ms"]

/-- Show what the next run would do. -/
def showStatus (p : Path) (l : Lockfile) (configured : Nat) (plan : Plan) : Command Unit := do
  let recorded := (← pathExists p) && !l.sources.isEmpty
  let millis ← intText plan.estimatedMillis
  sayPanel "Generation Status" (statusLines l recorded configured plan millis)

/-- Show what the last run counted. -/
def showStatistics (s : Statistics) : Command Unit := do
  let metrics := ["Total processing time", "Sources processed", "Files generated", "Errors",
    "Warnings", "Cache hit rate"]
  let counts ← [s.totalMillis, s.sourcesProcessed, s.filesGenerated, s.errors, s.warnings].mapM
    intText
  let shown := match counts with
    | millis :: counts => (millis ++ "ms") :: counts
    | [] => []
  let columns ← renderColumns
    [⟨"", .left, metrics⟩, ⟨"", .left, shown ++ [percentText s.cacheHitRate]⟩]
  printLines (Console.panelAround "Last Run" (Console.plainWidth columns)
    (Console.plainTable columns))

/-- Show the state of a project. -/
def status (config : Path) (lockfile fingerprints : Option Path) (detailed : Bool) :
    Command Unit := do
  let s ← openSettings config
  let p := lockfilePath s lockfile
  let l := withDependencies (← openLockfile p) s
  let current ← currentFingerprints s fingerprints
  let unresolved := unresolvedSources s current
  showStatus p l s.sources.length (l.plan (l.changedSources current ++ unresolved))
  if detailed then showStatistics l.statistics

end Regen.Command
