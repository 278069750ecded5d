import Regen.Command.Shared
import Regen.Lockfile.Age

/-! # Cleaning up

    Removes the records that are older than the greatest age allowed, after showing them and
    asking the user. -/

namespace Regen.Command

open Number

/-- A size in bytes, KiB or MiB; the larger units with one place. -/
def humanSize (size : Int) : Except Fault String :=
  let scaled (unit : Nat) (name : String) : Except Fault String := do
    pure ((← Binary64.ofIntRatio? size unit).textOnePlace ++ name)
  if size < 1024 then do pure ((← Number.intText size) ++ " B")
  else if size < 1024 * 1024 then scaled 1024 " KiB"
  else scaled (1024 * 1024) " MiB"

/-- The size of a file as a command shows it. -/
def sizeText (size : Int) : Command String := ofValue (humanSize size)

/-- Show the records that are to be removed. -/
def showReport (r : SweepReport) : Command Unit := do
  let hours ← intText r.maxAge
  say s!"\nEntries older than [bold]{hours}h[/]:"
  if !r.sources.isEmpty then
    sayTable (some "Sources") [
      ⟨"Source", .left, r.sources.map (·.name)⟩,
      ⟨"Origin", .left, r.sources.map fun s => s!"{s.url}@{s.ref}"⟩,
      ⟨"Age", .right, r.sources.map fun s => s!"{s.age}h"⟩]
  if !r.files.isEmpty then
    let sizes ← r.files.mapM fun f => sizeText f.size
    sayTable (some "Files") [
      ⟨"Path", .left, r.files.map (·.path)⟩,
      ⟨"Size", .right, sizes⟩,
      ⟨"Age", .right, r.files.map fun f => s!"{f.age}h"⟩]
    let total ← sizeText r.totalSize
    say s!"Total size of stale files: {total}"

/-- Remove the records that are too old. -/
def cleanup (config : Path) (lockfile : Option Path) (maxAge : Option Int) (dryRun yes : Bool) :
    Command Unit := do
  let s ← openSettings config
  let p := lockfilePath s lockfile
  let hours := maxAge.getD s.maxAgeHours
  if !(← pathExists p) then sayAndExit (Message.noLockfile p.text) 0
  let l ← openLockfile p
  let now := (← get).now
  let report ← ofValue (l.collectStale hours now)
  if report.isEmpty then
    let hours ← intText hours
    say s!"[green]✓[/] No entries older than {hours}h. Nothing to clean up."
  else
    showReport report
    if dryRun then say "[dim]Dry run: lockfile not modified.[/]"
    else
      if !yes then
        if !(← confirm "Remove these entries?") then sayAndExit "[dim]Cancelled.[/]" 0
      let (swept, removed) ← ofValue (l.sweep hours now)
      if removed then writeLockfile p swept
      say <| s!"[green]✓[/] Removed {report.sources.length} source(s) and " ++
        s!"{report.files.length} file record(s) from {p.text}"

end Regen.Command
