import Regen.Failure

/-! # Messages of the commands

    What a command prints when it cannot go on, or goes on with less: what is wrong, and what the
    user can do about it.  The messages hold markup. -/

namespace Regen.Message

/-- There is no lockfile yet. -/
def noLockfile (path : String) : String :=
  s!"[yellow]No lockfile found at '{path}'.[/]\n" ++
    "  Run:  gensonnet lock update"

/-- The lockfile cannot be read, or is of a version that is not known. -/
def corruptLockfile (path reason : String) : String :=
  s!"[red]Error:[/] Lockfile '{path}' is corrupt or incompatible.\n" ++
    s!"  Cause: {reason}\n" ++
    "  Restore it from version control, or delete it and run:\n" ++
    "    gensonnet lock update"

/-- Another run wrote the lockfile in the meantime. -/
def conflict (path : String) : String :=
  s!"[red]Error:[/] Lockfile '{path}' was modified by another run.\n" ++
    "  Nothing was written. Re-run the command."

/-- Sources depend on each other in a circle. -/
def cycle (source : String) : String :=
  s!"[red]Error:[/] Circular dependency involving source '{source}'.\n" ++
    s!"  Remove one of the depends_on entries on the cycle in {settingsName}."

/-- The settings are not accepted; the cause names the remedy. -/
def settings (cause : String) : String :=
  s!"[red]Error:[/] Invalid configuration.\n  {cause}"

/-- No sources are configured. -/
def noSources : String :=
  "[yellow]No sources configured.[/]\n" ++
    s!"  Add at least one entry under 'sources:' in {settingsName}, e.g.:\n" ++
    "    - type: crd\n" ++
    "      name: my-crds\n" ++
    "      git:\n" ++
    "        url: https://github.com/example/repo.git\n" ++
    "        ref: main"

/-- A repository cannot be reached, or lacks the reference. -/
def fingerprint (cause : String) : String :=
  s!"[red]Error:[/] Cannot resolve current fingerprint: {cause}\n" ++
    s!"  Check git.url and git.ref in {settingsName}, or pass --fingerprints FILE."

/-- The file with given fingerprints is missing or malformed. -/
def fingerprintsFile (path cause : String) : String :=
  s!"[red]Error:[/] Cannot read fingerprints file '{path}': {cause}\n" ++
    "  Expected a YAML mapping of source name to commit SHA."

/-- The lockfile cannot be written. -/
def saveFailed (path cause : String) : String :=
  s!"[red]Error:[/] Could not write lockfile '{path}': {cause}\n" ++
    "  The previous lockfile is unchanged. Check permissions and free space."

/-- Dependencies name sources that are not in the lockfile. -/
def dangling (edges : List (String × String)) : String :=
  "[yellow]⚠[/] Dependencies reference sources not in the lockfile:\n" ++
    String.intercalate "\n" (edges.map fun e => s!"    {e.1} → {e.2}") ++
    "\n  Run:  gensonnet lock update"

/-- A configured source has no current fingerprint. -/
def unresolved (source reason : String) : String :=
  s!"[yellow]⚠[/] No current fingerprint for source '{source}': {reason}\n" ++
    "  It is treated as changed; lock update keeps its previous record."

end Regen.Message
