import Regen.Command.Shared

/-! # Beginning a project

    Writes a settings file to start from and an empty lockfile.  What exists is kept, unless the
    user lets the settings file be overwritten. -/

namespace Regen.Command

/-- Write the settings file of a new project, or keep the one that exists. -/
def writeTemplate (file : Path) : Command Unit := do
  let wanted ← if ← pathExists file then do
      say s!"[yellow]⚠[/]  {file.text} already exists."
      confirm "Overwrite it?"
    else pure true
  if wanted then
    let content := Text.encodeUtf8 Settings.template.toList
    let d ← ofRun (Run.ofDisk ((← get).disk.writeFile file content))
    modify fun h => { h with disk := d }
    say s!"  [green]✓[/] {settingsName}"
  else
    say s!"  [dim]-[/] {settingsName} (kept)"

/-- Write an empty lockfile, or keep the one that exists. -/
def writeEmptyLockfile (file : Path) : Command Unit := do
  if ← pathExists file then
    say s!"  [dim]-[/] {Lockfile.defaultName} (kept)"
  else
    let h ← get
    writeLockfile file (Lockfile.empty h.now h.toolVersion)
    say s!"  [green]✓[/] {Lockfile.defaultName}"

/-- Begin a project in a folder. -/
def init (folder : Path) : Command Unit := do
  let folder ← ofExcept (resolvePath (← get).disk folder)
  ofRun (Run.onDisk fun d =>
    let (d, r) := d.makeFolders folder
    (d, r.mapError .disk))
  writeTemplate (folder / Path.ofText settingsName)
  writeEmptyLockfile (folder / Path.ofText Lockfile.defaultName)
  say s!"\n[bold green]✓ Project initialized in {folder.text}.[/]"
  say "\nNext steps:"
  say s!"  1. Add sources to {settingsName}"
  say "  2. gensonnet lock update      (record current fingerprints)"
  say "  3. gensonnet plan             (see what needs regenerating)"

end Regen.Command
