import Regen.Command.Run
import Std.Time.DateTime.Timestamp

/-! # The program

    Takes what a run may look at from the machine, runs the tool, prints what it printed and
    makes its changes to the disk.  The tool sees the working folder with everything below it
    and the settings for all projects; it calls no other program, so fingerprints come from a
    file. -/

namespace Regen.Program

open Time

/-! ## Looking -/

/-- A time of the machine in nanoseconds since 1970. -/
def nanos (t : IO.FS.SystemTime) : Int := t.sec * 1000000000 + t.nsec.toNat

/-- What is at a place of the machine's disk, and everything below it. -/
partial def readBelow (place : Place) (e : IO.FS.DirEntry) : IO (List (Place × Entry)) := do
  let here := place ++ [e.fileName]
  let about ← e.path.symlinkMetadata
  match about.type with
  | .dir =>
    let inner ← (← e.path.readDir).toList.mapM (readBelow here)
    pure ((here, .folder) :: inner.flatten)
  | .file =>
    let content ← IO.FS.readBinFile e.path
    pure [(here, .file content.toList (nanos about.modified))]
  | .symlink => pure [(here, .link (← IO.FS.realPath e.path).toString)]
  | .other => pure []

/-- The moment that it is now. -/
def currentMoment : IO Moment := do
  let t ← Std.Time.Timestamp.now
  let micros := t.toNanosecondsSinceUnixEpoch.val / 1000
  pure (.ofClockMicros (epoch.clockMicros + micros) (some 0))

/-- A reading of the machine's clock in seconds. -/
def clockReading : IO Value := do
  pure (.real ((Number.Binary64.ofRatio false (← IO.monoNanosNow) 1).divNat 1000000000))

/-- The settings for all projects, put on the disk if they exist. -/
def addShared (d : Disk) (file : String) : IO Disk := do
  try
    let content ← IO.FS.readBinFile file
    pure (d.install (Path.ofText file) (.file content.toList 0)).1
  catch _ => pure d

/-- The machine as the tool sees it. -/
def lookAround : IO Host := do
  let folder ← IO.currentDir
  let place := (Path.ofText folder.toString).parts
  let found ← (← folder.readDir).toList.mapM (readBelow place)
  let bare : Disk := ⟨[], place⟩
  let (around, _) := bare.makeFolders ⟨1, place⟩
  let home := (← IO.getEnv "HOME").getD ""
  let shared := home ++ "/.gensonnet/config.yaml"
  let disk ← addShared { around with entries := found.flatten ++ around.entries } shared
  pure {
    disk, sharedSettings := Path.ofText shared, now := ← currentMoment
    environment := ⟨← IO.getEnv "GENSONNET_LOCKFILE", ← IO.getEnv "GENSONNET_MAX_AGE_HOURS"⟩
    git := [], clock := [← clockReading, ← clockReading], unreadable := [], installed := true
    input := [], calls := [], printed := "" }

/-! ## Changing -/

/-- Write a file of the machine so that it is there as a whole or as it was before. -/
def replaceFile (path : String) (content : Bytes) : IO Unit := do
  let temporary := path ++ ".new"
  IO.FS.writeBinFile temporary ⟨content.toArray⟩
  IO.FS.rename temporary path

/-- Make the disk of the machine what the run left. -/
def applyChanges (before after : Disk) : IO Unit := do
  for (place, e) in after.entries.reverse do
    let path := Path.text ⟨1, place⟩
    match e with
    | .folder => if before.at? place != some .folder then IO.FS.createDirAll path
    | .file content _ =>
      let same := match before.at? place with
        | some (.file old _) => old == content
        | _ => false
      if !same then replaceFile path content
    | .link _ => pure ()
  for (place, _) in before.entries do
    if (after.at? place).isNone then IO.FS.removeFile (Path.text ⟨1, place⟩)

/-! ## Running -/

/-- Run the tool, print what is new, and as long as it asks let the user say one more line. -/
partial def converse (arguments : List String) (h : Host) (said : List Char) (shown : Nat) :
    IO (Command.Ending × Host) := do
  let (e, after) := Command.runTool arguments said h
  let output ← IO.getStdout
  output.putStr (String.ofList (after.printed.toList.drop shown))
  output.flush
  if e.lacksInput then
    let line ← (← IO.getStdin).getLine
    if line.isEmpty then pure (e, after)
    else
      -- The terminal shows what the user types, so the tool's own echo of it is not printed.
      let echoed := line.toList.length
      converse arguments h (said ++ line.toList) (after.printed.toList.length + echoed)
  else pure (e, after)

end Regen.Program

open Regen Regen.Program in
/-- Run the tool on the machine. -/
def main (arguments : List String) : IO UInt32 := do
  let before ← lookAround
  let (e, after) ← converse arguments before [] 0
  applyChanges before.disk after.disk
  match e.failure with
  | some f => IO.eprintln f.message
  | none => pure ()
  pure e.exitCode.toUInt32
