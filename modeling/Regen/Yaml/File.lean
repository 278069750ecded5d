import Regen.Disk.Disk
import Regen.Failure
import Regen.Text.Lines
import Regen.Yaml.Build

/-! # Documents on the disk

    A document's file holds text in UTF-8; every kind of line end counts as a line feed.  Whoever
    reads a document decides what a malformed one means, so the three causes stay apart. -/

namespace Regen.Yaml

/-- Why a document cannot be read from the disk. -/
inductive FileFault where
  | disk (fault : DiskFault)
  | malformed
  | value (fault : Fault)
  deriving DecidableEq, Repr

/-- The failure of an operation that gives no explanation of its own. -/
def FileFault.failure : FileFault → Failure
  | .disk fault => .disk fault
  | .malformed => .notYaml
  | .value fault => .value fault

/-- The value of a document's bytes. -/
def ofBytes (content : Bytes) : Except FileFault Value :=
  match Text.decodeUtf8 content with
  | .error f => .error (.value (.decoding f))
  | .ok cs =>
    match read (Text.unifyNewlines cs) with
    | .error .malformed => .error .malformed
    | .error (.fault f) => .error (.value f)
    | .ok v => .ok v

/-- The value of a document's file. -/
def load (d : Disk) (p : Path) : Except FileFault Value :=
  if Disk.holdsNull p then .error (.value .nullInPath)
  else match d.fileAt p with
    | .error f => .error (.disk f)
    | .ok (content, _) => ofBytes content

end Regen.Yaml
