import Regen.Hash.Sha256
import Regen.Lockfile.Basic
import Regen.Number.Round
import Regen.Source.Fingerprint

/-! # Records of sources and files

    What is recorded of a source and of the files that were generated into its output folder. -/

namespace Regen

open Number Time

/-- What is recorded of a source that is at a fingerprint now. -/
def Source.record (s : Source) (fingerprint : String) (metadata : Entries) (now : Moment) :
    SourceRecord :=
  { url := maskCredentials s.git.url, ref := s.git.ref, fingerprint, fetchedAt := now,
    filters := s.scope, metadata }

/-! ## Times of files -/

/-- The binary64 number nearest to a decimal. -/
def decimal (digits : Nat) (exponent : Int) : Binary64 := .ofDecimal false digits exponent

/-- A file's time of change in seconds: the whole seconds plus 1e-9 for every nanosecond, each
    step rounded. -/
def changeSeconds (nanos : Int) : Binary64 :=
  let whole := nanos / 1000000000
  let rest := nanos % 1000000000
  .ofRatio (whole < 0) whole.natAbs 1 + decimal 1 (-9) * .ofRatio false rest.toNat 1

/-- Microseconds of a time in seconds: the fraction is taken in microseconds, rounded, and then
    once more to a whole number, a half to the even neighbour. -/
def wholeMicros (seconds : Binary64) : Int :=
  match seconds.ratio? with
  | none => 0
  | some (num, den) =>
    let whole := Int.tdiv num den
    let rest := num - whole * den
    let micros := Binary64.ofRatio (rest < 0) rest.natAbs den * decimal 1000000 0
    match micros.ratio? with
    | none => 0
    | some (m, d) =>
      let n : Int := roundHalfEven m.natAbs d
      whole * 1000000 + (if m < 0 then -n else n)

/-- The first moment that files' times are counted from. -/
def epoch : Moment := ⟨⟨1970, 1, 1⟩, 0, 0, 0, 0, some 0⟩

/-- The moment of a file's last change, if its year has dates. -/
def changeMoment (nanos : Int) : Except Fault Moment :=
  let micros := epoch.clockMicros + wholeMicros (changeSeconds nanos)
  let day := micros / dayMicros
  if day < Date.firstDay || Date.lastDay < day then .error (.year (Date.yearOfDay day))
  else .ok (.ofClockMicros micros (some 0))

/-! ## Checksums -/

/-- How many bytes are read at once. -/
def chunkSize : Nat := 65536

/-- The chunks in which content is read, at most `count` of them. -/
def chunksOf : Nat → Bytes → List Bytes
  | 0, _ => []
  | _, [] => []
  | count + 1, content => content.take chunkSize :: chunksOf count (content.drop chunkSize)

/-- What is known of content that was read so far: its checksum and its line feeds. -/
structure Tally where
  hasher : Sha256.Hasher
  lineFeeds : Nat
  deriving DecidableEq, Repr

namespace Tally

def empty : Tally := ⟨.empty, 0⟩

/-- Count the next chunk. -/
def add (t : Tally) (chunk : Bytes) : Tally :=
  ⟨t.hasher.update chunk, t.lineFeeds + chunk.count 0x0A⟩

/-- What is known of content when it was read chunk by chunk. -/
def ofContent (content : Bytes) : Tally :=
  (chunksOf content.length content).foldl add empty

end Tally

/-- The record of a file's content; without a given type the file's extension is its type. -/
def fileRecord (content : Bytes) (changed : Int) (p : Path) (owner : String)
    (fileType : Option String) : Except Fault FileRecord := do
  let tally := Tally.ofContent content
  let modifiedAt ← changeMoment changed
  pure {
    sha256 := Sha256.hexText tally.hasher.digest
    size := content.length
    modifiedAt
    owner
    fileType := match fileType.or p.extension? with
      | some t => .text t
      | none => .null
    lineCount := .int tally.lineFeeds }

/-- May a file be opened for its checksum? -/
def Host.mayOpen (h : Host) (p : Path) : Bool :=
  !(h.unreadable.map h.disk.realPath).contains (h.disk.realPath p)

/-- Read a file and record its checksum. -/
def checksum (h : Host) (p : Path) (owner : String) (fileType : Option String) :
    Except Failure FileRecord :=
  if Disk.holdsNull p then .error (.value .nullInPath)
  else if !h.mayOpen p then .error (.disk .denied)
  else match h.disk.fileAt p with
    | .error f => .error (.disk f)
    | .ok (content, changed) => (fileRecord content changed p owner fileType).mapError .value

/-! ## Output folders -/

/-- A path as seen from a folder that it lies in, and else the path itself. -/
def relativeTo (folder p : Path) : String :=
  if p.slashes == folder.slashes && folder.parts.isPrefixOf p.parts then
    Path.text ⟨0, p.parts.drop folder.parts.length⟩
  else p.text

/-- Record the files of one output folder; a file that cannot be read is left out. -/
def scanFiles (h : Host) (base : Path) (owner : String) (files : Ledger FileRecord) :
    List Path → Except Failure (Ledger FileRecord)
  | [] => .ok files
  | p :: rest =>
    match checksum h p owner none with
    | .ok r => do
      let real ← resolvePath h.disk p
      scanFiles h base owner (files.insert (relativeTo base real) r) rest
    | .error (.disk _) => scanFiles h base owner files rest
    | .error f => .error f

/-- Record the files of the output folders of sources.  A file is named as seen from the base
    folder; one that lies in several output folders belongs to the last of them. -/
def scanFrom (h : Host) (base : Path) (files : Ledger FileRecord) :
    List Source → Except Failure (Ledger FileRecord)
  | [] => .ok files
  | s :: rest => do
    let folder := base / Path.ofText s.outputPath
    if ← isFolder h.disk folder then
      let paths ← (h.disk.filesBelow folder).mapError Failure.disk
      scanFrom h base (← scanFiles h base s.name files paths) rest
    else scanFrom h base files rest

/-- Record the files of the output folders of sources. -/
def scanOutputs (h : Host) (sources : List Source) (base : Path) :
    Except Failure (Ledger FileRecord) := do
  scanFrom h (← resolvePath h.disk base) [] sources

end Regen
