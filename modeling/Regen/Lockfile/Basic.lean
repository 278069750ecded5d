import Regen.Ledger
import Regen.Value.Basic

/-! # Lockfiles

    A lockfile records the state that the last run saw: the fingerprint of every source, the
    checksum of every generated file, which source depends on which, and what the run counted.
    Its revision counts how often it was written. -/

namespace Regen

open Number Time

/-- What is recorded of a source. -/
structure SourceRecord where
  url : String
  ref : String
  fingerprint : String
  fetchedAt : Moment
  /-- The expressions that narrow down what is taken from the source. -/
  filters : List String
  /-- Free-form notes. -/
  metadata : Entries
  deriving Repr

/-- What is recorded of a generated file.  A file whose owner is empty may come from any source. -/
structure FileRecord where
  sha256 : String
  size : Int
  modifiedAt : Moment
  owner : String
  /-- Usually a text or null. -/
  fileType : Value
  /-- Usually an integer or null. -/
  lineCount : Value
  deriving Repr

/-- What the last run counted. -/
structure Statistics where
  totalMillis : Int
  sourcesProcessed : Int
  filesGenerated : Int
  errors : Int
  warnings : Int
  cacheHitRate : Binary64
  deriving Repr, DecidableEq

/-- The counts before any run. -/
def Statistics.none : Statistics := ⟨0, 0, 0, 0, 0, .zero⟩

/-- The state that the last run saw. -/
structure Lockfile where
  schemaVersion : String
  generatedAt : Moment
  toolVersion : String
  revision : Int
  sources : Ledger SourceRecord
  files : Ledger FileRecord
  /-- For a source, the sources whose change makes it be generated again. -/
  dependencies : Ledger (List String)
  statistics : Statistics
  deriving Repr

namespace Lockfile

/-- The version of the format. -/
def currentSchema : String := "1.0"

/-- The name of a lockfile that nothing else names. -/
def defaultName : String := "gensonnet.lock"

/-- The lockfile before any run. -/
def empty (now : Moment) (tool : String) : Lockfile :=
  ⟨currentSchema, now, tool, 0, [], [], [], .none⟩

def addSource (l : Lockfile) (name : String) (r : SourceRecord) : Lockfile :=
  { l with sources := l.sources.insert name r }

def addFile (l : Lockfile) (path : String) (r : FileRecord) : Lockfile :=
  { l with files := l.files.insert path r }

/-- Record that `source` is to be generated again whenever `wanted` changes. -/
def addDependency (l : Lockfile) (source wanted : String) : Lockfile :=
  let known := (l.dependencies.find? source).getD []
  { l with
    dependencies := l.dependencies.insert source
      (if known.contains wanted then known else known ++ [wanted]) }

/-- Replace sources and files wholesale and stamp the lockfile.  Dependencies and statistics are
    kept unless they are given. -/
def applyUpdate (l : Lockfile) (sources : Ledger SourceRecord) (files : Ledger FileRecord)
    (dependencies : Option (Ledger (List String))) (statistics : Option Statistics)
    (now : Moment) (tool : String) : Lockfile :=
  { l with
    sources, files
    dependencies := dependencies.getD l.dependencies
    statistics := statistics.getD l.statistics
    generatedAt := now
    toolVersion := tool }

/-- Dependencies that touch a source without a record. -/
def dangling (l : Lockfile) : List (String × String) :=
  l.dependencies.sorted.flatMap fun (source, wanted) =>
    (wanted.filter fun w => !(l.sources.has source && l.sources.has w)).map (source, ·)

end Lockfile

/-! ## Equality

    Moments are compared as instants, metadata by content, ledgers without their order. -/

/-- Have two mappings equal entries? -/
def Entries.same (es fs : Entries) : Bool := (Value.map es none).same (.map fs none)

def SourceRecord.same (r s : SourceRecord) : Bool :=
  r.url == s.url && r.ref == s.ref && r.fingerprint == s.fingerprint &&
    r.fetchedAt.equals s.fetchedAt && r.filters == s.filters && Entries.same r.metadata s.metadata

def FileRecord.same (r s : FileRecord) : Bool :=
  r.sha256 == s.sha256 && r.size == s.size && r.modifiedAt.equals s.modifiedAt &&
    r.owner == s.owner && r.fileType.same s.fileType && r.lineCount.same s.lineCount

def Statistics.same (s t : Statistics) : Bool :=
  s.totalMillis == t.totalMillis && s.sourcesProcessed == t.sourcesProcessed &&
    s.filesGenerated == t.filesGenerated && s.errors == t.errors && s.warnings == t.warnings &&
    (Value.real s.cacheHitRate).same (.real t.cacheHitRate)

def Lockfile.same (l m : Lockfile) : Bool :=
  l.schemaVersion == m.schemaVersion && l.generatedAt.equals m.generatedAt &&
    l.toolVersion == m.toolVersion && l.revision == m.revision &&
    l.sources.sameBy SourceRecord.same m.sources && l.files.sameBy FileRecord.same m.files &&
    l.dependencies.sameBy (· == ·) m.dependencies && l.statistics.same m.statistics

end Regen
