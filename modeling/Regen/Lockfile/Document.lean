import Regen.Lockfile.Basic
import Regen.Value.Convert

/-! # Lockfiles as documents

    The document of a lockfile has fixed keys in a fixed order, ledgers in the order of their
    names, and times as text in universal time.  Reading is lenient about how scalars are
    spelled: it converts every field to its type and fills in what may be left out. -/

namespace Regen

open Number Time

/-! ## Writing -/

/-- A time as it is written: in universal time. -/
def timeText (t : Moment) : Except Fault String := t.toUtc.map Moment.isoText

/-- A mapping with text keys that is reached by one path. -/
def document (es : List (String × Value)) : Value :=
  .map (es.map fun e => (.text e.1, e.2)) none

def textList (names : List String) : Value := .list (names.map .text) none

def SourceRecord.toDocument (r : SourceRecord) : Except Fault Value := do
  let fetched ← timeText r.fetchedAt
  pure <| document [
    ("url", .text r.url), ("ref", .text r.ref), ("fingerprint", .text r.fingerprint),
    ("fetched_at", .text fetched), ("filters", textList r.filters),
    ("metadata", .map r.metadata none)]

def FileRecord.toDocument (r : FileRecord) : Except Fault Value := do
  let modified ← timeText r.modifiedAt
  pure <| document [
    ("sha256", .text r.sha256), ("size", .int r.size), ("modified_at", .text modified),
    ("source_id", .text r.owner), ("file_type", r.fileType), ("line_count", r.lineCount)]

def Statistics.toDocument (s : Statistics) : Value :=
  document [
    ("total_processing_time_ms", .int s.totalMillis),
    ("sources_processed", .int s.sourcesProcessed), ("files_generated", .int s.filesGenerated),
    ("error_count", .int s.errors), ("warning_count", .int s.warnings),
    ("cache_hit_rate", .real s.cacheHitRate)]

/-- The entries of a ledger in the order of their names, each written by `f`. -/
def Ledger.toDocument {α : Type} (f : α → Except Fault Value) (l : Ledger α) :
    Except Fault Value := do
  let es ← l.sorted.mapM fun e => do pure (e.1, ← f e.2)
  pure (document es)

/-- The document of a lockfile. -/
def Lockfile.toDocument (l : Lockfile) : Except Fault Entries := do
  let generated ← timeText l.generatedAt
  let sources ← l.sources.toDocument SourceRecord.toDocument
  let files ← l.files.toDocument FileRecord.toDocument
  let dependencies ← l.dependencies.toDocument fun names => .ok (textList names)
  pure [
    (.text "schema_version", .text l.schemaVersion), (.text "generated_at", .text generated),
    (.text "tool_version", .text l.toolVersion), (.text "revision", .int l.revision),
    (.text "sources", sources), (.text "files", files), (.text "dependencies", dependencies),
    (.text "statistics", l.statistics.toDocument)]

/-! ## Reading -/

/-- The text of a required member. -/
def textMember (v : Value) (key : String) : Except Fault String :=
  v.member key >>= Value.toText

/-- The texts of the elements of a value; null and other values that are nothing have none. -/
def textsOf (v : Option Value) : Except Fault (List String) :=
  do (← (Value.orElse v (.list [] none)).elements).mapM Value.toText

def SourceRecord.ofDocument (v : Value) : Except Fault SourceRecord := do
  let url ← textMember v "url"
  let ref ← textMember v "ref"
  let fingerprint ← textMember v "fingerprint"
  let fetchedAt ← (← v.member "fetched_at").toMoment
  let filters ← textsOf (← v.member? "filters")
  let metadata ← (Value.orElse (← v.member? "metadata") (.map [] none)).toEntries
  pure { url, ref, fingerprint, fetchedAt, filters, metadata }

def FileRecord.ofDocument (v : Value) : Except Fault FileRecord := do
  let sha256 ← textMember v "sha256"
  let size ← (← v.member "size").toInt
  let modifiedAt ← (← v.member "modified_at").toMoment
  let owner ← (Value.orElse (← v.member? "source_id") (.text "")).toText
  let fileType := (← v.member? "file_type").getD .null
  let lineCount := (← v.member? "line_count").getD .null
  pure { sha256, size, modifiedAt, owner, fileType, lineCount }

/-- A counter that is zero if it is left out. -/
def counter (v : Value) (key : String) : Except Fault Int := do
  ((← v.member? key).getD (.int 0)).toInt

def Statistics.ofDocument (v : Value) : Except Fault Statistics := do
  let totalMillis ← counter v "total_processing_time_ms"
  let sourcesProcessed ← counter v "sources_processed"
  let filesGenerated ← counter v "files_generated"
  let errors ← counter v "error_count"
  let warnings ← counter v "warning_count"
  let cacheHitRate ← ((← v.member? "cache_hit_rate").getD (.real .zero)).toReal
  pure { totalMillis, sourcesProcessed, filesGenerated, errors, warnings, cacheHitRate }

/-- A ledger from the entries of a member, each read by `f`; keys are taken as text. -/
def Ledger.ofDocument {α : Type} (f : Value → Except Fault α) (v : Option Value) :
    Except Fault (Ledger α) := do
  let es ← (Value.orElse v (.map [] none)).items
  let read ← es.mapM fun e => do pure (← e.1.toText, ← f e.2)
  pure (Ledger.ofEntries read)

/-- The lockfile of a document. -/
def Lockfile.ofDocument (v : Value) : Except Fault Lockfile := do
  let .map _ _ := v | .error .topLevelShape
  let schemaVersion ← textMember v "schema_version"
  if schemaVersion != currentSchema then .error (.unsupportedVersion schemaVersion)
  let sources ← Ledger.ofDocument SourceRecord.ofDocument (← v.member? "sources")
  let files ← Ledger.ofDocument FileRecord.ofDocument (← v.member? "files")
  let dependencies ← Ledger.ofDocument (fun w => textsOf (some w)) (← v.member? "dependencies")
  let statistics ← Statistics.ofDocument
    (Value.orElse (← v.member? "statistics") (.map [] none))
  let generatedAt ← (← v.member "generated_at").toMoment
  let toolVersion ← ((← v.member? "tool_version").getD (.text "")).toText
  let revision ← counter v "revision"
  pure { schemaVersion, generatedAt, toolVersion, revision, sources, files, dependencies,
         statistics }

end Regen
