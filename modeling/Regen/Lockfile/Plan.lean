import Regen.Graph.Dependents
import Regen.Graph.Order
import Regen.Lockfile.Basic

/-! # Plans

    What is to be generated again after some sources changed: those sources, all that depend on
    them, and the files of the changed ones.  When too many others depend on the changed sources,
    everything is to be generated again, and the plan says so. -/

namespace Regen

open Number

/-- What is to be generated again. -/
structure Plan where
  changed : List String
  /-- The sources that depend on a changed one. -/
  dependents : List String
  files : List String
  /-- Is it enough to generate the changed sources and their dependents? -/
  isIncremental : Bool
  estimatedMillis : Int
  deriving Repr, DecidableEq

namespace Plan

/-- How many dependents per changed source an incremental run may have. -/
def fanOutLimit : Int := 2

/-- How many bytes are generated in a millisecond. -/
def bytesPerMilli : Int := 1024

/-- Do few enough sources depend on the changed ones? -/
def canIncremental (changed dependents : Int) : Bool := dependents ≤ fanOutLimit * changed

/-- The sources to generate again, in order. -/
def sourcesToRebuild (p : Plan) : List String := Text.sortedDistinct (p.changed ++ p.dependents)

/-- How many sources are to be generated again. -/
def totalSources (p : Plan) : Nat := p.sourcesToRebuild.length

def requiresFull (p : Plan) : Bool := !p.isIncremental

/-- The share of the configured sources that need not be generated again. -/
def cacheHitRate (p : Plan) (configured : Int) : Binary64 :=
  if p.requiresFull || configured ≤ 0 then .zero
  else .ofRatio false (configured - p.totalSources).toNat configured.toNat

end Plan

namespace Lockfile

/-- The graph of the recorded sources and dependencies. -/
def graph (l : Lockfile) : Graph := .ofDependencies l.dependencies l.sources.names

/-- Has a source no record, or one with another fingerprint? -/
def sourceChanged (l : Lockfile) (name fingerprint : String) : Bool :=
  match l.sources.find? name with
  | some r => r.fingerprint != fingerprint
  | none => true

/-- Has a file no record, or one with another checksum? -/
def fileChanged (l : Lockfile) (path checksum : String) : Bool :=
  match l.files.find? path with
  | some r => r.sha256 != checksum
  | none => true

/-- The sources whose current fingerprint is not the recorded one, in order. -/
def changedSources (l : Lockfile) (current : Ledger String) : List String :=
  Text.sorted ((current.filter fun e => l.sourceChanged e.1 e.2).map (·.1))

/-- Did any source change? -/
def needsRegeneration (l : Lockfile) (current : Ledger String) : Bool :=
  current.any fun e => l.sourceChanged e.1 e.2

/-- The recorded files of some sources, in order.  A file without an owner may be of any source,
    so it is among them as soon as there is a source at all. -/
def filesOf (l : Lockfile) (sources : List String) : List String :=
  if sources.isEmpty then []
  else
    let owned := l.files.filter fun e => e.2.owner == "" || sources.contains e.2.owner
    Text.sorted (owned.map (·.1))

/-- A millisecond for every KiB that is recorded for the files; unknown files take no time. -/
def estimateMillis (l : Lockfile) (paths : List String) : Int :=
  let sizes := paths.filterMap fun p => (l.files.find? p).map FileRecord.size
  Int.fdiv (sizes.foldr (· + ·) 0) Plan.bytesPerMilli

/-- The plan after some sources changed, for a graph of dependencies. -/
def planWith (l : Lockfile) (g : Graph) (changed : List String) : Plan :=
  let changed := Text.sortedDistinct changed
  let dependents := g.transitiveDependents changed
  let files := l.filesOf changed
  { changed, dependents, files
    isIncremental := Plan.canIncremental changed.length dependents.length
    estimatedMillis := l.estimateMillis files }

/-- The plan after some sources changed. -/
def plan (l : Lockfile) (changed : List String) : Plan := l.planWith l.graph changed

end Lockfile

end Regen
