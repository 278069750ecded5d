import Regen.Lockfile.Basic

/-! # Age of records

    The age of a record is counted in whole hours.  A record is stale when it is older than the
    greatest age allowed, so one exactly that old is not.  Sweeping removes stale records of
    sources and files and touches nothing else. -/

namespace Regen

open Number Time

/-- Whole hours from `t` to `now`, towards zero, computed through binary64 seconds. -/
def ageHours (t now : Moment) : Except Fault Int := do
  let micros ← now.microsSince t
  ((Binary64.ofRatio (micros < 0) micros.natAbs 1000000).divNat 3600).truncate

/-- Is a record of time `t` older than the greatest age allowed? -/
def isStale (t : Moment) (maxAge : Int) (now : Moment) : Except Fault Bool :=
  (ageHours t now).map fun age => decide (maxAge < age)

/-! ## Reports -/

/-- A source whose record is stale. -/
structure StaleSource where
  name : String
  url : String
  ref : String
  fetchedAt : Moment
  age : Int
  deriving Repr

/-- A file whose record is stale. -/
structure StaleFile where
  path : String
  size : Int
  modifiedAt : Moment
  age : Int
  deriving Repr

/-- What a sweep removes. -/
structure SweepReport where
  maxAge : Int
  sources : List StaleSource
  files : List StaleFile
  deriving Repr

/-- The recorded size of all files that a sweep removes. -/
def SweepReport.totalSize (r : SweepReport) : Int := (r.files.map (·.size)).foldr (· + ·) 0

def SweepReport.isEmpty (r : SweepReport) : Bool := r.sources.isEmpty && r.files.isEmpty

/-- The record of a source as it is reported, if it is stale. -/
def staleSource? (maxAge : Int) (now : Moment) (e : String × SourceRecord) :
    Except Fault (Option StaleSource) := do
  let age ← ageHours e.2.fetchedAt now
  pure (if maxAge < age then some ⟨e.1, e.2.url, e.2.ref, e.2.fetchedAt, age⟩ else none)

/-- The record of a file as it is reported, if it is stale. -/
def staleFile? (maxAge : Int) (now : Moment) (e : String × FileRecord) :
    Except Fault (Option StaleFile) := do
  let age ← ageHours e.2.modifiedAt now
  pure (if maxAge < age then some ⟨e.1, e.2.size, e.2.modifiedAt, age⟩ else none)

namespace Lockfile

/-- The stale records, in the order of their names. -/
def collectStale (l : Lockfile) (maxAge : Int) (now : Moment) : Except Fault SweepReport := do
  let sources ← l.sources.sorted.mapM (staleSource? maxAge now)
  let files ← l.files.sorted.mapM (staleFile? maxAge now)
  pure ⟨maxAge, sources.filterMap id, files.filterMap id⟩

/-- The entries of a ledger whose time is not stale. -/
def keepFresh {α : Type} (time : α → Moment) (maxAge : Int) (now : Moment) (l : Ledger α) :
    Except Fault (Ledger α) :=
  l.filterM fun e => (isStale (time e.2) maxAge now).map (!·)

/-- Remove the stale records, and say whether there were any. -/
def sweep (l : Lockfile) (maxAge : Int) (now : Moment) : Except Fault (Lockfile × Bool) := do
  let sources ← keepFresh SourceRecord.fetchedAt maxAge now l.sources
  let files ← keepFresh FileRecord.modifiedAt maxAge now l.files
  let removed := decide (sources.length < l.sources.length) ||
    decide (files.length < l.files.length)
  pure ({ l with sources, files }, removed)

end Lockfile

end Regen
