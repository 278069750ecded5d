import Regen.Failure
import Regen.Settings.Basic
import Regen.Value.Convert

/-! # Settings from a document

    Every section may be left out, and so may everything in it.  A scalar of another type is
    converted; a single text stands for a list of one. -/

namespace Regen

/-- A list of texts: null has none, a text is the only one, and other elements are shown. -/
def textList? (v : Value) : Except Fault (List String) :=
  match v with
  | .null => .ok []
  | .text s => .ok [s]
  | v => do (← v.elements).mapM Value.toText

/-- The texts under a key. -/
def textsUnder (v : Value) (key : String) : Except Fault (List String) := do
  textList? ((← v.member? key).getD .null)

/-- The text under a key, or a default if the key is left out. -/
def textUnder (v : Value) (key default : String) : Except Fault String := do
  ((← v.member? key).getD (.text default)).toText

/-- A section that stands for an empty one when it holds nothing. -/
def sectionOf (v : Option Value) : Value := Value.orElse v (.map [] none)

/-- A configured source. -/
def Source.ofDocument (v : Value) : Except Fault Source := do
  let git := sectionOf (← v.member? "git")
  let kind ← textUnder v "type" ""
  let name ← textUnder v "name" ""
  let url ← textUnder git "url" ""
  let ref ← (Value.orElse (← git.member? "ref") (.text "main")).toText
  let filters ← textsUnder v "filters"
  let includePatterns ← textsUnder v "include_patterns"
  let excludePatterns ← textsUnder v "exclude_patterns"
  let outputPath ← textUnder v "output_path" ""
  let dependsOn ← textsUnder v "depends_on"
  pure { kind, name, git := ⟨url, ref⟩, filters, includePatterns, excludePatterns, outputPath,
         dependsOn }

/-- A source without an output folder gets one of its name below the base folder. -/
def Source.withOutput (s : Source) (basePath : String) : Source :=
  if s.outputPath == "" then
    { s with outputPath := (Path.ofText basePath / Path.ofText s.name).text }
  else s

/-- A fault of a value as a failure. -/
def valueFailure {α : Type} (r : Except Fault α) : Except Failure α := r.mapError .value

/-- The sources of a settings document. -/
def sourcesOf (v : Value) : Except Failure (List Source) :=
  match Value.orElse (some v) (.list [] none) with
  | .list xs _ => valueFailure (xs.mapM Source.ofDocument)
  | _ => .error (.settings .sourcesShape)

namespace Settings

/-! ## The sections of a document -/

def readVersion (v : Value) (s : Settings) : Except Failure Settings := do
  let version ← valueFailure v.toText
  pure { s with version }

def readOutput (v : Value) (s : Settings) : Except Failure Settings := do
  let basePath ← valueFailure (textUnder (sectionOf (some v)) "base_path" s.basePath)
  pure { s with basePath }

def readSources (v : Value) (s : Settings) : Except Failure Settings := do
  let sources ← sourcesOf v
  pure { s with sources := sources.map (·.withOutput s.basePath) }

def readGeneration (v : Value) (s : Settings) : Except Failure Settings := do
  let g := sectionOf (some v)
  let failFast := ((← valueFailure (g.member? "fail_fast")).getD (.bool s.failFast)).isTruthy
  let workers := (← valueFailure (g.member? "max_workers")).getD (.int s.maxWorkers)
  let maxWorkers ← valueFailure workers.toInt
  pure { s with failFast, maxWorkers }

def readLockfile (v : Value) (s : Settings) : Except Failure Settings := do
  let f := sectionOf (some v)
  let lockfilePath ← valueFailure (textUnder f "path" s.lockfilePath)
  let age := (← valueFailure (f.member? "max_age_hours")).getD (.int s.maxAgeHours)
  let maxAgeHours ← valueFailure age.toInt
  pure { s with lockfilePath, maxAgeHours }

/-- Let a section change the settings, if it is there. -/
def onSection (es : Entries) (name : String)
    (read : Value → Settings → Except Failure Settings) (s : Settings) :
    Except Failure Settings :=
  match es.get? name with
  | some v => read v s
  | none => .ok s

/-- The settings of a document. -/
def ofDocument (es : Entries) : Except Failure Settings := do
  let s ← onSection es "version" readVersion default
  let s ← onSection es "output" readOutput s
  let s ← onSection es "sources" readSources s
  let s ← onSection es "generation" readGeneration s
  onSection es "lockfile" readLockfile s

end Settings

end Regen
