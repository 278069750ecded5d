import Regen.Disk.Path
import Regen.Ledger
import Regen.Value.Basic

/-! # Settings

    What a project sets: its sources, where output goes, how generation behaves, and where the
    lockfile is and how long its records are kept. -/

namespace Regen

/-- Where a source is: a repository and what to take of it. -/
structure GitPlace where
  url : String
  ref : String
  deriving Repr, DecidableEq

/-- A configured source. -/
structure Source where
  kind : String
  name : String
  git : GitPlace
  filters : List String
  includePatterns : List String
  excludePatterns : List String
  /-- The folder that the source's files are generated into. -/
  outputPath : String
  /-- The sources whose change makes this one be generated again. -/
  dependsOn : List String
  deriving Repr, DecidableEq

/-- The expressions that narrow down what is taken from a source. -/
def Source.scope (s : Source) : List String :=
  if s.kind == "crd" then s.filters else s.includePatterns

/-- What a project sets. -/
structure Settings where
  version : String
  sources : List Source
  basePath : String
  failFast : Bool
  maxWorkers : Int
  lockfilePath : String
  /-- The greatest age of a record in hours. -/
  maxAgeHours : Int
  deriving Repr, DecidableEq

namespace Settings

/-- What holds where nothing is set. -/
def default : Settings := ⟨"1.0", [], "generated", false, 4, "gensonnet.lock", 168⟩

/-- The source of a name. -/
def source? (s : Settings) (name : String) : Option Source := s.sources.find? (·.name == name)

/-- The dependencies of the sources that have any. -/
def dependencies (s : Settings) : Ledger (List String) :=
  Ledger.ofEntries ((s.sources.filter fun x => !x.dependsOn.isEmpty).map fun x =>
    (x.name, x.dependsOn))

def sourceNames (s : Settings) : List String := s.sources.map (·.name)

/-- The settings file of a new project. -/
def template : String :=
  String.intercalate "\n" [
    "# gensonnet project configuration.",
    "# Private repositories: configure a git credential helper and",
    "# never put tokens in git.url.",
    "",
    "version: \"1.0\"",
    "",
    "sources: []",
    "#  - type: crd",
    "#    name: my-crds",
    "#    git:",
    "#      url: https://github.com/example/repo.git",
    "#      ref: main",
    "#    filters:",
    "#      - example.com/v1",
    "#    output_path: generated/my-crds",
    "#    depends_on: []",
    "",
    "output:",
    "  base_path: generated",
    "",
    "generation:",
    "  fail_fast: false",
    "",
    "lockfile:",
    "  path: gensonnet.lock",
    "  max_age_hours: 168",
    ""]

end Settings

/-! ## Layers -/

mutual

/-- Override entries one after the other. -/
def mergeEntries (base : Entries) : List (Value × Value) → Entries
  | [] => base
  | (k, v) :: rest => mergeEntries (base.insert k (mergeValue (base.find? k) v)) rest

/-- What a key holds after it was overridden: where both hold mappings these are merged, and else
    the new value replaces the old one. -/
def mergeValue (old : Option Value) : Value → Value
  | .map es label =>
    match old with
    | some (.map base _) => .map (mergeEntries base es) none
    | _ => .map es label
  | v => v

end

end Regen
