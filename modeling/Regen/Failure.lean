import Regen.Console.Action.Parameters
import Regen.Disk.Disk
import Regen.Fault

/-! # Failures

    Why an operation on settings, lockfiles or sources fails.  A failure says the cause;
    `Failure.message` gives its wording. -/

namespace Regen

/-! ## Causes -/

/-- Why settings are not accepted. -/
inductive SettingsFault where
  /-- A source without a URL. -/
  | noUrl (source : String)
  | scheme (source scheme : String)
  /-- A URL that holds a password, or a user name where one authorises. -/
  | credentials (source : String)
  | sourceName (name : String)
  | duplicateSource (name : String)
  | sourceKind (source kind : String)
  | selfDependency (source : String)
  | unknownDependency (source wanted : String)
  /-- The sources are not a list. -/
  | sourcesShape
  /-- A section that only a project may set, in the settings for all projects. -/
  | projectSection (file section_ : String)
  | notYaml (file : String)
  | notMapping (file : String)
  | noFile (file : String)
  /-- The variable for the greatest age holds no integer. -/
  | ageVariable (value : String)
  deriving DecidableEq, Repr

/-- What is wrong with a lockfile on the disk. -/
inductive Corruption where
  | notYaml
  /-- The document is no lockfile. -/
  | document (fault : Fault)
  /-- The revision cannot be read. -/
  | revision
  deriving DecidableEq, Repr

/-- Why the fingerprint of a source is not known. -/
inductive FingerprintFault where
  | noGit
  /-- Git refused; `stderr` is what it said, without credentials. -/
  | git (command stderr : String)
  | noRepository (path : String)
  | unknownRef (ref url : String)
  | empty (source : String)
  /-- The fault of a source, named. -/
  | ofSource (source : String) (cause : FingerprintFault)
  deriving DecidableEq, Repr

/-- What is wrong with markup. -/
inductive MarkupFault where
  /-- A closing tag at `position` closes nothing. -/
  | closingTag (tag : String) (position : Nat)
  | parameters (cause : Console.Action.ParameterFault)
  deriving DecidableEq, Repr

/-- Why an operation fails. -/
inductive Failure where
  | settings (cause : SettingsFault)
  /-- There is no lockfile. -/
  | absent (path : String)
  | corrupt (path : String) (cause : Corruption)
  /-- The lockfile on the disk is not the one that was read. -/
  | conflict (path : String) (expected found : Int)
  /-- Sources need each other in a circle through `source`. -/
  | cycle (source : String)
  | fingerprint (cause : FingerprintFault)
  | disk (fault : DiskFault)
  | value (fault : Fault)
  /-- A document that is no YAML, where nobody explains it further. -/
  | notYaml
  /-- Links that lead to each other in a circle. -/
  | linkCircle (path : String)
  | markup (cause : MarkupFault)
  deriving DecidableEq, Repr

/-! ## Wording -/

/-- The name of a project's settings file. -/
def settingsName : String := "gensonnet.yaml"

/-- The wording for a document that is no YAML. -/
def yamlMessage : String := "<yaml error>"

/-- The kinds of sources. -/
def sourceKinds : List String := ["crd", "go_ast", "openapi"]

def SettingsFault.message : SettingsFault → String
  | .noUrl source => s!"Source '{source}' has no git.url."
  | .scheme source name =>
    s!"Source '{source}' uses unsupported URL scheme '{name}'.\n" ++
      "  Allowed: https://, http://, ssh://, file://, git@, or a local path."
  | .credentials source =>
    s!"Source '{source}' embeds credentials in git.url.\n" ++
      "  Remove them and configure a git credential helper instead."
  | .sourceName name =>
    s!"Invalid source name '{name}'. Use letters, digits, '.', '_' or '-' (e.g. my-crds)."
  | .duplicateSource name => s!"Duplicate source name '{name}'."
  | .sourceKind source kind =>
    s!"Source '{source}' has unknown type '{kind}'. Expected one of: " ++
      String.intercalate ", " sourceKinds ++ "."
  | .selfDependency source => s!"Source '{source}' cannot depend on itself."
  | .unknownDependency source wanted =>
    s!"Source '{source}' depends on unknown source '{wanted}'."
  | .sourcesShape => "'sources' must be a list."
  | .projectSection file section_ =>
    s!"Global config '{file}' may not set '{section_}'.\n  Move it to the project's {settingsName}."
  | .notYaml file => s!"Config file '{file}' is not valid YAML: {yamlMessage}"
  | .notMapping file => s!"Config file '{file}' must contain a mapping at the top level."
  | .noFile file => s!"Config file not found: '{file}'."
  | .ageVariable value => s!"GENSONNET_MAX_AGE_HOURS must be an integer, got '{value}'."

def Corruption.message : Corruption → String
  | .notYaml => s!"invalid YAML: {yamlMessage}"
  | .document fault => fault.message
  | .revision => "cannot read current revision"

def FingerprintFault.message : FingerprintFault → String
  | .noGit => "git executable not found on PATH"
  | .git command stderr => s!"git {command} failed: {stderr}"
  | .noRepository path => s!"Repository path does not exist: {path}"
  | .unknownRef ref url => s!"ref '{ref}' not found in {url}"
  | .empty source => s!"empty fingerprint for source '{source}'"
  | .ofSource source cause => s!"source '{source}': {cause.message}"

def MarkupFault.message : MarkupFault → String
  | .closingTag "[/]" position => s!"closing tag '[/]' at position {position} has nothing to close"
  | .closingTag tag position =>
    s!"closing tag '{tag}' at position {position} doesn't match any open tag"
  | .parameters cause => cause.message

def Failure.message : Failure → String
  | .settings cause => cause.message
  | .absent path => s!"Lockfile does not exist: {path}"
  | .corrupt path cause => s!"Lockfile '{path}' is corrupt or incompatible: {cause.message}"
  | .conflict path expected found =>
    s!"Lockfile '{path}' changed on disk (revision {found}, expected {expected})"
  | .cycle source => s!"Circular dependency detected involving '{source}'"
  | .fingerprint cause => cause.message
  | .disk fault => fault.message
  | .value fault => fault.message
  | .notYaml => yamlMessage
  | .linkCircle path => s!"Symlink loop from {Text.quoted path}"
  | .markup cause => cause.message

end Regen
