import Regen.Yaml.Cursor

/-! # Tokens

    The tokens of a document.  The nesting of blocks, which the text shows by indentation, is
    explicit in the tokens. -/

namespace Regen.Yaml

/-- What a directive line says. -/
inductive Directive where
  /-- The version of the format. -/
  | version (major minor : Nat)
  /-- An abbreviation for the front part of tags. -/
  | handle (handle uri : List Char)
  /-- Anything else; it has no effect. -/
  | reserved
  deriving DecidableEq, Repr

inductive Token where
  | directive (d : Directive)
  | documentStart
  | documentEnd
  | blockSequenceStart
  | blockMappingStart
  | blockEnd
  | flowSequenceStart
  | flowSequenceEnd
  | flowMappingStart
  | flowMappingEnd
  | blockEntry
  | flowEntry
  | key
  | value
  | alias (name : List Char)
  | anchor (name : List Char)
  /-- A tag; without a handle the suffix is the whole tag. -/
  | tag (handle : Option (List Char)) (suffix : List Char)
  | scalar (plain : Bool) (text : List Char)
  deriving DecidableEq, Repr

/-- The tokens of a text.  A fault inside a token ends them early, and whoever asks for a token
    behind the last one gets the fault. -/
structure TokenRun where
  tokens : List Token
  fault : Option Fault
  deriving DecidableEq, Repr

end Regen.Yaml
