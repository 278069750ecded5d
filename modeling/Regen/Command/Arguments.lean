import Regen.Disk.Disk
import Regen.Number.Read

/-! # Arguments

    The arguments of a command line: options by their long or short name, with values behind
    them, and operands.  Options and operands may come in any order, except that an option in
    front of a command belongs to the tool; two dashes end the options. -/

namespace Regen

/-- The options. -/
inductive OptionName where
  | version
  | verbose
  | help
  | config
  | lockfile
  | fingerprints
  | maxAge
  | dryRun
  | yes
  | force
  | detailed
  deriving DecidableEq, Repr

namespace OptionName

/-- How an option is spelled. -/
def spellings : OptionName → List String
  | version => ["--version"]
  | verbose => ["--verbose", "-v"]
  | help => ["--help"]
  | config => ["--config", "-c"]
  | lockfile => ["--lockfile", "-l"]
  | fingerprints => ["--fingerprints"]
  | maxAge => ["--max-age"]
  | dryRun => ["--dry-run"]
  | yes => ["--yes", "-y"]
  | force => ["--force", "-f"]
  | detailed => ["--detailed", "-d"]

/-- Does a value follow the option? -/
def takesValue : OptionName → Bool
  | config | lockfile | fingerprints | maxAge => true
  | _ => false

end OptionName

/-- An option as it was given, with its value if it takes one. -/
structure GivenOption where
  name : OptionName
  value : String
  deriving DecidableEq, Repr

/-- Arguments after they were told apart. -/
structure Arguments where
  options : List GivenOption
  operands : List String
  deriving DecidableEq, Repr

/-- Why arguments do not lead to a run. -/
inductive ArgumentStop where
  /-- They are not understood. -/
  | usage
  | showVersion
  | showHelp
  /-- A value is no value of its kind. -/
  | fault (fault : Fault)
  deriving DecidableEq, Repr

namespace Arguments

/-! ## Telling options from operands -/

/-- The option of a spelling, among those that a command has. -/
def option? (known : List OptionName) (spelling : String) : Option OptionName :=
  known.find? fun o => o.spellings.contains spelling

/-- The value of an option: given with it, or the next argument. -/
def valueAndRest (given : Option String) (rest : List String) :
    Except ArgumentStop (String × List String) :=
  match given, rest with
  | some v, rest => .ok (v, rest)
  | none, v :: rest => .ok (v, rest)
  | none, [] => .error .usage

/-- The options of a cluster of letters behind one dash, and what is left of the arguments.  An
    option that takes a value takes the letters behind it. -/
def cluster (known : List OptionName) (rest : List String) :
    List Char → Except ArgumentStop (List GivenOption × List String)
  | [] => .ok ([], rest)
  | c :: letters =>
    match option? known (String.ofList ['-', c]) with
    | none => .error .usage
    | some o =>
      if o.takesValue then do
        let given := if letters.isEmpty then none else some (String.ofList letters)
        let (value, rest) ← valueAndRest given rest
        pure ([⟨o, value⟩], rest)
      else do
        let (more, rest) ← cluster known rest letters
        pure (⟨o, ""⟩ :: more, rest)

/-- A long option with a value behind an equals sign. -/
def cutAtEquals (argument : String) : String × Option String :=
  let cs := argument.toList
  (String.ofList (cs.takeWhile (· != '=')),
    if cs.contains '=' then some (String.ofList ((cs.dropWhile (· != '=')).drop 1)) else none)

/-- The options of one argument that starts with a dash, and what is left of the arguments. -/
def optionsOf (known : List OptionName) (argument : String) (rest : List String) :
    Except ArgumentStop (List GivenOption × List String) :=
  let (spelling, given) := cutAtEquals argument
  let long := if spelling.startsWith "--" then option? known spelling else none
  match long with
  | some o =>
    if o.takesValue then do
      let (value, rest) ← valueAndRest given rest
      pure ([⟨o, value⟩], rest)
    else if given.isSome then .error .usage
    else .ok ([⟨o, ""⟩], rest)
  | none =>
    if argument.startsWith "--" then .error .usage
    else cluster known rest (argument.toList.drop 1)

/-- Is the argument an option? -/
def isOption (argument : String) : Bool := argument.startsWith "-" && 1 < argument.length

/-- Tell options from operands.  If options may not follow operands, everything from the first
    operand on is one.  `fuel` bounds the number of arguments. -/
def parseFrom (known : List OptionName) (mixed : Bool) :
    Nat → List String → Except ArgumentStop Arguments
  | 0, operands => .ok ⟨[], operands⟩
  | _, [] => .ok ⟨[], []⟩
  | fuel + 1, argument :: rest =>
    if argument == "--" then .ok ⟨[], rest⟩
    else if isOption argument then do
      let (options, rest) ← optionsOf known argument rest
      let a ← parseFrom known mixed fuel rest
      pure { a with options := options ++ a.options }
    else if mixed then do
      let a ← parseFrom known mixed fuel rest
      pure { a with operands := argument :: a.operands }
    else .ok ⟨[], argument :: rest⟩

/-- Tell options from operands. -/
def parse (known : List OptionName) (mixed : Bool) (arguments : List String) :
    Except ArgumentStop Arguments :=
  parseFrom known mixed (arguments.length + 1) arguments

/-! ## Values -/

/-- The value of an option; if it was given more than once the last one counts. -/
def value? (a : Arguments) (name : OptionName) : Option String :=
  (a.options.reverse.find? (·.name == name)).map (·.value)

def has (a : Arguments) (name : OptionName) : Bool := (a.value? name).isSome

/-- A path given as a value. -/
def pathOf (text : String) : Except ArgumentStop Path :=
  if text.toList.contains '\x00' then .error (.fault .nullInPath) else .ok (Path.ofText text)

/-- An age given as a value: an integer that is not negative. -/
def ageOf (text : String) : Except ArgumentStop Int :=
  match Number.readInt 10 text with
  | .ok n => if n < 0 then .error .usage else .ok n
  | .error _ => .error .usage

/-- Check the value of an option. -/
def checkOption (a : Arguments) (o : GivenOption) : Except ArgumentStop Unit :=
  let value := (a.value? o.name).getD ""
  match o.name with
  | .config | .lockfile | .fingerprints => (pathOf value).map fun _ => ()
  | .maxAge => (ageOf value).map fun _ => ()
  | _ => .ok ()

/-- Check options in the order in which they were given; version and help come before all
    others.  At most `limit` operands may be given, which are paths. -/
def check (a : Arguments) (limit : Nat) : Except ArgumentStop Unit := do
  match a.options.find? fun o => o.name == .version || o.name == .help with
  | some o => .error (if o.name == .version then .showVersion else .showHelp)
  | none => pure ()
  a.options.forM a.checkOption
  (a.operands.take limit).forM fun p => (pathOf p).map fun _ => ()
  if limit < a.operands.length then .error .usage

/-- The path of an option. -/
def path? (a : Arguments) (name : OptionName) : Option Path := (a.value? name).map Path.ofText

end Arguments

end Regen
