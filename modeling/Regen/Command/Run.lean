import Regen.Command.Arguments
import Regen.Command.Cleanup
import Regen.Command.Init
import Regen.Command.Lock
import Regen.Command.Plan
import Regen.Command.Status

/-! # The command line

    From arguments to a command and its exit code.  What is not understood ends with code 2, a
    failure that no command explains with code 1. -/

namespace Regen.Command

/-! ## Invocations -/

/-- A command with its options. -/
inductive Invocation where
  | version
  | init (folder : Path)
  | status (config : Path) (lockfile fingerprints : Option Path) (detailed : Bool)
  | plan (config : Path) (lockfile fingerprints : Option Path) (force : Bool)
  | cleanup (config : Path) (lockfile : Option Path) (maxAge : Option Int) (dryRun yes : Bool)
  | lockStatus (config : Path) (lockfile : Option Path)
  | lockUpdate (config : Path) (lockfile fingerprints : Option Path)
  deriving Repr

/-- The commands, and the group of those for the lockfile. -/
inductive CommandName where
  | version
  | init
  | status
  | plan
  | cleanup
  | lock
  | lockStatus
  | lockUpdate
  deriving DecidableEq, Repr

namespace CommandName

/-- The options of a command. -/
def options : CommandName → List OptionName
  | version | init | lock => [.help]
  | status => [.config, .lockfile, .fingerprints, .detailed, .help]
  | plan => [.config, .lockfile, .fingerprints, .force, .help]
  | cleanup => [.config, .lockfile, .maxAge, .dryRun, .yes, .help]
  | lockStatus => [.config, .lockfile, .help]
  | lockUpdate => [.config, .lockfile, .fingerprints, .help]

/-- How many operands a command takes at most. -/
def operandLimit : CommandName → Nat
  | init => 1
  | _ => 0

/-- The command of a name. -/
def ofText? : String → Option CommandName
  | "version" => some version
  | "init" => some init
  | "status" => some status
  | "plan" => some plan
  | "cleanup" => some cleanup
  | "lock" => some lock
  | _ => none

/-- The command of a name in the group for the lockfile. -/
def inLock? : String → Option CommandName
  | "status" => some lockStatus
  | "update" => some lockUpdate
  | _ => none

end CommandName

/-- The invocation of a command with checked arguments. -/
def Invocation.ofArguments (name : CommandName) (a : Arguments) : Invocation :=
  let config := (a.path? .config).getD (Path.ofText settingsName)
  let lockfile := a.path? .lockfile
  let fingerprints := a.path? .fingerprints
  match name with
  | .version | .lock => .version
  | .init => .init (Path.ofText (a.operands.head?.getD "."))
  | .status => .status config lockfile fingerprints (a.has .detailed)
  | .plan => .plan config lockfile fingerprints (a.has .force)
  | .cleanup =>
    let maxAge := (a.value? .maxAge).bind fun v => (Arguments.ageOf v).toOption
    .cleanup config lockfile maxAge (a.has .dryRun) (a.has .yes)
  | .lockStatus => .lockStatus config lockfile
  | .lockUpdate => .lockUpdate config lockfile fingerprints

/-- The invocation of a command from the arguments behind its name. -/
def invocationOf (name : CommandName) (arguments : List String) :
    Except ArgumentStop Invocation := do
  let a ← Arguments.parse name.options true arguments
  a.check name.operandLimit
  pure (.ofArguments name a)

/-- Does a name that is no command look like an option? -/
def looksLikeOption (name : String) : Bool :=
  match name.toList with
  | c :: _ => !c.isAlphanum && c.toNat < 0x80
  | [] => false

/-- The command that a group of options leads to.  A name that looks like an option has the
    arguments behind it taken for options before it is refused. -/
def chooseCommand (known : List OptionName) (find : String → Option CommandName)
    (arguments : List String) : Except ArgumentStop (CommandName × List String) := do
  let a ← Arguments.parse known false arguments
  ({ a with operands := [] } : Arguments).check 0
  match a.operands with
  | [] => .error .usage
  | name :: rest =>
    match find name with
    | some c => pure (c, rest)
    | none =>
      if looksLikeOption name then
        let more ← Arguments.parse known false rest
        ({ more with operands := [] } : Arguments).check 0
      .error .usage

/-- The invocation that arguments stand for. -/
def invocation (arguments : List String) : Except ArgumentStop Invocation := do
  let (name, rest) ← chooseCommand [.version, .verbose, .help] CommandName.ofText? arguments
  if name == .lock then
    let (name, rest) ← chooseCommand CommandName.lock.options CommandName.inLock? rest
    invocationOf name rest
  else invocationOf name rest

/-! ## Running -/

/-- Print the version. -/
def showVersion : Command Unit := do
  let h ← get
  echo s!"gensonnet {h.toolVersion}\n"

/-- Do what an invocation says. -/
def perform : Invocation → Command Unit
  | .version => showVersion
  | .init folder => init folder
  | .status config lockfile fingerprints detailed => status config lockfile fingerprints detailed
  | .plan config lockfile fingerprints force => plan config lockfile fingerprints force
  | .cleanup config lockfile maxAge dryRun yes => cleanup config lockfile maxAge dryRun yes
  | .lockStatus config lockfile => lockStatus config lockfile
  | .lockUpdate config lockfile fingerprints => lockUpdate config lockfile fingerprints

/-- Run the tool with arguments. -/
def tool (arguments : List String) : Command Unit :=
  match invocation arguments with
  | .ok i => perform i
  | .error .showVersion => showVersion
  | .error .showHelp => exit 0
  | .error .usage => exit 2
  | .error (.fault f) => throw (Stop.failure (.value f))

/-- How a run ended: its exit code, and the failure that nobody explained. -/
structure Ending where
  exitCode : Nat
  failure : Option Failure
  /-- Did the user have nothing more to say when a question came? -/
  lacksInput : Bool
  deriving Repr

/-- The ending of a command. -/
def ending : Except Stop Unit → Ending
  | .ok () => ⟨0, none, false⟩
  | .error (.exit code) => ⟨code, none, false⟩
  | .error .endOfInput => ⟨1, none, true⟩
  | .error (.failure f) => ⟨1, some f, false⟩

/-- Run the tool with arguments on a host whose user will say `input`. -/
def runTool (arguments : List String) (input : List Char) (h : Host) : Ending × Host :=
  let start := { h with input := Text.unifyNewlines input, calls := [], printed := "" }
  let (result, h) := (tool arguments).run.run start
  (ending result, h)

end Regen.Command
