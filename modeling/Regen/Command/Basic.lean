import Regen.Console.Boxes
import Regen.Console.Markup
import Regen.Host

/-! # Commands

    A command runs on a host, prints to the console, may ask the user, and stops early with an
    exit code or with a failure that it does not explain.  What was done before stays done. -/

namespace Regen

/-- Why a command stops early. -/
inductive Stop where
  | exit (code : Nat)
  /-- The user was asked and has nothing more to say. -/
  | endOfInput
  | failure (cause : Failure)
  deriving DecidableEq, Repr

/-- Something that a command does. -/
abbrev Command := ExceptT Stop (StateM Host)

namespace Command

/-- A run within a command; its failure stops the command. -/
def ofRun {α : Type} (r : Run α) : Command α := ExceptT.adapt Stop.failure r

/-- The outcome of a run within a command. -/
def attempt {α : Type} (r : Run α) : Command (Except Failure α) := ofRun r.outcome

/-- What a value gives within a command. -/
def ofValue {α : Type} (r : Except Fault α) : Command α := ofRun (Run.ofValue r)

/-- An integer as it is printed. -/
def intText (n : Int) : Command String := ofValue (Number.intText n)

def ofExcept {α : Type} (r : Except Failure α) : Command α := ofRun (Run.ofExcept r)

def exit {α : Type} (code : Nat) : Command α := throw (.exit code)

/-! ## Printing -/

/-- Print text as it is. -/
def echo (s : String) : Command Unit := modify fun h => { h with printed := h.printed ++ s }

/-- Print lines. -/
def printLines (ls : List (List Char)) : Command Unit :=
  echo (String.join (ls.map fun cs => String.ofList (cs ++ ['\n'])))

/-- How many columns the console has. -/
def consoleWidth : Nat := 10000

/-- Text with markup as it is printed. -/
def render (s : String) : Command Markup.Rendered := ofExcept (Markup.render s)

/-- Stop at the first style that cannot be shown. -/
def showStyles (texts : List Markup.Rendered) : Command Unit :=
  match texts.findSome? Markup.Rendered.fault? with
  | some f => throw (.failure (.value f))
  | none => pure ()

/-- Print text with markup. -/
def say (s : String) : Command Unit := do
  let r ← render s
  showStyles [r]
  printLines ((Console.printedLines consoleWidth .fold r.text).map
    (Console.shorten consoleWidth .fold))

/-- Print a panel around lines with markup. -/
def sayPanel (title : String) (ls : List String) : Command Unit := do
  let r ← render (String.intercalate "\n" ls)
  showStyles [r]
  printLines (Console.panel title r.text)

/-- A column of a table, its cells with markup. -/
structure MarkedColumn where
  heading : String
  side : Console.Side
  cells : List String

/-- Columns from cells with markup.  Styles are shown row by row. -/
def renderColumns (columns : List MarkedColumn) : Command (List Console.Column) := do
  let rendered ← columns.mapM fun c => c.cells.mapM render
  let height := (rendered.map List.length).foldl max 0
  showStyles ((List.range height).flatMap fun i => rendered.filterMap (·[i]?))
  pure ((columns.zip rendered).map fun (c, cells) => ⟨c.heading, c.side, cells.map (·.text)⟩)

/-- Print a table from cells with markup. -/
def sayTable (title : Option String) (columns : List MarkedColumn) : Command Unit := do
  printLines (Console.table title (← renderColumns columns))

/-- Say something and stop. -/
def sayAndExit {α : Type} (s : String) (code : Nat) : Command α := do
  say s
  exit code

/-! ## Asking -/

/-- Take a line from what the user still has to say. -/
def readLine : Command (Option (List Char)) := do
  match (← get).input with
  | [] => pure none
  | cs =>
    modify fun h => { h with input := (cs.dropWhile (· != '\n')).drop 1 }
    pure (some (cs.takeWhile (· != '\n')))

/-- The answer that a line gives; an empty one is no. -/
def answer? (line : List Char) : Option Bool :=
  match String.ofList (Text.trimBoth Text.isBlank (Text.lower line)) with
  | "y" | "yes" => some true
  | "n" | "no" | "" => some false
  | _ => none

/-- Ask until there is an answer.  `fuel` bounds the number of questions. -/
def confirmFrom (question : String) : Nat → Command Bool
  | 0 => throw .endOfInput
  | fuel + 1 => do
    echo (question ++ " [y/N]: ")
    match ← readLine with
    | none => throw .endOfInput
    | some line =>
      echo (String.ofList line ++ "\n")
      match answer? line with
      | some yes => pure yes
      | none =>
        echo "Error: invalid input\n"
        confirmFrom question fuel

/-- Ask the user a question; without an answer the command stops. -/
def confirm (question : String) : Command Bool := do
  confirmFrom question ((← get).input.length + 1)

end Command

end Regen
