import Regen.Console.Action.Reader
import Regen.Text.Blank

/-! # Parameters of actions

    An action is named, with its parameters in parentheses behind the name, or it has no name and
    its parameters are one literal.  A name alone has no parameters. -/

namespace Regen.Console.Action

open Text

/-- What is wrong with the parameters of an action. -/
inductive ParameterFault where
  /-- `parsed` is the part of the given text that is no expression. -/
  | form (parsed given : String) (cause : SyntaxFault)
  /-- The given text is no literal. -/
  | value (given : String) (cause : Phrase.ValueFault)
  | null (given : String)
  deriving DecidableEq, Repr

def ParameterFault.message : ParameterFault → String
  | .form parsed given cause =>
    s!"error parsing {quoted parsed} in {quoted given}; {cause.message}"
  | .value given cause => s!"error parsing {quoted given}; {cause.message}"
  | .null given => s!"error parsing {quoted given}; source code string cannot contain null bytes"

/-- The literal in the text of an action: what stands in parentheses behind its name, or the whole
    text if it is not made of a name and parentheses. -/
def literalOf (cs : List Char) : List Char :=
  let rest := cs.dropWhile fun c => isWordChar c || c == '.'
  if rest.isEmpty then "()".toList
  else if rest.head? == some '(' && rest.getLast? == some ')' && !rest.contains '\n' then rest
  else cs

/-- Check the parameters of an action. -/
def checkParameters (given : List Char) : Except ParameterFault Unit :=
  let literal := literalOf (trimBoth isBlank given)
  let shown := String.ofList given
  if literal.contains '\x00' then .error (.null shown)
  else match read (literal.dropWhile fun c => c == ' ' || c == '\t') with
    | .error cause => .error (.form (String.ofList literal) shown cause)
    | .ok phrase =>
      match phrase.check with
      | .error cause => .error (.value shown cause)
      | .ok _ => .ok ()

end Regen.Console.Action
