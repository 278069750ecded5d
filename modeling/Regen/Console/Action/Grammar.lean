import Regen.Console.Action.Fault
import Regen.Console.Action.Phrase

/-! # The grammar of parameters

    A rule is an ordered choice of productions, and a production a sequence of elements.  Some rules
    only explain a failure: they match known mistakes, and are left out when a text is read for the
    first time. -/

namespace Regen.Console.Action

/-- What a rule reads. -/
inductive Rule where
  | whole
  | expressions
  | expression
  | missingPart
  | printStatement
  | unexplained
  | yielded
  | starExpressions
  | starExpression
  | starItem
  | assignment
  | named
  | wrongEquals
  -- operators, those that bind less first
  | disjunction
  | conjunction
  | negation
  | comparison
  | comparisonTail
  | bitOr
  | bitXor
  | bitAnd
  | shift
  | sum
  | product
  | factor
  | power
  | awaited
  | primary
  | atom
  -- parentheses and braces
  | tuple
  | group
  | wrongGroup
  | generator
  | wrongLoop
  | dictionary
  | wrongEntries
  | wrongPair
  | entry
  | pair
  | set
  | dictionaryLoop
  | wrongDictionaryLoop
  | setLoop
  -- loops
  | loop
  | wrongLoopTarget
  | targets
  | target
  | memberTarget
  | targetAtom
  | targetPrimary
  -- calls
  | callArguments
  | wrongArguments
  | argumentList
  | argument
  | namedArguments
  | namedOrStarred
  | namedOrUnpacked
  | starred
  | starAlone
  | wrongName
  -- functions without a name
  | function
  | inputs
  | wrongInputs
  | slashInputs
  | slashDefaults
  | starInputs
  | wrongStarInputs
  | lastInput
  | wrongLastInput
  | plainInput
  | defaultInput
  | input
  | defaultValue
  | wrongDefault
  deriving DecidableEq, Hashable, Repr

namespace Rule

/-- Does the rule only explain a failure? -/
def explains : Rule → Bool
  | missingPart | printStatement | wrongEquals | wrongGroup | wrongLoop | wrongDictionaryLoop
  | wrongLoopTarget | wrongArguments | wrongName | wrongInputs
  | wrongStarInputs | wrongLastInput | wrongDefault => true
  | _ => false

/-- Does the rule start with itself?  Then what it reads grows from its other productions on. -/
def grows : Rule → Bool
  | bitOr | bitXor | bitAnd | shift | sum | product | primary | targetPrimary => true
  | _ => false

/-- Is what the rule reads at a place kept?  Where it is asked for again the same is given, although
    it may have been read without explaining. -/
def isKept : Rule → Bool
  | expression | starExpression | wrongEquals | disjunction | conjunction | negation | factor
  | awaited | target | memberTarget | callArguments => true
  | r => r.grows

end Rule

/-- An element of a production. -/
inductive Element where
  /-- One of these marks and reserved words. -/
  | mark (texts : List String)
  | name
  /-- A name that starts a statement in some places. -/
  | statementName
  | number
  /-- A quoted text. -/
  | text
  /-- Quoted texts in a row. -/
  | texts
  | lineEnd
  | ending
  | rule (r : Rule)
  | maybe (xs : List Element)
  /-- Any number of times. -/
  | repeated (xs : List Element)
  /-- At least once, with commas between. -/
  | listed (r : Rule)
  /-- What follows, without taking it. -/
  | ahead (xs : List Element)
  | notAhead (xs : List Element)
  /-- The last token stands in brackets. -/
  | bracketed
  /-- A rule that is read without explaining. -/
  | quietly (r : Rule)
  /-- Behind it no further production of the rule is tried. -/
  | cut
  deriving Repr

/-- What comes of a production that fits, from the phrases of its elements. -/
inductive Result where
  | phrase (f : List Phrase → Phrase)
  /-- A mistake that explains the failure.  If it is none after all, the rule does not fit. -/
  | mistake (f : List Phrase → Option SyntaxFault)

/-- A production of a rule. -/
structure Production where
  elements : List Element
  result : Result

namespace Production

/-- A production that reads the phrase of one of its elements. -/
def passes (xs : List Element) : Production := ⟨xs, .phrase fun ps => ps.headD .text⟩

def gives (xs : List Element) (f : List Phrase → Phrase) : Production := ⟨xs, .phrase f⟩

/-- A production whose phrase is of no further interest. -/
def isOther (xs : List Element) (kind : String) : Production :=
  ⟨xs, .phrase fun _ => .other kind⟩

def blames (xs : List Element) (f : SyntaxFault) : Production := ⟨xs, .mistake fun _ => some f⟩

/-- A mistake that depends on the first phrase. -/
def blamesFirst (xs : List Element) (f : Phrase → Option SyntaxFault) : Production :=
  ⟨xs, .mistake fun ps => ps.head?.bind f⟩

end Production

open Production

/-! ## Combining phrases -/

/-- Words that were statements once. -/
def isStatementWord : Phrase → Bool
  | .name n => n == "print" || n == "exec"
  | _ => false

def firstOr (f : Phrase → Phrase) (ps : List Phrase) : Phrase := f (ps.headD .text)

def sumOf : List Phrase → Phrase
  | [x, y] => .sum x y
  | _ => .other "expression"

/-- A comparison, by its first operand and the first one behind a mark. -/
def comparisonOf : List Phrase → Phrase
  | x :: .comparison _ isIn :: _ => .comparison x isIn
  | _ => .other "comparison"

/-- A call, from what is called and its arguments. -/
def callOf : List Phrase → Phrase
  | [.name n] => .call (n == "set")
  | _ => .call false

def entriesOf (ps : List Phrase) : List (Option Phrase × Phrase) :=
  ps.flatMap fun p => match p with
    | .dictionary es => es
    | _ => []

def pairOf : List Phrase → Phrase
  | [k, v] => .dictionary [(some k, v)]
  | _ => .dictionary []

def argumentsOf (ps : List Phrase) : Phrase :=
  ps.foldl (fun found p => match found, p with
    | .arguments n unpacks, .arguments m unpacksToo => .arguments (n + m) (unpacks || unpacksToo)
    | found, _ => found) (.arguments 0 false)

/-! ## The rules -/

/-- One of some operators between two rules. -/
def binary (r : Rule) (marks : List String) (s : Rule) : List Element :=
  [.rule r, .mark marks, .rule s]

def opens (bracket : String) : Element := .mark [bracket]

def comma : Element := .mark [","]

/-- The end of an input of a function. -/
def endsInput (xs : List Element) (f : List Element → Production) : List Production :=
  [f (xs ++ [comma]), f (xs ++ [.ahead [.mark [":"]]])]

/-- Behind the target of a member or a call there is more of it. -/
def moreTarget : List Element := [.mark ["(", "[", "."]]

namespace Rule

/-- Expressions and what stands around them. -/
def expressionProductions : Rule → List Production
  | whole => [passes [.rule expressions, .repeated [.lineEnd], .ending]]
  | expressions => [
      gives [.rule expression, comma, .rule expression, .repeated [comma, .rule expression],
        .maybe [comma]] .tuple,
      gives [.rule expression, comma] .tuple,
      passes [.rule expression]]
  | expression => [
      passes [.rule missingPart],
      passes [.rule printStatement],
      isOther [.rule disjunction, .mark ["if"], .rule disjunction, .mark ["else"],
        .rule expression] "conditional expression",
      passes [.rule disjunction],
      passes [.rule function]]
  | missingPart => [
      blamesFirst [.notAhead [.name, .text], .notAhead [.statementName], .rule disjunction,
        .rule unexplained, .bracketed]
        fun x => if isStatementWord x then none else some .comma,
      blames [.rule disjunction, .mark ["if"], .rule disjunction,
        .notAhead [.mark ["else", ":"]]] .elseMissing]
  | printStatement => [
      blamesFirst [.name, .notAhead [opens "("], .rule starExpressions] fun x => match x with
        | .name n => if isStatementWord x then some (.printCall n) else none
        | _ => none]
  | unexplained => [
      isOther [.quietly disjunction, .mark ["if"], .quietly disjunction, .mark ["else"],
        .quietly expression] "conditional expression",
      passes [.quietly disjunction],
      passes [.quietly function]]
  | yielded => [
      isOther [.mark ["yield"], .mark ["from"], .rule expression] "yield expression",
      isOther [.mark ["yield"], .maybe [.rule starExpressions]] "yield expression"]
  | starExpressions => [
      gives [.rule starExpression, comma, .rule starExpression,
        .repeated [comma, .rule starExpression], .maybe [comma]] .tuple,
      gives [.rule starExpression, comma] .tuple,
      passes [.rule starExpression]]
  | starExpression => [
      gives [.mark ["*"], .rule bitOr] (firstOr .starred),
      passes [.rule expression]]
  | starItem => [
      gives [.mark ["*"], .rule bitOr] (firstOr .starred),
      passes [.rule named]]
  | assignment => [isOther [.name, .mark [":="], .cut, .rule expression] "named expression"]
  | named => [
      passes [.rule assignment],
      passes [.rule wrongEquals],
      passes [.rule expression, .notAhead [.mark [":="]]]]
  | wrongEquals => [
      blamesFirst [.rule expression, .mark [":="], .rule expression] fun x =>
        some (.nameTo x.kind),
      blames [.name, .mark ["="], .rule bitOr, .notAhead [.mark ["=", ":="]]] .equality,
      blamesFirst [.notAhead [.rule tuple], .notAhead [.rule generator],
        .notAhead [.mark ["True", "None", "False"]], .rule bitOr, .mark ["="], .rule bitOr,
        .notAhead [.mark ["=", ":="]]] fun x => some (.assignTo x.kind)]
  | _ => []

/-- Operators and their operands. -/
def operatorProductions : Rule → List Production
  | disjunction => [
      isOther [.rule conjunction, .mark ["or"], .rule conjunction,
        .repeated [.mark ["or"], .rule conjunction]] "expression",
      passes [.rule conjunction]]
  | conjunction => [
      isOther [.rule negation, .mark ["and"], .rule negation,
        .repeated [.mark ["and"], .rule negation]] "expression",
      passes [.rule negation]]
  | negation => [
      isOther [.mark ["not"], .rule negation] "expression",
      passes [.rule comparison]]
  | comparison => [
      gives [.rule bitOr, .rule comparisonTail, .repeated [.rule comparisonTail]] comparisonOf,
      passes [.rule bitOr]]
  | comparisonTail => [
      gives [.mark ["==", "!=", "<=", "<", ">=", ">"], .rule bitOr]
        (firstOr fun x => .comparison x false),
      gives [.mark ["not"], .mark ["in"], .rule bitOr] (firstOr fun x => .comparison x false),
      gives [.mark ["in"], .rule bitOr] (firstOr fun x => .comparison x true),
      gives [.mark ["is"], .mark ["not"], .rule bitOr] (firstOr fun x => .comparison x false),
      gives [.mark ["is"], .rule bitOr] (firstOr fun x => .comparison x false)]
  | bitOr => [isOther (binary bitOr ["|"] bitXor) "expression", passes [.rule bitXor]]
  | bitXor => [isOther (binary bitXor ["^"] bitAnd) "expression", passes [.rule bitAnd]]
  | bitAnd => [isOther (binary bitAnd ["&"] shift) "expression", passes [.rule shift]]
  | shift => [isOther (binary shift ["<<", ">>"] sum) "expression", passes [.rule sum]]
  | sum => [gives (binary sum ["+", "-"] product) sumOf, passes [.rule product]]
  | product => [
      isOther (binary product ["*", "/", "//", "%", "@"] factor) "expression",
      passes [.rule factor]]
  | factor => [
      gives [.mark ["+", "-"], .rule factor] (firstOr .signed),
      isOther [.mark ["~"], .rule factor] "expression",
      passes [.rule power]]
  | power => [isOther (binary awaited ["**"] factor) "expression", passes [.rule awaited]]
  | awaited => [
      isOther [.mark ["await"], .rule primary] "await expression",
      passes [.rule primary]]
  | primary => [
      isOther [.rule primary, .mark ["."], .name] "attribute",
      gives [.rule primary, .rule generator] fun _ => .call false,
      gives [.rule primary, opens "(", .maybe [.rule callArguments], .mark [")"]] callOf,
      passes [.rule atom]]
  | atom => [
      passes [.name],
      gives [.mark ["True"]] fun _ => .constant "True",
      gives [.mark ["False"]] fun _ => .constant "False",
      gives [.mark ["None"]] fun _ => .constant "None",
      passes [.ahead [.text], .texts],
      passes [.number],
      passes [.ahead [opens "("], .rule tuple],
      passes [.ahead [opens "("], .rule group],
      passes [.ahead [opens "("], .rule generator],
      passes [.ahead [opens "\x7b"], .rule dictionary],
      passes [.ahead [opens "\x7b"], .rule set],
      passes [.ahead [opens "\x7b"], .rule dictionaryLoop],
      passes [.ahead [opens "\x7b"], .rule setLoop],
      gives [.mark ["..."]] fun _ => .constant "ellipsis"]
  | _ => []

/-- Parentheses, braces and loops. -/
def bracketProductions : Rule → List Production
  | tuple => [
      gives [opens "(", .maybe [.rule starItem, comma, .maybe [.listed starItem, .maybe [comma]]],
        .mark [")"]] .tuple]
  | group => [
      passes [opens "(", .rule yielded, .mark [")"]],
      passes [opens "(", .rule named, .mark [")"]],
      passes [.rule wrongGroup]]
  | wrongGroup => [
      blames [opens "(", .rule starred, .mark [")"]] .starred,
      blames [opens "(", .mark ["**"], .rule expression, .mark [")"]] .doubleStarred]
  | generator => [
      isOther [opens "(", .rule assignment, .rule loop, .repeated [.rule loop], .mark [")"]]
        "generator expression",
      isOther [opens "(", .rule expression, .notAhead [.mark [":="]], .rule loop,
        .repeated [.rule loop], .mark [")"]] "generator expression",
      passes [.rule wrongLoop]]
  | wrongLoop => [
      blames [.mark ["(", "\x7b"], .rule starred, .rule loop, .repeated [.rule loop]] .unpacking,
      blames [opens "\x7b", .rule starItem, comma, .listed starItem, .maybe [comma], .rule loop,
        .repeated [.rule loop]] .loopElements,
      blames [opens "\x7b", .rule starItem, comma, .rule loop, .repeated [.rule loop]]
        .loopElements]
  | dictionary => [
      gives [opens "\x7b", .maybe [.listed entry, .maybe [comma]], .mark ["\x7d"]]
        fun ps => .dictionary (entriesOf ps),
      passes [opens "\x7b", .rule wrongEntries, .mark ["\x7d"]]]
  | wrongEntries => [
      passes [.listed entry, comma, .rule wrongPair],
      blames [.rule expression, .mark [":"], .mark ["*"], .rule bitOr] .dictionaryStar,
      blames [.rule expression, .mark [":"], .ahead [.mark ["\x7d", ","]]] .dictionaryValue]
  | wrongPair => [
      blames [.rule expression, .notAhead [.mark [":"]]] .dictionaryColon,
      blames [.rule expression, .mark [":"], .mark ["*"], .rule bitOr] .dictionaryStar,
      blames [.rule expression, .mark [":"], .ahead [.mark ["\x7d", ","]]] .dictionaryValue]
  | entry => [
      gives [.mark ["**"], .rule bitOr] (firstOr fun x => .dictionary [(none, x)]),
      passes [.rule pair]]
  | pair => [gives [.rule expression, .mark [":"], .rule expression] pairOf]
  | set => [gives [opens "\x7b", .listed starItem, .maybe [comma], .mark ["\x7d"]] .set]
  | dictionaryLoop => [
      isOther [opens "\x7b", .rule pair, .rule loop, .repeated [.rule loop], .mark ["\x7d"]]
        "dict comprehension",
      passes [.rule wrongDictionaryLoop]]
  | wrongDictionaryLoop => [
      blames [opens "\x7b", .mark ["**"], .rule bitOr, .rule loop, .repeated [.rule loop],
        .mark ["\x7d"]] .dictionaryUnpacking]
  | setLoop => [
      isOther [opens "\x7b", .rule named, .rule loop, .repeated [.rule loop], .mark ["\x7d"]]
        "set comprehension",
      passes [.rule wrongLoop]]
  | loop => [
      passes [.mark ["async"], .mark ["for"], .rule targets, .mark ["in"], .cut,
        .rule disjunction, .repeated [.mark ["if"], .rule disjunction]],
      passes [.mark ["for"], .rule targets, .mark ["in"], .cut, .rule disjunction,
        .repeated [.mark ["if"], .rule disjunction]],
      passes [.rule wrongLoopTarget]]
  | wrongLoopTarget => [
      blamesFirst [.maybe [.mark ["async"]], .mark ["for"], .rule starExpressions] fun x =>
        x.notTarget?.map fun y => .loopTarget y.kind]
  | targets => [
      passes [.rule target, .notAhead [comma]],
      gives [.rule target, .repeated [comma, .rule target], .maybe [comma]] .tuple]
  | target => [
      gives [.mark ["*"], .notAhead [.mark ["*"]], .rule target] (firstOr .starred),
      passes [.rule memberTarget]]
  | memberTarget => [
      isOther [.rule targetPrimary, .mark ["."], .name, .notAhead moreTarget] "attribute",
      passes [.rule targetAtom]]
  | targetAtom => [
      passes [.name],
      passes [opens "(", .rule memberTarget, .mark [")"]],
      gives [opens "(", .maybe [.rule target, comma, .maybe [.listed target, .maybe [comma]]],
        .mark [")"]] .tuple]
  | targetPrimary => [
      isOther [.rule targetPrimary, .mark ["."], .name, .ahead moreTarget] "attribute",
      gives [.rule targetPrimary, .rule generator, .ahead moreTarget] fun _ => .call false,
      gives [.rule targetPrimary, opens "(", .maybe [.rule callArguments], .mark [")"],
        .ahead moreTarget] callOf,
      passes [.rule atom, .ahead moreTarget]]
  | _ => []

/-- Arguments of calls. -/
def argumentProductions : Rule → List Production
  | callArguments => [
      passes [.rule argumentList, .maybe [comma], .ahead [.mark [")"]]],
      passes [.rule wrongArguments]]
  | wrongArguments => [
      blames [.rule argumentList, comma, .mark ["*"]] .starBehindUnpacking,
      blames [.rule expression, .rule loop, .repeated [.rule loop], comma,
        .maybe [.rule argumentList]] .generatorArgument,
      blames [.name, .mark ["="], .rule expression, .rule loop, .repeated [.rule loop]] .equality,
      blamesFirst [.rule argumentList, .rule loop, .repeated [.rule loop]] fun x => match x with
        | .arguments n _ => if n ≤ 1 then none else some .generatorArgument
        | _ => none,
      blames [.rule argumentList, comma, .rule expression, .rule loop, .repeated [.rule loop]]
        .generatorArgument,
      blamesFirst [.rule argumentList, comma, .rule argumentList] fun x => match x with
        | .arguments _ true => some .positionalBehindUnpacking
        | _ => some .positional]
  | argumentList => [
      gives [.listed argument, .maybe [comma, .rule namedArguments]] argumentsOf,
      passes [.rule namedArguments]]
  | argument => [
      gives [.rule starred] fun _ => .arguments 1 false,
      gives [.rule assignment, .notAhead [.mark ["="]]] fun _ => .arguments 1 false,
      gives [.rule expression, .notAhead [.mark [":="]], .notAhead [.mark ["="]]]
        fun _ => .arguments 1 false]
  | namedArguments => [
      gives [.listed namedOrStarred, comma, .listed namedOrUnpacked] argumentsOf,
      gives [.listed namedOrStarred] argumentsOf,
      gives [.listed namedOrUnpacked] argumentsOf]
  | namedOrStarred => [
      passes [.rule wrongName],
      gives [.name, .mark ["="], .rule expression] fun _ => .arguments 0 false,
      gives [.rule starred] fun _ => .arguments 1 false]
  | namedOrUnpacked => [
      passes [.rule wrongName],
      gives [.name, .mark ["="], .rule expression] fun _ => .arguments 0 false,
      gives [.mark ["**"], .rule expression] fun _ => .arguments 0 true]
  | starred => [
      gives [.mark ["*"], .rule expression] (firstOr .starred),
      passes [.rule starAlone]]
  | starAlone => [blames [.mark ["*"]] .starAlone]
  | wrongName => [
      blames [.mark ["True"], .mark ["="]] (.loopTarget "True"),
      blames [.mark ["False"], .mark ["="]] (.loopTarget "False"),
      blames [.mark ["None"], .mark ["="]] (.loopTarget "None"),
      blames [.name, .mark ["="], .rule expression, .rule loop, .repeated [.rule loop]] .equality,
      blames [.notAhead [.name, .mark ["="]], .rule expression, .mark ["="]] .callEquality]
  | _ => []

/-- Functions without a name. -/
def functionProductions : Rule → List Production
  | function => [
      isOther [.mark ["lambda"], .maybe [.rule inputs], .mark [":"], .rule expression] "lambda"]
  | inputs => [
      passes [.rule wrongInputs],
      passes [.rule slashInputs, .repeated [.rule plainInput], .repeated [.rule defaultInput],
        .maybe [.rule starInputs]],
      passes [.rule slashDefaults, .repeated [.rule defaultInput], .maybe [.rule starInputs]],
      passes [.rule plainInput, .repeated [.rule plainInput], .repeated [.rule defaultInput],
        .maybe [.rule starInputs]],
      passes [.rule defaultInput, .repeated [.rule defaultInput], .maybe [.rule starInputs]],
      passes [.rule starInputs]]
  | wrongInputs => [
      blames [.repeated [.rule plainInput], .rule slashDefaults, .rule plainInput]
        .inputBehindDefault,
      blames [.repeated [.rule plainInput], .rule defaultInput, .repeated [.rule defaultInput],
        .rule plainInput] .inputBehindDefault,
      blames [.repeated [.rule plainInput], opens "(", .name, .repeated [comma, .name],
        .maybe [comma], .mark [")"]] .inputParentheses,
      blames [.mark ["/"], comma] .slashFirst,
      blames [.rule slashInputs, .repeated [.rule input], .mark ["/"]] .slashTwice,
      blames [.rule slashDefaults, .repeated [.rule input], .mark ["/"]] .slashTwice,
      blames [.maybe [.rule slashInputs], .maybe [.rule slashDefaults], .repeated [.rule input],
        .mark ["*"], comma, .repeated [.rule input], .mark ["/"]] .slashBehindStar,
      blames [.maybe [.rule slashInputs], .maybe [.rule slashDefaults], .repeated [.rule input],
        .mark ["*"], .rule plainInput, .repeated [.rule input], .mark ["/"]] .slashBehindStar,
      blames [.rule input, .repeated [.rule input], .mark ["/"], .mark ["*"]] .slashBeforeStar]
  | slashInputs =>
      endsInput [.rule plainInput, .repeated [.rule plainInput], .mark ["/"]] passes
  | slashDefaults =>
      endsInput [.repeated [.rule plainInput], .rule defaultInput, .repeated [.rule defaultInput],
        .mark ["/"]] passes
  | starInputs => [
      passes [.rule wrongStarInputs],
      passes [.mark ["*"], .rule plainInput, .repeated [.rule input], .maybe [.rule lastInput]],
      passes [.mark ["*"], comma, .rule input, .repeated [.rule input], .maybe [.rule lastInput]],
      passes [.rule lastInput]]
  | wrongStarInputs => [
      blames [.mark ["*"], .mark [":"]] .starWithoutName,
      blames [.mark ["*"], comma, .mark [":", "**"]] .starWithoutName,
      blames [.mark ["*"], .name, .mark ["="]] .starDefault,
      blames [.mark ["*"], .rule plainInput, .repeated [.rule input], .mark ["*"],
        .rule plainInput] .starTwice,
      blames [.mark ["*"], .rule plainInput, .repeated [.rule input], .mark ["*"], comma]
        .starTwice,
      blames [.mark ["*"], comma, .repeated [.rule input], .mark ["*"], .rule plainInput]
        .starTwice,
      blames [.mark ["*"], comma, .repeated [.rule input], .mark ["*"], comma] .starTwice]
  | lastInput => [
      passes [.rule wrongLastInput],
      passes [.mark ["**"], .rule plainInput]]
  | wrongLastInput => [
      blames [.mark ["**"], .name, .mark ["="]] .doubleStarDefault,
      blames [.mark ["**"], .name, comma, .name] .behindDoubleStar,
      blames [.mark ["**"], .name, comma, .mark ["*", "**", "/"]] .behindDoubleStar]
  | plainInput => endsInput [.name] passes
  | defaultInput => endsInput [.name, .rule defaultValue] passes
  | input => endsInput [.name, .maybe [.rule defaultValue]] passes
  | defaultValue => [
      passes [.mark ["="], .rule expression],
      passes [.rule wrongDefault]]
  | wrongDefault => [blames [.mark ["="], .ahead [.mark [")", ","]]] .defaultMissing]
  | _ => []

/-- The productions of a rule. -/
def productions (r : Rule) : List Production :=
  r.expressionProductions ++ r.operatorProductions ++ r.bracketProductions ++
    r.argumentProductions ++ r.functionProductions

end Rule

end Regen.Console.Action
