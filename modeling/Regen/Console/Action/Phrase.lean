/-! # Phrases

    What an expression of parameters says, as far as it matters: which literals it is made of,
    and for everything else only its kind.  Literals are numbers, texts, constants, tuples, sets
    and dictionaries. -/

namespace Regen.Console.Action

/-- An expression. -/
inductive Phrase where
  | number (imaginary : Bool)
  | text
  | constant (kind : String)
  | name (name : String)
  | tuple (items : List Phrase)
  | set (items : List Phrase)
  /-- An entry without a key stands for the entries of another dictionary. -/
  | dictionary (entries : List (Option Phrase × Phrase))
  /-- A call, of the empty set if `isSet`. -/
  | call ( isSet : Bool)
  /-- A number with a sign, or another expression with one. -/
  | signed (x : Phrase)
  /-- A sum or a difference. -/
  | sum (x y : Phrase)
  /-- A comparison that starts with the given operand; `isIn` if its first mark is `in`. -/
  | comparison (left : Phrase) (isIn : Bool)
  | starred (x : Phrase)
  /-- Arguments of a call: how many have no name, and whether a dictionary gives some. -/
  | arguments (plain : Nat) (unpacks : Bool)
  /-- Anything else. -/
  | other (kind : String)
  deriving Repr, Inhabited

namespace Phrase

/-- The kind of an expression in messages. -/
def kind : Phrase → String
  | number _ | text => "literal"
  | constant kind | other kind => kind
  | name _ => "name"
  | tuple _ => "tuple"
  | set _ => "set display"
  | dictionary _ => "dict literal"
  | call _ | arguments .. => "function call"
  | signed _ | sum .. => "expression"
  | comparison .. => "comparison"
  | starred _ => "starred"

/-- Is the expression a number without a sign? -/
def isNumber : Phrase → Bool
  | number _ => true
  | _ => false

/-- Is the expression a real number, with or without a sign? -/
def isReal : Phrase → Bool
  | number imaginary => !imaginary
  | signed (number imaginary) => !imaginary
  | _ => false

mutual

/-- The first part of an expression that keeps it from being the target of a loop.  In front of
    its loop a target may be read as a comparison by `in`. -/
def notTarget? : Phrase → Option Phrase
  | name _ | other "attribute" => none
  | tuple items => firstNotTarget? items
  | starred x => notTarget? x
  | comparison x isIn => if isIn then notTarget? x else none
  | x => some x

/-- The first part of some expressions that keeps them from being targets of a loop. -/
def firstNotTarget? : List Phrase → Option Phrase
  | [] => none
  | x :: xs => (notTarget? x).or (firstNotTarget? xs)

end

/-! ## Literals -/

/-- Why an expression has no value. -/
inductive ValueFault where
  /-- It is no literal. -/
  | notLiteral
  /-- An entry has no key. -/
  | noKey
  /-- A set or dictionary in a set, or as a key. -/
  | unhashable (shape : String)
  deriving DecidableEq, Repr

def ValueFault.message : ValueFault → String
  | notLiteral => "malformed node or string"
  | noKey => "malformed node or string: None"
  | unhashable shape => s!"unhashable type: '{shape}'"

mutual

/-- Check that an expression is a literal.  The result is the shape in it that keeps it from being
    an element of a set or a key. -/
def check : Phrase → Except ValueFault (Option String)
  | number _ | text | constant _ => .ok none
  | tuple items => checkAll items
  | set items => do
    checkElements items
    pure (some "set")
  | dictionary entries => do
    checkEntries entries
    pure (some "dict")
  | call isSet => if isSet then .ok (some "set") else .error .notLiteral
  | signed x => if x.isNumber then .ok none else .error .notLiteral
  | sum x y =>
    match y with
    | number true => if x.isReal then .ok none else .error .notLiteral
    | _ => .error .notLiteral
  | name _ | comparison .. | starred _ | arguments .. | other _ => .error .notLiteral

/-- The first shape in some expressions that keeps them from being keys. -/
def checkAll : List Phrase → Except ValueFault (Option String)
  | [] => .ok none
  | x :: xs => do
    let shape ← check x
    let shapes ← checkAll xs
    pure (shape.or shapes)

/-- Check the elements of a set. -/
def checkElements : List Phrase → Except ValueFault Unit
  | [] => .ok ()
  | x :: xs => do
    if let some shape ← check x then .error (.unhashable shape)
    checkElements xs

/-- Check the keys and values of a dictionary. -/
def checkEntries : List (Option Phrase × Phrase) → Except ValueFault Unit
  | [] => .ok ()
  | (k, v) :: es => do
    let shape ← match k with
      | some k => check k
      | none => .error .noKey
    let _ ← check v
    if let some shape := shape then .error (.unhashable shape)
    checkEntries es

end

end Phrase

end Regen.Console.Action
