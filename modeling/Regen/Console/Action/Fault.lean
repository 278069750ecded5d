import Regen.Fault
import Regen.Text.Quoted

/-! # Syntax faults

    What is wrong with the form of an expression, and how messages put it. -/

namespace Regen.Console.Action

open Text

/-- What is wrong with the form of an expression. -/
inductive SyntaxFault where
  | general
  -- expressions
  | comma
  | elseMissing
  | equality
  | assignTo (kind : String)
  | nameTo (kind : String)
  | printCall (name : String)
  | longNumber (digits : Nat)
  | mixedBytes
  | bytesAscii
  -- escapes, from a position to another
  | shortEscape (start last : Nat) (letter : Char) (digits : Nat)
  | escapeTooLarge (start last : Nat)
  | escapeName (start last : Nat)
  | byteEscape (position : Nat)
  -- formatted texts
  /-- In an expression inside a formatted text. -/
  | inFormatted (f : SyntaxFault)
  | loneBrace
  | braceMissing
  | tooDeep
  | backslash
  | hashMark
  | quoteMissing
  | tooManyBrackets
  | strayBracket (bracket : Char)
  | wrongBracket (closing opening : Char)
  | noExpression (behind : Option Char)
  | conversion
  -- stars and loops
  | starAlone
  | starred
  | doubleStarred
  | unpacking
  | dictionaryUnpacking
  | loopTarget (kind : String)
  | loopElements
  -- dictionaries
  | dictionaryValue
  | dictionaryColon
  | dictionaryStar
  -- arguments
  | callEquality
  | positional
  | positionalBehindUnpacking
  | starBehindUnpacking
  | generatorArgument
  -- inputs of functions
  | inputBehindDefault
  | inputParentheses
  | slashFirst
  | slashTwice
  | slashBehindStar
  | slashBeforeStar
  | starWithoutName
  | starDefault
  | starTwice
  | doubleStarDefault
  | behindDoubleStar
  | defaultMissing
  -- tokens
  | unterminated (line : Nat)
  | unterminatedTriple (line : Nat)
  | unclosed (opening : Char)
  | unmatched (closing : Char)
  | mismatch (closing opening : Char) (line : Option Nat)
  | tooNested
  | number (kind : String)
  | digit (digit : Char) (kind : String)
  | leadingZeros
  | continuation
  | character (c : Char)
  | unprintable (c : Char)
  | indent
  deriving DecidableEq, Repr

/-- The number of a character in messages. -/
def codeText (c : Char) : String := String.ofList ((hex 4 (codeOf c)).map Char.toUpper)

/-- A broken escape in messages. -/
def escapeText (start last : Nat) (problem : String) : String :=
  s!"(unicode error) 'unicodeescape' codec can't decode bytes in position {start}-{last}: " ++
    problem

def SyntaxFault.message : SyntaxFault → String
  | general => "invalid syntax"
  | comma => "invalid syntax. Perhaps you forgot a comma?"
  | elseMissing => "expected 'else' after 'if' expression"
  | equality => "invalid syntax. Maybe you meant '==' or ':=' instead of '='?"
  | assignTo kind => s!"cannot assign to {kind} here. Maybe you meant '==' instead of '='?"
  | nameTo kind => s!"cannot use assignment expressions with {kind}"
  | printCall name => s!"Missing parentheses in call to '{name}'. Did you mean {name}(...)?"
  | longNumber digits =>
    (Fault.intDigits digits).message ++ " - Consider hexadecimal for huge integer literals " ++
      "to avoid decimal conversion limits."
  | mixedBytes => "cannot mix bytes and nonbytes literals"
  | bytesAscii => "bytes can only contain ASCII literal characters"
  | shortEscape start last letter digits =>
    let places := String.ofList (List.replicate digits 'X')
    escapeText start last s!"truncated \\{letter}{places} escape"
  | escapeTooLarge start last => escapeText start last "illegal Unicode character"
  | escapeName start last => escapeText start last "malformed \\N character escape"
  | byteEscape position => s!"(value error) invalid \\x escape at position {position}"
  | inFormatted f => "f-string: " ++ f.message
  | loneBrace => "f-string: single '\x7d' is not allowed"
  | braceMissing => "f-string: expecting '\x7d'"
  | tooDeep => "f-string: expressions nested too deeply"
  | backslash => "f-string expression part cannot include a backslash"
  | hashMark => "f-string expression part cannot include '#'"
  | quoteMissing => "f-string: unterminated string"
  | tooManyBrackets => "f-string: too many nested parenthesis"
  | strayBracket bracket => s!"f-string: unmatched '{bracket}'"
  | wrongBracket closing opening =>
    s!"f-string: closing parenthesis '{closing}' does not match opening parenthesis '{opening}'"
  | noExpression none => "f-string: empty expression not allowed"
  | noExpression (some c) => s!"f-string: expression required before '{c}'"
  | conversion => "f-string: invalid conversion character: expected 's', 'r', or 'a'"
  | starAlone => "Invalid star expression"
  | starred => "cannot use starred expression here"
  | doubleStarred => "cannot use double starred expression here"
  | unpacking => "iterable unpacking cannot be used in comprehension"
  | dictionaryUnpacking => "dict unpacking cannot be used in dict comprehension"
  | loopTarget kind => s!"cannot assign to {kind}"
  | loopElements => "did you forget parentheses around the comprehension target?"
  | dictionaryValue => "expression expected after dictionary key and ':'"
  | dictionaryColon => "':' expected after dictionary key"
  | dictionaryStar => "cannot use a starred expression in a dictionary value"
  | callEquality => "expression cannot contain assignment, perhaps you meant \"==\"?"
  | positional => "positional argument follows keyword argument"
  | positionalBehindUnpacking => "positional argument follows keyword argument unpacking"
  | starBehindUnpacking => "iterable argument unpacking follows keyword argument unpacking"
  | generatorArgument => "Generator expression must be parenthesized"
  | inputBehindDefault => "non-default argument follows default argument"
  | inputParentheses => "Lambda expression parameters cannot be parenthesized"
  | slashFirst => "at least one argument must precede /"
  | slashTwice => "/ may appear only once"
  | slashBehindStar => "/ must be ahead of *"
  | slashBeforeStar => "expected comma between / and *"
  | starWithoutName => "named arguments must follow bare *"
  | starDefault => "var-positional argument cannot have default value"
  | starTwice => "* argument may appear only once"
  | doubleStarDefault => "var-keyword argument cannot have default value"
  | behindDoubleStar => "arguments cannot follow var-keyword argument"
  | defaultMissing => "expected default value expression"
  | unterminated line => s!"unterminated string literal (detected at line {line})"
  | unterminatedTriple line =>
    s!"unterminated triple-quoted string literal (detected at line {line})"
  | unclosed opening => s!"'{opening}' was never closed"
  | unmatched closing => s!"unmatched '{closing}'"
  | mismatch closing opening line =>
    s!"closing parenthesis '{closing}' does not match opening parenthesis '{opening}'" ++
      match line with
      | some n => s!" on line {n}"
      | none => ""
  | tooNested => "too many nested parentheses"
  | number kind => s!"invalid {kind} literal"
  | digit d kind => s!"invalid digit '{d}' in {kind} literal"
  | leadingZeros =>
    "leading zeros in decimal integer literals are not permitted; " ++
      "use an 0o prefix for octal integers"
  | continuation => "unexpected character after line continuation character"
  | character c => s!"invalid character '{c}' (U+{codeText c})"
  | unprintable c => s!"invalid non-printable character U+{codeText c}"
  | indent => "unexpected indent"

end Regen.Console.Action
