import Regen.Text.Utf8

/-! # Faults of values

    What can be wrong with a value that is read, converted or looked into.  A fault says the
    cause; `Fault.message` gives its wording and `Fault.kind` the family that callers tell
    apart, since some callers absorb some families and let others pass. -/

namespace Regen

/-- The families of faults. -/
inductive FaultKind where
  /-- A mapping lacks a key. -/
  | key
  /-- A value of one shape stands where another is needed. -/
  | type
  /-- A value has no such member. -/
  | attribute
  /-- A value of the right shape has no meaning. -/
  | value
  /-- A number or time is too large. -/
  | overflow
  /-- A position lies outside a text. -/
  | index
  /-- Bytes are no text. -/
  | decoding
  deriving DecidableEq, Repr

/-- What is wrong with the host part of a URL. -/
inductive UrlFault where
  /-- A bracket without its partner. -/
  | brackets
  /-- A host that turns into a delimiter when characters are brought to compatible form. -/
  | lookalike (host : String)
  /-- Text in brackets that is no address. -/
  | address (host : String)
  /-- A bracketed address of a future version that is not well formed. -/
  | futureAddress
  /-- A version 4 address in brackets. -/
  | bracketedV4
  deriving DecidableEq, Repr

def UrlFault.message : UrlFault → String
  | .brackets => "Invalid IPv6 URL"
  | .lookalike host =>
    s!"netloc '{host}' contains invalid characters under NFKC normalization"
  | .address host => s!"{Text.quoted host} does not appear to be an IPv4 or IPv6 address"
  | .futureAddress => "IPvFuture address is invalid"
  | .bracketedV4 => "An IPv4 address cannot be in brackets"

/-- The calendar and clock fields that have a range. -/
inductive TimeField where
  | month
  | day
  | hour
  | minute
  | second
  deriving DecidableEq, Repr

def TimeField.rangeMessage : TimeField → String
  | .month => "month must be in 1..12"
  | .day => "day is out of range for month"
  | .hour => "hour must be in 0..23"
  | .minute => "minute must be in 0..59"
  | .second => "second must be in 0..59"

/-- What can be wrong with a value.  `shape` arguments name the shape of the offending value. -/
inductive Fault where
  | missingKey (key : String)
  | noAttribute (shape member : String)
  | notIterable (shape : String)
  | notSubscriptable (shape : String)
  /-- Text is needed. -/
  | notText (shape : String)
  /-- A sequence is asked for a text key; `owner` is the sequence as the wording names it. -/
  | textIndex (owner : String)
  | intText (base : Nat) (shown : String)
  | intShape (shape : String)
  | intDigits (count : Nat)
  | intTooLong
  | realText (shown : String)
  | realShape (shape : String)
  | nanToInt
  | infinityToInt
  | intTooLarge
  | quotientTooLarge
  | timeText (shown : String)
  | year (year : Int)
  | field (field : TimeField)
  | offset (shown : String)
  | timeRange
  | mixedOffsets
  | pairLength (place length : Nat)
  | pairShape (place : Nat)
  | unhashable (shape : String)
  | emptyText
  | character
  | characterTooLarge
  | decoding (fault : Text.Utf8Fault)
  | nullInPath
  | url (fault : UrlFault)
  | topLevelShape
  | unsupportedVersion (version : String)
  deriving DecidableEq, Repr

namespace Fault

def kind : Fault → FaultKind
  | missingKey _ => .key
  | noAttribute .. => .attribute
  | notIterable _ | notSubscriptable _ | notText _ | textIndex _ | intShape _ | realShape _
  | mixedOffsets | pairShape _ | unhashable _ | topLevelShape => .type
  | intText .. | intDigits _ | intTooLong | realText _ | nanToInt | timeText _ | year _ | field _
  | offset _ | pairLength .. | character | nullInPath | url _ | unsupportedVersion _ => .value
  | infinityToInt | intTooLarge | quotientTooLarge | timeRange | characterTooLarge => .overflow
  | emptyText => .index
  | decoding _ => .decoding

def message : Fault → String
  | missingKey key => Text.quoted key
  | noAttribute shape member => s!"'{shape}' object has no attribute '{member}'"
  | notIterable shape => s!"'{shape}' object is not iterable"
  | notSubscriptable shape => s!"'{shape}' object is not subscriptable"
  | notText shape => s!"expected string or bytes-like object, got '{shape}'"
  | textIndex "string" => "string indices must be integers, not 'str'"
  | textIndex owner => s!"{owner} indices must be integers or slices, not str"
  | intText base shown => s!"invalid literal for int() with base {base}: {shown}"
  | intShape shape =>
    s!"int() argument must be a string, a bytes-like object or a real number, not '{shape}'"
  | intDigits count =>
    s!"Exceeds the limit (4300 digits) for integer string conversion: value has {count} digits; "
      ++ "use sys.set_int_max_str_digits() to increase the limit"
  | intTooLong =>
    "Exceeds the limit (4300 digits) for integer string conversion; "
      ++ "use sys.set_int_max_str_digits() to increase the limit"
  | realText shown => s!"could not convert string to float: {shown}"
  | realShape shape => s!"float() argument must be a string or a real number, not '{shape}'"
  | nanToInt => "cannot convert float NaN to integer"
  | infinityToInt => "cannot convert float infinity to integer"
  | intTooLarge => "int too large to convert to float"
  | quotientTooLarge => "integer division result too large for a float"
  | timeText shown => s!"Invalid isoformat string: {shown}"
  | year y => s!"year {y} is out of range"
  | field f => f.rangeMessage
  | offset shown =>
    "offset must be a timedelta strictly between -timedelta(hours=24) and "
      ++ s!"timedelta(hours=24), not {shown}."
  | timeRange => "date value out of range"
  | mixedOffsets => "can't subtract offset-naive and offset-aware datetimes"
  | pairLength place length =>
    s!"dictionary update sequence element #{place} has length {length}; 2 is required"
  | pairShape place => s!"cannot convert dictionary update sequence element #{place} to a sequence"
  | unhashable shape => s!"unhashable type: '{shape}'"
  | emptyText => "string index out of range"
  | character => "chr() arg not in range(0x110000)"
  | characterTooLarge => "Python int too large to convert to C int"
  | decoding fault => fault.message
  | nullInPath => "embedded null byte"
  | url fault => fault.message
  | topLevelShape => "top-level value is not a mapping"
  | unsupportedVersion version => s!"unsupported schema_version '{version}' (supported: 1.0)"

end Fault

end Regen
