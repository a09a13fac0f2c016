-- SUMMARY: The operations on values and the errors they can end with.
import StructuredText.Binary64
import StructuredText.Diagnostic

/-!
# Operations and errors

An operation on values does not know where in the source it stands, so it fails with a `ValueError`.
The expression or statement that performs it turns the error into a diagnostic at its own place, with
`ValueError.at` or, for two operands, `ValueError.between`.
-/

namespace StructuredText

/-- What can be asked of a value. -/
inductive Operation where
  | display | assign | equals | greater | lesser
  | negate | plus | minus | multiply | divide | modulus | power
  | not | and | or | xor
  | integer | real | bool | string | duration | date | timeOfDay | dateAndTime | enumeration
  | subVariable | index
  deriving DecidableEq, Repr, Inhabited

/-- The name of the operation in messages. -/
def Operation.text : Operation → String
  | .display => "display"
  | .assign => "assignment"
  | .equals => "equality"
  | .greater => "greater than"
  | .lesser => "less than"
  | .negate => "negation"
  | .plus => "addition"
  | .minus => "subtraction"
  | .multiply => "multiplication"
  | .divide => "division"
  | .modulus => "modulus"
  | .power => "power"
  | .not => "NOT"
  | .and => "AND"
  | .or => "OR"
  | .xor => "XOR"
  | .integer => "integer conversion"
  | .real => "real conversion"
  | .bool => "boolean conversion"
  | .string => "string conversion"
  | .duration => "duration conversion"
  | .date => "date conversion"
  | .timeOfDay => "time of day conversion"
  | .dateAndTime => "date and time conversion"
  | .enumeration => "enumeration conversion"
  | .subVariable => "member access"
  | .index => "array indexing"

/-- Why an operation on values, types or storage has no result. -/
inductive ValueError where
  /-- A value of this kind does not have the operation. -/
  | notSupported (operation : Operation) (kind : String)
  /-- The operation does not join values of these kinds. -/
  | incompatibleOperands (operation : Operation) (left right : String)
  | incompatibleTypes (expected found : String)
  | divisionByZero
  | overflow (operation : Operation)
  | invalidArgument (reason : String)
  | outOfRange (value type : String)
  | indexCount (expected found : Nat)
  | indexOutOfRange (index min max : Int)
  | initializerCount (expected found : Nat)
  | missingMember (member : String)
  | unknownMember (type member : String)
  | unknownEnumValue (value type : String)
  | constantTarget (name : String)
  | addressOutOfRange (address : String)
  | addressMismatch (address type : String)
  | recursive (name : String)
  | storageTooLarge (type : String)
  | internal (reason : String)
  deriving DecidableEq, Repr, Inhabited

namespace ValueError

def message : ValueError → String
  | .notSupported operation kind => s!"{kind} value does not support {operation.text}"
  | .incompatibleOperands operation left right =>
    s!"{left} and {right} cannot be combined by {operation.text}"
  | .incompatibleTypes expected found => s!"expected a value of type {expected} but found {found}"
  | .divisionByZero => "division by zero"
  | .overflow operation => s!"{operation.text} overflowed"
  | .invalidArgument reason => reason
  | .outOfRange value type => s!"{value} is outside the range of {type}"
  | .indexCount expected found => s!"expected {expected} array indexes but found {found}"
  | .indexOutOfRange index min max => s!"index {index} is outside the range {min}..{max}"
  | .initializerCount expected found => s!"expected {expected} initial values but found {found}"
  | .missingMember member => s!"initializer does not set member {member}"
  | .unknownMember type member => s!"{type} has no member {member}"
  | .unknownEnumValue value type => s!"{value} is not a value of {type}"
  | .constantTarget name => s!"{name} is a constant"
  | .addressOutOfRange address => s!"address {address} is outside the memory area"
  | .addressMismatch address type => s!"address {address} cannot hold a value of type {type}"
  | .recursive name => s!"{name} contains itself"
  | .storageTooLarge type => s!"value of {type} requires more storage than is addressable"
  | .internal reason => reason

/-- The problem that the error is reported as. -/
def problem : ValueError → Problem
  | .notSupported .. => .notSupported
  | .incompatibleOperands .. => .incompatibleTypes
  | .incompatibleTypes .. => .incompatibleTypes
  | .divisionByZero => .divisionByZero
  | .overflow _ => .overflow
  | .invalidArgument _ => .invalidArgument
  | .outOfRange .. => .valueOutOfRange
  | .indexCount .. => .indexCount
  | .indexOutOfRange .. => .indexOutOfRange
  | .initializerCount .. => .initializerCount
  | .missingMember _ => .missingMember
  | .unknownMember .. => .unknownMember
  | .unknownEnumValue .. => .unknownEnumValue
  | .constantTarget _ => .constantTarget
  | .addressOutOfRange _ => .addressOutOfRange
  | .addressMismatch .. => .addressTypeMismatch
  | .recursive _ => .recursiveCycle
  | .storageTooLarge _ => .storageTooLarge
  | .internal _ => .internalInvariant

/-- The diagnostic of an error at a place. An error about a member names it as context. -/
def «at» (e : ValueError) (span : Span) : Diagnostic :=
  let d := Diagnostic.of e.problem span e.message
  match e with
  | .missingMember member | .unknownMember _ member => d.withContext "member" member
  | _ => d

/-- The diagnostic of an error of two operands, at the left one. -/
def between (e : ValueError) (left right : Span) : Diagnostic :=
  (e.at left).withSecondary right "Right operand"

end ValueError

/-- A result whose error is reported at a place. -/
def atSpan (span : Span) (result : Except ValueError α) : Except Diagnostic α :=
  result.mapError (·.at span)

end StructuredText
