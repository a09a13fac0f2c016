-- SUMMARY: The problems that can be reported, with their codes, kinds and texts.

/-!
# Problems

Everything that can go wrong between reading a source text and running it. Each problem has a code
that users know it by, a kind and a fixed description. The letter of the code is the initial of the
kind (`S` syntax, `L` link, `T` type, `A` argument, `C` context, `I` internal, `M` memory).
-/

namespace StructuredText

/-- The category of a problem. -/
inductive ProblemKind where
  /-- The text is not made of tokens or does not follow the grammar. -/
  | grammar
  /-- A name is not declared, or is declared twice. -/
  | link
  /-- A value or a type is used in a way that its kind does not allow. -/
  | type
  /-- An operand, an index or an argument is not acceptable. -/
  | argument
  /-- An item stands where it may not be used. -/
  | context
  /-- An invariant of the interpreter does not hold. -/
  | internal
  /-- Storage cannot be provided. -/
  | memory
  deriving DecidableEq, Repr, Inhabited

namespace ProblemKind

/-- Problems of these kinds leave an interpreter that cannot be trusted. -/
def isFatal : ProblemKind → Bool
  | .internal | .memory => true
  | _ => false

def describe : ProblemKind → String
  | .grammar => "syntax error"
  | .link => "link error"
  | .type => "type error"
  | .argument => "argument error"
  | .context => "context error"
  | .internal => "internal error"
  | .memory => "memory error"

end ProblemKind

/-- A kind of mistake that a diagnostic reports. -/
inductive Problem where
  | unexpectedToken
  | syntaxError
  | invalidLiteral
  | invalidAddress
  | unresolvedType
  | unresolvedVariable
  | unresolvedFunction
  | unresolvedGlobal
  | duplicateDeclaration
  | unresolvedProgram
  | noContent
  | parseErrorsPresent
  | incompatibleTypes
  | valueOutOfRange
  | initializerCount
  | missingMember
  | unknownMember
  | recursiveCycle
  | notSupported
  | invalidSubrange
  | invalidArrayBounds
  | unknownEnumValue
  | conditionNotBool
  | notAFunctionBlock
  | addressTypeMismatch
  | divisionByZero
  | indexCount
  | indexOutOfRange
  | overflow
  | argumentCount
  | unknownArgument
  | addressOutOfRange
  | invalidArgument
  | constantTarget
  | exitOutsideLoop
  | notAssignable
  | notConstant
  | stepLimitExceeded
  | notStarted
  | notLinked
  | notInvocable
  | internalInvariant
  | notImplemented
  | storageTooLarge
  deriving DecidableEq, Repr, Inhabited

namespace Problem

/-- The code that users know the problem by. -/
def code : Problem → String
  | .unexpectedToken => "S0001"
  | .syntaxError => "S0002"
  | .invalidLiteral => "S0003"
  | .invalidAddress => "S0004"
  | .unresolvedType => "L0001"
  | .unresolvedVariable => "L0002"
  | .unresolvedFunction => "L0003"
  | .unresolvedGlobal => "L0004"
  | .duplicateDeclaration => "L0005"
  | .unresolvedProgram => "L0006"
  | .noContent => "L0007"
  | .parseErrorsPresent => "L0008"
  | .incompatibleTypes => "T0001"
  | .valueOutOfRange => "T0002"
  | .initializerCount => "T0003"
  | .missingMember => "T0004"
  | .unknownMember => "T0005"
  | .recursiveCycle => "T0006"
  | .notSupported => "T0007"
  | .invalidSubrange => "T0008"
  | .invalidArrayBounds => "T0009"
  | .unknownEnumValue => "T0010"
  | .conditionNotBool => "T0011"
  | .notAFunctionBlock => "T0012"
  | .addressTypeMismatch => "T0013"
  | .divisionByZero => "A0001"
  | .indexCount => "A0002"
  | .indexOutOfRange => "A0003"
  | .overflow => "A0004"
  | .argumentCount => "A0005"
  | .unknownArgument => "A0006"
  | .addressOutOfRange => "A0007"
  | .invalidArgument => "A0008"
  | .constantTarget => "C0001"
  | .exitOutsideLoop => "C0002"
  | .notAssignable => "C0003"
  | .notConstant => "C0004"
  | .stepLimitExceeded => "C0005"
  | .notStarted => "C0006"
  | .notLinked => "C0007"
  | .notInvocable => "C0008"
  | .internalInvariant => "I0001"
  | .notImplemented => "I0002"
  | .storageTooLarge => "M0001"

/-- The name of the problem in reports that are read by programs. -/
def name : Problem → String
  | .unexpectedToken => "UnexpectedToken"
  | .syntaxError => "SyntaxError"
  | .invalidLiteral => "InvalidLiteral"
  | .invalidAddress => "InvalidAddress"
  | .unresolvedType => "UnresolvedType"
  | .unresolvedVariable => "UnresolvedVariable"
  | .unresolvedFunction => "UnresolvedFunction"
  | .unresolvedGlobal => "UnresolvedGlobal"
  | .duplicateDeclaration => "DuplicateDeclaration"
  | .unresolvedProgram => "UnresolvedProgram"
  | .noContent => "NoContent"
  | .parseErrorsPresent => "ParseErrorsPresent"
  | .incompatibleTypes => "IncompatibleTypes"
  | .valueOutOfRange => "ValueOutOfRange"
  | .initializerCount => "InitializerCount"
  | .missingMember => "MissingMember"
  | .unknownMember => "UnknownMember"
  | .recursiveCycle => "RecursiveCycle"
  | .notSupported => "NotSupported"
  | .invalidSubrange => "InvalidSubrange"
  | .invalidArrayBounds => "InvalidArrayBounds"
  | .unknownEnumValue => "UnknownEnumValue"
  | .conditionNotBool => "ConditionNotBool"
  | .notAFunctionBlock => "NotAFunctionBlock"
  | .addressTypeMismatch => "AddressTypeMismatch"
  | .divisionByZero => "DivisionByZero"
  | .indexCount => "IndexCount"
  | .indexOutOfRange => "IndexOutOfRange"
  | .overflow => "Overflow"
  | .argumentCount => "ArgumentCount"
  | .unknownArgument => "UnknownArgument"
  | .addressOutOfRange => "AddressOutOfRange"
  | .invalidArgument => "InvalidArgument"
  | .constantTarget => "ConstantTarget"
  | .exitOutsideLoop => "ExitOutsideLoop"
  | .notAssignable => "NotAssignable"
  | .notConstant => "NotConstant"
  | .stepLimitExceeded => "StepLimitExceeded"
  | .notStarted => "NotStarted"
  | .notLinked => "NotLinked"
  | .notInvocable => "NotInvocable"
  | .internalInvariant => "InternalInvariant"
  | .notImplemented => "NotImplemented"
  | .storageTooLarge => "StorageTooLarge"

/-- The category of the problem. -/
def kind : Problem → ProblemKind
  | .unexpectedToken => .grammar
  | .syntaxError => .grammar
  | .invalidLiteral => .grammar
  | .invalidAddress => .grammar
  | .unresolvedType => .link
  | .unresolvedVariable => .link
  | .unresolvedFunction => .link
  | .unresolvedGlobal => .link
  | .duplicateDeclaration => .link
  | .unresolvedProgram => .link
  | .noContent => .link
  | .parseErrorsPresent => .link
  | .incompatibleTypes => .type
  | .valueOutOfRange => .type
  | .initializerCount => .type
  | .missingMember => .type
  | .unknownMember => .type
  | .recursiveCycle => .type
  | .notSupported => .type
  | .invalidSubrange => .type
  | .invalidArrayBounds => .type
  | .unknownEnumValue => .type
  | .conditionNotBool => .type
  | .notAFunctionBlock => .type
  | .addressTypeMismatch => .type
  | .divisionByZero => .argument
  | .indexCount => .argument
  | .indexOutOfRange => .argument
  | .overflow => .argument
  | .argumentCount => .argument
  | .unknownArgument => .argument
  | .addressOutOfRange => .argument
  | .invalidArgument => .argument
  | .constantTarget => .context
  | .exitOutsideLoop => .context
  | .notAssignable => .context
  | .notConstant => .context
  | .stepLimitExceeded => .context
  | .notStarted => .context
  | .notLinked => .context
  | .notInvocable => .context
  | .internalInvariant => .internal
  | .notImplemented => .internal
  | .storageTooLarge => .memory

/-- The fixed description of the problem. -/
def message : Problem → String
  | .unexpectedToken => "Text is not a valid token"
  | .syntaxError => "Syntax error"
  | .invalidLiteral => "Literal value is not valid"
  | .invalidAddress => "Direct address is not valid"
  | .unresolvedType => "Type is not declared"
  | .unresolvedVariable => "Variable is not declared"
  | .unresolvedFunction => "Function is not declared"
  | .unresolvedGlobal => "External variable has no matching global variable"
  | .duplicateDeclaration => "Name is declared more than once"
  | .unresolvedProgram => "Program is not declared"
  | .noContent => "No compilation units to link"
  | .parseErrorsPresent => "Linking skipped because compilation units contain syntax errors"
  | .incompatibleTypes => "Types are not compatible"
  | .valueOutOfRange => "Value is outside the range of the type"
  | .initializerCount => "Initializer does not match the declared array size"
  | .missingMember => "Structure initializer does not set every member"
  | .unknownMember => "Structure has no member with this name"
  | .recursiveCycle => "Declaration contains itself directly or transitively"
  | .notSupported => "Operation is not supported by the value"
  | .invalidSubrange => "Subrange limits are not valid"
  | .invalidArrayBounds => "Array bounds are not valid"
  | .unknownEnumValue => "Value is not a member of the enumeration"
  | .conditionNotBool => "Condition must be a boolean expression"
  | .notAFunctionBlock => "Variable is not a function block instance"
  | .addressTypeMismatch => "Direct address size does not match the variable type"
  | .divisionByZero => "Division by zero"
  | .indexCount => "Wrong number of array indexes"
  | .indexOutOfRange => "Array index is outside the declared range"
  | .overflow => "Arithmetic overflow"
  | .argumentCount => "Wrong number of arguments"
  | .unknownArgument => "Call has no parameter with this name"
  | .addressOutOfRange => "Direct address is outside the memory area"
  | .invalidArgument => "Argument value is not valid for the operation"
  | .constantTarget => "Cannot assign to a constant"
  | .exitOutsideLoop => "EXIT must be inside a loop"
  | .notAssignable => "Expression cannot be assigned to"
  | .notConstant => "Expression must be constant"
  | .stepLimitExceeded => "Cycle exceeded the micro-step limit"
  | .notStarted => "No program is started"
  | .notLinked => "Interpreter has not been linked"
  | .notInvocable => "Name cannot be invoked"
  | .internalInvariant => "Internal invariant violated"
  | .notImplemented => "Not implemented"
  | .storageTooLarge => "Value storage exceeds addressable memory"

/-- Every problem, in the order of the codes. -/
def all : List Problem :=
  [.unexpectedToken, .syntaxError, .invalidLiteral, .invalidAddress, .unresolvedType,
   .unresolvedVariable, .unresolvedFunction, .unresolvedGlobal, .duplicateDeclaration,
   .unresolvedProgram, .noContent, .parseErrorsPresent, .incompatibleTypes, .valueOutOfRange,
   .initializerCount, .missingMember, .unknownMember, .recursiveCycle, .notSupported,
   .invalidSubrange, .invalidArrayBounds, .unknownEnumValue, .conditionNotBool,
   .notAFunctionBlock, .addressTypeMismatch, .divisionByZero, .indexCount, .indexOutOfRange,
   .overflow, .argumentCount, .unknownArgument, .addressOutOfRange, .invalidArgument,
   .constantTarget, .exitOutsideLoop, .notAssignable, .notConstant, .stepLimitExceeded,
   .notStarted, .notLinked, .notInvocable, .internalInvariant, .notImplemented, .storageTooLarge]

def ofName? (name : String) : Option Problem :=
  all.find? (·.name == name)

def isFatal (p : Problem) : Bool := p.kind.isFatal

end Problem

end StructuredText
