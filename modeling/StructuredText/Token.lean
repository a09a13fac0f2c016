-- SUMMARY: The tokens of Structured Text: their kinds, their names, and how a message calls them.
import StructuredText.Span

/-!
# Tokens

A token is a piece of the source text with its kind. Keywords are `kw…`; white space and comments
make no tokens.
-/

namespace StructuredText

/-- What kind of token a text is. -/
inductive TokenKind where
  -- grouping and other marks
  | leftParen
  | rightParen
  | leftBracket
  | rightBracket
  | comma
  | semicolon
  | colon
  | period
  | range
  | hash
  | assignment
  | rightArrow
  -- literals and names
  | integer
  | basedInteger
  | real
  | string
  | duration
  | date
  | timeOfDay
  | dateAndTime
  | directAddress
  | identifier
  -- operators
  | equal
  | notEqual
  | less
  | greater
  | lessEqual
  | greaterEqual
  | plus
  | minus
  | star
  | slash
  | power
  -- keywords
  | kwTrue
  | kwFalse
  | kwType
  | kwEndType
  | kwStruct
  | kwEndStruct
  | kwArray
  | kwOf
  | kwVar
  | kwVarInput
  | kwVarOutput
  | kwVarInOut
  | kwVarExternal
  | kwVarGlobal
  | kwVarTemp
  | kwEndVar
  | kwConstant
  | kwRetain
  | kwAt
  | kwProgram
  | kwEndProgram
  | kwFunction
  | kwEndFunction
  | kwFunctionBlock
  | kwEndFunctionBlock
  | kwOr
  | kwXor
  | kwAnd
  | kwNot
  | kwMod
  | kwIf
  | kwThen
  | kwElsif
  | kwElse
  | kwEndIf
  | kwCase
  | kwEndCase
  | kwFor
  | kwTo
  | kwBy
  | kwDo
  | kwEndFor
  | kwWhile
  | kwEndWhile
  | kwRepeat
  | kwUntil
  | kwEndRepeat
  | kwExit
  | kwReturn
  deriving DecidableEq, Repr, Inhabited

namespace TokenKind

/-- The name of the kind in token listings. -/
def name : TokenKind → String
  | .leftParen => "LeftParen"
  | .rightParen => "RightParen"
  | .leftBracket => "LeftBracket"
  | .rightBracket => "RightBracket"
  | .comma => "Comma"
  | .semicolon => "Semicolon"
  | .colon => "Colon"
  | .period => "Period"
  | .range => "Range"
  | .hash => "Hash"
  | .integer => "Integer"
  | .basedInteger => "BasedInteger"
  | .real => "Real"
  | .string => "String"
  | .duration => "Duration"
  | .date => "Date"
  | .timeOfDay => "TimeOfDay"
  | .dateAndTime => "DateAndTime"
  | .directAddress => "DirectAddress"
  | .kwTrue => "True"
  | .kwFalse => "False"
  | .identifier => "Identifier"
  | .kwType => "Type"
  | .kwEndType => "EndType"
  | .kwStruct => "Struct"
  | .kwEndStruct => "EndStruct"
  | .kwArray => "Array"
  | .kwOf => "Of"
  | .kwVar => "Var"
  | .kwVarInput => "VarInput"
  | .kwVarOutput => "VarOutput"
  | .kwVarInOut => "VarInOut"
  | .kwVarExternal => "VarExternal"
  | .kwVarGlobal => "VarGlobal"
  | .kwVarTemp => "VarTemp"
  | .kwEndVar => "EndVar"
  | .kwConstant => "Constant"
  | .kwRetain => "Retain"
  | .kwAt => "At"
  | .assignment => "Assignment"
  | .rightArrow => "RightArrow"
  | .kwProgram => "Program"
  | .kwEndProgram => "EndProgram"
  | .kwFunction => "Function"
  | .kwEndFunction => "EndFunction"
  | .kwFunctionBlock => "FunctionBlock"
  | .kwEndFunctionBlock => "EndFunctionBlock"
  | .kwOr => "Or"
  | .kwXor => "Xor"
  | .kwAnd => "And"
  | .kwNot => "Not"
  | .kwMod => "Mod"
  | .equal => "Equal"
  | .notEqual => "NotEqual"
  | .less => "Less"
  | .greater => "Greater"
  | .lessEqual => "LessEqual"
  | .greaterEqual => "GreaterEqual"
  | .plus => "Plus"
  | .minus => "Minus"
  | .star => "Star"
  | .slash => "Slash"
  | .power => "Power"
  | .kwIf => "If"
  | .kwThen => "Then"
  | .kwElsif => "Elsif"
  | .kwElse => "Else"
  | .kwEndIf => "EndIf"
  | .kwCase => "Case"
  | .kwEndCase => "EndCase"
  | .kwFor => "For"
  | .kwTo => "To"
  | .kwBy => "By"
  | .kwDo => "Do"
  | .kwEndFor => "EndFor"
  | .kwWhile => "While"
  | .kwEndWhile => "EndWhile"
  | .kwRepeat => "Repeat"
  | .kwUntil => "Until"
  | .kwEndRepeat => "EndRepeat"
  | .kwExit => "Exit"
  | .kwReturn => "Return"

/-- The spelling of each keyword. Any letter may be written in either case. -/
def keywords : List (String × TokenKind) :=
  [("TRUE", .kwTrue), ("FALSE", .kwFalse), ("TYPE", .kwType), ("END_TYPE", .kwEndType),
   ("STRUCT", .kwStruct), ("END_STRUCT", .kwEndStruct), ("ARRAY", .kwArray), ("OF", .kwOf),
   ("VAR", .kwVar), ("VAR_INPUT", .kwVarInput), ("VAR_OUTPUT", .kwVarOutput),
   ("VAR_IN_OUT", .kwVarInOut), ("VAR_EXTERNAL", .kwVarExternal), ("VAR_GLOBAL", .kwVarGlobal),
   ("VAR_TEMP", .kwVarTemp), ("END_VAR", .kwEndVar), ("CONSTANT", .kwConstant),
   ("RETAIN", .kwRetain), ("AT", .kwAt), ("PROGRAM", .kwProgram), ("END_PROGRAM", .kwEndProgram),
   ("FUNCTION", .kwFunction), ("END_FUNCTION", .kwEndFunction),
   ("FUNCTION_BLOCK", .kwFunctionBlock), ("END_FUNCTION_BLOCK", .kwEndFunctionBlock),
   ("OR", .kwOr), ("XOR", .kwXor), ("AND", .kwAnd), ("NOT", .kwNot), ("MOD", .kwMod),
   ("IF", .kwIf), ("THEN", .kwThen), ("ELSIF", .kwElsif), ("ELSE", .kwElse), ("END_IF", .kwEndIf),
   ("CASE", .kwCase), ("END_CASE", .kwEndCase), ("FOR", .kwFor), ("TO", .kwTo), ("BY", .kwBy),
   ("DO", .kwDo), ("END_FOR", .kwEndFor), ("WHILE", .kwWhile), ("END_WHILE", .kwEndWhile),
   ("REPEAT", .kwRepeat), ("UNTIL", .kwUntil), ("END_REPEAT", .kwEndRepeat), ("EXIT", .kwExit),
   ("RETURN", .kwReturn)]

/-- The spelling of each mark and operator that is not a word. -/
def symbols : List (String × TokenKind) :=
  [("(", .leftParen), (")", .rightParen), ("[", .leftBracket), ("]", .rightBracket), (",", .comma),
   (";", .semicolon), (":", .colon), (".", .period), ("..", .range), ("#", .hash),
   (":=", .assignment), ("=>", .rightArrow), ("&", .kwAnd), ("=", .equal), ("<>", .notEqual),
   ("<", .less), (">", .greater), ("<=", .lessEqual), (">=", .greaterEqual), ("+", .plus),
   ("-", .minus), ("*", .star), ("/", .slash), ("**", .power)]

/-- What a message calls a token of the kind. -/
def describe : TokenKind → String
  | .integer | .basedInteger => "integer literal"
  | .real => "real literal"
  | .string => "string literal"
  | .duration => "duration literal"
  | .date => "date literal"
  | .timeOfDay => "time of day literal"
  | .dateAndTime => "date and time literal"
  | .directAddress => "direct address"
  | .identifier => "identifier"
  | .leftParen | .rightParen | .leftBracket | .rightBracket | .comma | .semicolon | .colon | .period
  | .range | .hash | .assignment | .rightArrow => "punctuation"
  | .kwOr | .kwXor | .kwAnd | .kwNot | .kwMod | .equal | .notEqual | .less | .greater | .lessEqual
  | .greaterEqual | .plus | .minus | .star | .slash | .power => "operator"
  | _ => "keyword"

end TokenKind

/-- A piece of a source text. -/
structure Token where
  kind : TokenKind
  text : String
  span : Span
  deriving DecidableEq, Repr, Inhabited

/-- The token as a message quotes it. -/
def Token.quoted (t : Token) : String :=
  s!"'{t.text}' ({t.kind.describe})"

end StructuredText
