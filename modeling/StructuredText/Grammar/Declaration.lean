-- SUMMARY: The grammar of declarations, and of whole sources.
import StructuredText.Grammar.Statement

/-!
# Declarations

A source is a list of type blocks, blocks of global variables, and program organization units.
-/

namespace StructuredText.Grammar

open StructuredText.Parser

/-- A declaration with the semicolon after it. -/
def ended (p : Parser α) : Parser α := do
  let a ← p
  let _ ← token .semicolon
  pure a

-- ---------------------------------------------------------------------------
-- Types
-- ---------------------------------------------------------------------------

def member : Parser Tree.Member := do
  let name ← identifier
  let _ ← token .colon
  let type ← typeExpr
  pure ⟨name, type, ← optional initializer⟩

def structBody : Parser Tree.TypeBody := do
  let _ ← token .kwStruct
  let members ← some1 (ended member)
  let _ ← token .kwEndStruct
  pure (.struct members)

def enumerationBody : Parser Tree.TypeBody := do
  let values ← listed .leftParen .rightParen identifier
  let initial ← optional (do let _ ← token .assignment; identifier)
  pure (.enumeration values initial)

def typeBody : Parser Tree.TypeBody :=
  structBody
  <|> enumerationBody
  <|> (do
    let (base, bounds) ← subrange
    pure (.subrange base bounds.min bounds.max (← optional initializer)))
  <|> (do
    let (element, dimensions) ← arrayOf typeExpr
    pure (.array element dimensions (← optional initializer)))
  <|> (do
    let parent ← identifier
    pure (.alias parent (← optional initializer)))

def typeDecl : Parser Tree.TypeDecl := do
  let name ← identifier
  let _ ← token .colon
  pure ⟨name, ← typeBody⟩

def typeBlock : Parser (List Tree.TypeDecl) := do
  let _ ← token .kwType
  let declarations ← some1 (ended typeDecl)
  let _ ← token .kwEndType
  pure declarations

-- ---------------------------------------------------------------------------
-- Variables
-- ---------------------------------------------------------------------------

def «section» : Parser Section :=
  (do let _ ← token .kwVar; pure .own)
  <|> (do let _ ← token .kwVarInput; pure .input)
  <|> (do let _ ← token .kwVarOutput; pure .output)
  <|> (do let _ ← token .kwVarInOut; pure .inOut)
  <|> (do let _ ← token .kwVarExternal; pure .external)
  <|> (do let _ ← token .kwVarTemp; pure .temp)

/-- Any number of qualifiers in any order. -/
def qualifiers : Parser Tree.Qualifiers := do
  let all ← many (
    (do let _ ← token .kwConstant; pure { constant := true })
    <|> (do let _ ← token .kwRetain; pure { retain := true }))
  pure (all.foldl .union {})

/-- The text of a direct address and where it stands. -/
def location : Parser (String × Span) := do
  let _ ← token .kwAt
  let t ← token .directAddress
  pure (t.text, t.span)

def varLine : Parser Tree.VarLine := do
  let names ← sepBy1 identifier (token .comma)
  let address ← optional location
  let _ ← token .colon
  let type ← typeExpr
  pure ⟨names, address, type, ← optional initializer⟩

/-- What follows the keyword of a block of variables. -/
def varBlockRest (section' : Section) : Parser Tree.VarBlock := do
  let qualifiers ← qualifiers
  let lines ← many (ended varLine)
  let _ ← token .kwEndVar
  pure ⟨section', qualifiers, lines⟩

def varBlock : Parser Tree.VarBlock := do varBlockRest (← «section»)

def globalBlock : Parser Tree.VarBlock := do
  let _ ← token .kwVarGlobal
  varBlockRest .global

-- ---------------------------------------------------------------------------
-- Program organization units
-- ---------------------------------------------------------------------------

/-- The variables and the statements of a unit up to its closing keyword. -/
def pouRest (kind : PouKind) (name : Ident) (returns : Option Tree.TypeExpr) (closing : TokenKind) :
    Parser Tree.Pou := do
  let blocks ← many varBlock
  let body ← statements
  let _ ← token closing
  pure ⟨kind, name, returns, blocks, body⟩

def pou : Parser Tree.Pou :=
  (do
    let _ ← token .kwProgram
    pouRest .program (← identifier) none .kwEndProgram)
  <|> (do
    let _ ← token .kwFunctionBlock
    pouRest .functionBlock (← identifier) none .kwEndFunctionBlock)
  <|> (do
    let _ ← token .kwFunction
    let name ← identifier
    let _ ← token .colon
    let returns ← typeExpr
    pouRest .function name (some returns) .kwEndFunction)

-- ---------------------------------------------------------------------------
-- Sources
-- ---------------------------------------------------------------------------

def element : Parser Tree.Element :=
  Tree.Element.types <$> typeBlock <|> Tree.Element.globals <$> globalBlock <|> Tree.Element.pou <$> pou

def source : Parser (List Tree.Element) := many element

end StructuredText.Grammar
