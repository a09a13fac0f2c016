-- SUMMARY: The grammar of names, constants, initial values and types.
import StructuredText.Literal
import StructuredText.Parser
import StructuredText.Tree

/-!
# Names, constants and types

Constants may have a sign in front. An initial value is a constant, the name of an enumerated value, or a
list of such values for an array or a structure. Rules that nest take the rule for what is inside as an
argument and are closed by a bound on the depth.
-/

namespace StructuredText.Grammar

open StructuredText.Parser

def identifier : Parser Ident := do
  let t ← token .identifier
  pure ⟨t.text, t.span⟩

/-- Items between two marks with commas among them. -/
def listed (opening closing : TokenKind) (p : Parser α) : Parser (List α) := do
  let _ ← token opening
  let items ← sepBy1 p (token .comma)
  let _ ← token closing
  pure items

-- ---------------------------------------------------------------------------
-- Constants
-- ---------------------------------------------------------------------------

/-- The value of a literal token of the kind. -/
def literal (k : TokenKind) : Parser Value := do
  let t ← token k
  match Literal.value? t with
  | some (.ok v) => pure v
  | _ => fail

def integer : Parser Int := do
  match ← literal .integer <|> literal .basedInteger with
  | .integer i => pure i
  | _ => fail

def signedInteger : Parser Int :=
  (do let _ ← token .minus; pure (-(← integer)))
  <|> (do let _ ← optional (token .plus); integer)

def real : Parser Float := do
  match ← literal .real with
  | .real x => pure x
  | _ => fail

/-- A constant that does not start with a sign. -/
def unsignedConstant : Parser Value :=
  Value.real <$> real
  <|> Value.integer <$> integer
  <|> (do let _ ← token .kwTrue; pure (.bool true))
  <|> (do let _ ← token .kwFalse; pure (.bool false))
  <|> literal .string
  <|> literal .duration
  <|> literal .date
  <|> literal .timeOfDay
  <|> literal .dateAndTime

def constant : Parser Value :=
  (do let _ ← token .minus; pure (.real (-(← real))))
  <|> (do let _ ← token .minus; pure (.integer (-(← integer))))
  <|> (do let _ ← optional (token .plus); unsignedConstant)

def enumerated : Parser Value := Value.enumeration <$> identifier

/-- What follows the mark in a literal with a type, such as `INT#5` or `Color#Red`. -/
def typedValue : Parser Value := constant <|> enumerated

/-- A literal with its type. -/
def typedLiteral : Parser (Ident × Value) := do
  let type ← identifier
  let _ ← token .hash
  pure (type, ← typedValue)

-- ---------------------------------------------------------------------------
-- Initial values
-- ---------------------------------------------------------------------------

/-- A repeat count with the value to repeat in parentheses, or one value. -/
def arrayItem (value : Parser Value) : Parser (Nat × Value) :=
  (do
    let count ← integer
    let _ ← token .leftParen
    let v ← value
    let _ ← token .rightParen
    if count.toNat ≤ maxCount then pure (count.toNat, v)
    else failExpecting { repeatCount := true })
  <|> (do pure (1, ← value))

def memberItem (value : Parser Value) : Parser (Ident × Value) := do
  let name ← identifier
  let _ ← token .assignment
  pure (name, ← value)

def initialValueWithin : (depth : Nat) → Parser Value
  | 0 => fail
  | depth + 1 =>
    let value := initialValueWithin depth
    Value.arrayInit <$> listed .leftBracket .rightBracket (arrayItem value)
    <|> Value.struct <$> listed .leftParen .rightParen (memberItem value)
    <|> Prod.snd <$> typedLiteral
    <|> constant
    <|> enumerated

def initialValue : Parser Value := bounded initialValueWithin

/-- An initial value after the sign for assignment. -/
def initializer : Parser Value := do
  let _ ← token .assignment
  initialValue

-- ---------------------------------------------------------------------------
-- Types
-- ---------------------------------------------------------------------------

/-- Two bounds such as `-5..5`. -/
def range : Parser Dimension := do
  let min ← signedInteger
  let _ ← token .range
  pure ⟨min, ← signedInteger⟩

/-- An integer type with its bounds in parentheses. -/
def subrange : Parser (Ident × Dimension) := do
  let base ← identifier
  let _ ← token .leftParen
  let bounds ← range
  let _ ← token .rightParen
  pure (base, bounds)

def arrayOf (element : Parser Tree.TypeExpr) : Parser (Tree.TypeExpr × List Dimension) := do
  let _ ← token .kwArray
  let dimensions ← listed .leftBracket .rightBracket range
  let _ ← token .kwOf
  pure (← element, dimensions)

def typeExprWithin : (depth : Nat) → Parser Tree.TypeExpr
  | 0 => fail
  | depth + 1 =>
    (do let (element, dimensions) ← arrayOf (typeExprWithin depth); pure (.array element dimensions))
    <|> (do let (base, bounds) ← subrange; pure (.subrange base bounds.min bounds.max))
    <|> Tree.TypeExpr.named <$> identifier

/-- A type where a variable is declared. -/
def typeExpr : Parser Tree.TypeExpr := bounded typeExprWithin

end StructuredText.Grammar
