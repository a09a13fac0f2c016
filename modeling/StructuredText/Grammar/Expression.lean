-- SUMMARY: The grammar of expressions, with the precedence of the operators.
import StructuredText.Grammar.Constant

/-!
# Expressions

Operators bind the tighter the higher their level is: `OR`, `XOR`, `AND`, then equality, order, sums,
products, the sign and `NOT`, and powers. The operators between two operands group to the left, except
that powers group to the right. A sign or `NOT` may stand in front of any operand, whatever its level.
-/

namespace StructuredText.Grammar

open StructuredText.Parser

-- ---------------------------------------------------------------------------
-- Operators
-- ---------------------------------------------------------------------------

/-- An operator between operands: its level and the lowest level in its right operand. -/
structure Binding where
  op : BinaryOp
  level : Nat
  right : Nat
  deriving DecidableEq, Repr, Inhabited

/-- An operator that groups to the left. -/
def Binding.left (op : BinaryOp) (level : Nat) : Binding := ⟨op, level, level + 1⟩

def binding? : TokenKind → Option Binding
  | .kwOr => some (.left .or 0)
  | .kwXor => some (.left .xor 1)
  | .kwAnd => some (.left .and 2)
  | .equal => some (.left .eq 3)
  | .notEqual => some (.left .ne 3)
  | .less => some (.left .lt 4)
  | .greater => some (.left .gt 4)
  | .lessEqual => some (.left .le 4)
  | .greaterEqual => some (.left .ge 4)
  | .plus => some (.left .add 5)
  | .minus => some (.left .sub 5)
  | .star => some (.left .mul 6)
  | .slash => some (.left .div 6)
  | .kwMod => some (.left .mod 6)
  | .power => some ⟨.pow, 8, 8⟩
  | _ => none

/-- The operator that a token stands for in front of an operand. -/
def unary? : TokenKind → Option UnaryOp
  | .minus => some .negate
  | .kwNot => some .not
  | _ => none

/-- The lowest level in the operand of a sign or `NOT`. -/
def unaryOperandLevel : Nat := 8

/-- An operator between operands of at least the level. -/
def binding (level : Nat) : Parser Binding := do
  let t ← satisfy fun t => (binding? t.kind).any (level ≤ ·.level)
  match binding? t.kind with
  | some b => pure b
  | none => fail

/-- A sign or `NOT`, and where it stands. -/
def unary : Parser (UnaryOp × Span) := do
  let t ← satisfy fun t => (unary? t.kind).isSome
  match unary? t.kind with
  | some op => pure (op, t.span)
  | none => fail

-- ---------------------------------------------------------------------------
-- Operands
-- ---------------------------------------------------------------------------

def segment (expr : Parser Tree.Expr) : Parser Tree.Segment := do
  let ((name, indexes), span) ← spanned do
    let name ← identifier
    let indexes ← optional (listed .leftBracket .rightBracket expr)
    pure (name, indexes.getD [])
  pure (.mk name indexes span)

/-- A variable such as `P.a[i, j]`. -/
def path (expr : Parser Tree.Expr) : Parser Tree.Path := do
  let (segments, span) ← spanned (sepBy1 (segment expr) (token .period))
  pure (.mk segments span)

def argument (expr : Parser Tree.Expr) : Parser Tree.Arg :=
  (do
    let name ← identifier
    let _ ← token .assignment
    pure (.mk (some name) (← expr) false))
  <|> (do
    let name ← identifier
    let _ ← token .rightArrow
    pure (.mk (some name) (.var (← path expr)) true))
  <|> (do pure (.mk none (← expr) false))

def call (expr : Parser Tree.Expr) : Parser (Ident × List Tree.Arg) := do
  let name ← identifier
  let _ ← token .leftParen
  let args ← sepBy (argument expr) (token .comma)
  let _ ← token .rightParen
  pure (name, args)

/-- An operand without an operator in front. -/
def primary (expr : Parser Tree.Expr) : Parser Tree.Expr :=
  (do
    let _ ← token .leftParen
    let e ← expr
    let _ ← token .rightParen
    pure e)
  <|> (do let ((type, value), span) ← spanned typedLiteral; pure (.typed type value span))
  <|> (do let (value, span) ← spanned unsignedConstant; pure (.constant value span))
  <|> (do let ((name, args), span) ← spanned (call expr); pure (.call name args span))
  <|> Tree.Expr.var <$> path expr

-- ---------------------------------------------------------------------------
-- Expressions
-- ---------------------------------------------------------------------------

/-- Extends an operand by operators of at least the level, as long as their right operands follow. -/
def extend (operand : Nat → Parser Tree.Expr) (level : Nat) (left : Tree.Expr) : (bound : Nat) → Parser Tree.Expr
  | 0 => pure left
  | bound + 1 => (do
      let b ← binding level
      let right ← operand b.right
      extend operand level (.ofBinary b.op left right) bound) <|> pure left

/-- An expression whose operators between operands have at least the level. -/
def expressionWithin : (depth : Nat) → (level : Nat) → Parser Tree.Expr
  | 0, _ => fail
  | depth + 1, level => do
    let left ←
      (do
        let (op, start) ← unary
        let operand ← expressionWithin depth unaryOperandLevel
        pure (.ofUnary op start operand))
      <|> primary (expressionWithin depth 0)
    bounded (extend (expressionWithin depth) level left)

def expression : Parser Tree.Expr := bounded (expressionWithin · 0)

/-- A variable outside of an expression. -/
def variablePath : Parser Tree.Path := path expression

end StructuredText.Grammar
