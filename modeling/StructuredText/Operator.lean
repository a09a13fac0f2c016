-- SUMMARY: The operators of expressions and how they are evaluated.
import StructuredText.Value.Arithmetic

/-!
# Operators

Each operator is one operation on values, or the negation of one: `>=` is "not less than".
-/

namespace StructuredText

inductive UnaryOp where
  | negate | not
  deriving DecidableEq, Repr, Inhabited

inductive BinaryOp where
  | add | sub | mul | div | mod | pow
  | and | or | xor
  | eq | ne | lt | gt | le | ge
  deriving DecidableEq, Repr, Inhabited

namespace UnaryOp

def operation : UnaryOp → Operation
  | .negate => .negate
  | .not => .not

def evaluate (op : UnaryOp) (operand : Value) : Except ValueError Value :=
  match op with
  | .negate => operand.negate
  | .not => operand.complement

end UnaryOp

namespace BinaryOp

/-- The operator compares its operands and results in a boolean. -/
def isComparison : BinaryOp → Bool
  | .eq | .ne | .lt | .gt | .le | .ge => true
  | _ => false

/-- The operation that the left operand has to have. -/
def operation : BinaryOp → Operation
  | .add => .plus
  | .sub => .minus
  | .mul => .multiply
  | .div => .divide
  | .mod => .modulus
  | .pow => .power
  | .and => .and
  | .or => .or
  | .xor => .xor
  | .eq | .ne => .equals
  | .lt | .ge => .lesser
  | .gt | .le => .greater

/-- The result for two operands. Reals are equal when they lie closer than `epsilon`. -/
def evaluate (op : BinaryOp) (left right : Value) (epsilon : Float) : Except ValueError Value :=
  match op with
  | .eq => do pure (.bool (← left.equals right epsilon))
  | .ne => do pure (.bool !(← left.equals right epsilon))
  | .lt => do pure (.bool (← left.lesser right))
  | .gt => do pure (.bool (← left.greater right))
  | .le => do pure (.bool !(← left.greater right))
  | .ge => do pure (.bool !(← left.lesser right))
  | .and | .or | .xor => Value.logical op.operation left right
  | _ => Value.arithmetic op.operation left right

end BinaryOp

end StructuredText
