-- SUMMARY: Spelling expressions with the parentheses that the levels of the operators ask for.
import StructuredText.Literal
import StructuredText.Proofs.Printing

/-!
# Spelling expressions

The operators have levels, and the operator of the higher level takes an operand that stands between two. Between
operators of one level the left one takes it, except between powers. An operand stands in parentheses if an operator
beside it would take a part of it otherwise. More parentheses than these may be written.
-/

namespace StructuredText

open Word (mark ident)

-- ---------------------------------------------------------------------------
-- Levels
-- ---------------------------------------------------------------------------

namespace BinaryOp

def level : BinaryOp → Nat
  | .or => 0
  | .xor => 1
  | .and => 2
  | .eq | .ne => 3
  | .lt | .gt | .le | .ge => 4
  | .add | .sub => 5
  | .mul | .div | .mod => 6
  | .pow => 8

/-- The lowest level of a left operand without parentheses. Powers do not group to the left. -/
def leftLevel (op : BinaryOp) : Nat := if op = .pow then op.level + 1 else op.level

/-- The lowest level of a right operand without parentheses. Only powers group to the right. -/
def rightLevel (op : BinaryOp) : Nat := if op = .pow then op.level else op.level + 1

end BinaryOp

/-- A sign and `NOT` stand between the products and the powers. -/
def unaryLevel : Nat := 7

/-- The level of what has no operator outside of parentheses. -/
def atomLevel : Nat := 9

namespace BinaryOp

theorem level_lt_atomLevel (op : BinaryOp) : op.level < atomLevel := by
  cases op <;> decide

theorem level_le_leftLevel (op : BinaryOp) : op.level ≤ op.leftLevel := by
  cases op <;> decide

theorem level_le_rightLevel (op : BinaryOp) : op.level ≤ op.rightLevel := by
  cases op <;> decide

/-- No operator asks for more of its right operand than that it is a power. -/
theorem rightLevel_le_pow (op : BinaryOp) : op.rightLevel ≤ pow.level := by
  cases op <;> decide

/-- An operator whose left operand may be another operator without parentheses does not belong to that one. -/
theorem lt_rightLevel_of_leftLevel_le {op op' : BinaryOp} (h : op.leftLevel ≤ op'.level) : op.level < op'.rightLevel := by
  revert h
  cases op <;> cases op' <;> decide

end BinaryOp

namespace Tree

def Expr.level : Expr → Nat
  | .unary _ _ _ => unaryLevel
  | .binary op _ _ _ => op.level
  | _ => atomLevel

def Expr.isUnary : Expr → Bool
  | .unary _ _ _ => true
  | _ => false

-- ---------------------------------------------------------------------------
-- Words
-- ---------------------------------------------------------------------------

/-- The words of an operand, in parentheses unless it may stand without them. -/
def bareIf (bare : Bool) (ws : List Word) : List Word := if bare then ws else between .leftParen .rightParen ws

/-- An operand of a sign that may stand without parentheses. -/
def Expr.fitsUnary (e : Expr) : Bool := unaryLevel ≤ e.level

/-- A left operand that may stand without parentheses. -/
def Expr.fitsLeft (op : BinaryOp) (e : Expr) : Bool := op.leftLevel ≤ e.level

/-- A right operand that may stand without parentheses. A sign after an operator has no other operand than its own. -/
def Expr.fitsRight (op : BinaryOp) (e : Expr) : Bool := e.isUnary || op.rightLevel ≤ e.level

mutual

/-- The words of an expression, with parentheses around the operands that need them and around those in `also`. -/
def Expr.spelled (also : Expr → Bool) : Expr → List Word
  | .constant v _ => v.words
  | .typed type v _ => ident type :: mark .hash :: v.words
  | .var path => path.spelled also
  | .unary op e _ => mark op.token :: bareIf (e.fitsUnary && !also e) (e.spelled also)
  | .binary op left right _ =>
    bareIf (left.fitsLeft op && !also left) (left.spelled also) ++
      mark op.token :: bareIf (right.fitsRight op && !also right) (right.spelled also)
  | .call n args _ => ident n :: between .leftParen .rightParen (joined .comma (Arg.spelledAll also args))

def Path.spelled (also : Expr → Bool) : Path → List Word
  | .mk segments _ => joined .period (Segment.spelledAll also segments)

def Segment.spelledAll (also : Expr → Bool) : List Segment → List (List Word)
  | [] => []
  | .mk n indexes _ :: segments =>
    (ident n :: indexWords (Expr.spelledAll also indexes)) :: Segment.spelledAll also segments

def Expr.spelledAll (also : Expr → Bool) : List Expr → List (List Word)
  | [] => []
  | e :: es => e.spelled also :: Expr.spelledAll also es

def Arg.spelledAll (also : Expr → Bool) : List Arg → List (List Word)
  | [] => []
  | .mk none value _ :: args => value.spelled also :: Arg.spelledAll also args
  | .mk (some n) value output :: args =>
    (ident n :: mark (if output then .rightArrow else .assignment) :: value.spelled also) :: Arg.spelledAll also args

end

@[simp] theorem Expr.spelledAll_eq (also : Expr → Bool) (es : List Expr) :
    Expr.spelledAll also es = es.map (·.spelled also) := by
  induction es with
  | nil => rfl
  | cons e es ih => simp [Expr.spelledAll, ih]

namespace Segment

def spelled (also : Expr → Bool) : Segment → List Word
  | .mk n indexes _ => ident n :: indexWords (indexes.map (·.spelled also))

@[simp] theorem spelledAll_eq (also : Expr → Bool) (segments : List Segment) :
    spelledAll also segments = segments.map (·.spelled also) := by
  induction segments with
  | nil => rfl
  | cons s segments ih => cases s; simp [spelledAll, spelled, ih]

end Segment

namespace Arg

def spelled (also : Expr → Bool) : Arg → List Word
  | .mk none value _ => value.spelled also
  | .mk (some n) value output => ident n :: mark (if output then .rightArrow else .assignment) :: value.spelled also

@[simp] theorem spelledAll_eq (also : Expr → Bool) (args : List Arg) :
    spelledAll also args = args.map (·.spelled also) := by
  induction args with
  | nil => rfl
  | cons arg args ih =>
    obtain ⟨_ | n, value, output⟩ := arg <;> simp [spelledAll, spelled, ih]

end Arg

-- ---------------------------------------------------------------------------
-- Expressions that can be spelled
-- ---------------------------------------------------------------------------

/-- A boolean or a numeral. The sign of a negative number is an operator. -/
def isNumeral : Value → Bool
  | .bool _ => true
  | .integer i => 0 ≤ i && i.natAbs < Literal.integerLimit
  | _ => false

/-- A constant that may stand after the name of its type, with its sign. -/
def isTypedNumeral : Value → Bool
  | .bool _ | .enumeration _ => true
  | .integer i => i.natAbs < Literal.integerLimit
  | _ => false

mutual

/-- The expression is made of names, booleans, numerals, calls and operators. A variable has a name, and an argument that
receives an output is a variable with the name of the output. -/
def Expr.isSpelled : Expr → Bool
  | .constant v _ => isNumeral v
  | .typed _ v _ => isTypedNumeral v
  | .var path => path.isSpelled
  | .unary _ e _ => e.isSpelled
  | .binary _ left right _ => left.isSpelled && right.isSpelled
  | .call _ args _ => Arg.areSpelled args

def Path.isSpelled : Path → Bool
  | .mk segments _ => !segments.isEmpty && Segment.areSpelled segments

def Segment.areSpelled : List Segment → Bool
  | [] => true
  | .mk _ indexes _ :: segments => Expr.areSpelled indexes && Segment.areSpelled segments

def Expr.areSpelled : List Expr → Bool
  | [] => true
  | e :: es => e.isSpelled && Expr.areSpelled es

def Arg.areSpelled : List Arg → Bool
  | [] => true
  | .mk _ value false :: args => value.isSpelled && Arg.areSpelled args
  | .mk (some _) (.var path) true :: args => path.isSpelled && Arg.areSpelled args
  | .mk _ _ true :: _ => false

end

end Tree

end StructuredText
