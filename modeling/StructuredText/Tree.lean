-- SUMMARY: The tree of a source text: declarations, statements and expressions as they are written.
import StructuredText.Dimension
import StructuredText.Operator

/-!
# Source trees

The grammar turns tokens into a tree. Names in the tree are not looked up yet, and types may be written
in place where a variable is declared.
-/

namespace StructuredText

/-- The part of a declaration in which a variable is declared. -/
inductive Section where
  | input | output | inOut | own | temp | external | global
  /-- Holds the result of a function. -/
  | result
  deriving DecidableEq, Repr, Inhabited

namespace Section

/-- Callers set the variable by an argument. -/
def isInput : Section → Bool
  | .input | .inOut => true
  | _ => false

/-- Callers get the variable into an argument. -/
def isOutput : Section → Bool
  | .output | .inOut => true
  | _ => false

/-- The variable is part of what others see. -/
def isInterface (s : Section) : Bool := s.isInput || s.isOutput

end Section

/-- The kinds of program organization units. -/
inductive PouKind where
  | program | function | functionBlock
  deriving DecidableEq, Repr, Inhabited

namespace Tree

-- ---------------------------------------------------------------------------
-- Expressions
-- ---------------------------------------------------------------------------

mutual

inductive Expr where
  | constant (value : Value) (span : Span)
  /-- A literal with its type, such as `INT#5`. -/
  | typed (type : Ident) (value : Value) (span : Span)
  | var (path : Path)
  | unary (op : UnaryOp) (operand : Expr) (span : Span)
  | binary (op : BinaryOp) (left right : Expr) (span : Span)
  | call (name : Ident) (args : List Arg) (span : Span)

/-- A variable such as `P.a[i, j]`. -/
inductive Path where
  | mk (segments : List Segment) (span : Span)

/-- One name of a variable with its array indexes. -/
inductive Segment where
  | mk (name : Ident) (indexes : List Expr) (span : Span)

/-- An argument: by position `e`, by name `p := e`, or for an output `p => v`. -/
inductive Arg where
  | mk (name : Option Ident) (value : Expr) (output : Bool)

end

instance : Inhabited Expr := ⟨.constant .void .origin⟩

def Path.span : Path → Span
  | .mk _ span => span

namespace Expr

def span : Expr → Span
  | .constant _ s | .typed _ _ s | .unary _ _ s | .binary _ _ _ s | .call _ _ s => s
  | .var path => path.span

/-- An operator in front of an operand. -/
def ofUnary (op : UnaryOp) (start : Span) (operand : Expr) : Expr :=
  .unary op operand (.join start operand.span)

/-- An operator between two operands. Parentheses around them do not count. -/
def ofBinary (op : BinaryOp) (left right : Expr) : Expr :=
  .binary op left right (.join left.span right.span)

end Expr

-- ---------------------------------------------------------------------------
-- Statements
-- ---------------------------------------------------------------------------

inductive CaseLabel where
  | value (e : Expr)
  | range (low high : Expr)
  deriving Inhabited

inductive Stmt where
  | assign (target : Path) (value : Expr) (span : Span)
  | call (name : Ident) (args : List Arg) (span : Span)
  | ifThen (branches : List (Expr × List Stmt)) (otherwise : Option (List Stmt)) (span : Span)
  | case (selector : Expr) (arms : List (List CaseLabel × List Stmt))
      (otherwise : Option (List Stmt)) (span : Span)
  | forLoop (control : Path) (start stop : Expr) (step : Option Expr) (body : List Stmt)
      (span : Span)
  | whileLoop (condition : Expr) (body : List Stmt) (span : Span)
  | repeatLoop (body : List Stmt) (condition : Expr) (span : Span)
  | exit (span : Span)
  | ret (span : Span)
  deriving Inhabited

def Stmt.span : Stmt → Span
  | .assign _ _ s | .call _ _ s | .ifThen _ _ s | .case _ _ _ s | .forLoop _ _ _ _ _ s
  | .whileLoop _ _ s | .repeatLoop _ _ s | .exit s | .ret s => s

/-- An expression to show or an assignment to make. -/
inductive Query where
  | read (e : Expr)
  | assign (target : Path) (value : Expr) (span : Span)
  deriving Inhabited

-- ---------------------------------------------------------------------------
-- Declarations
-- ---------------------------------------------------------------------------

/-- A type where a variable or a member is declared. -/
inductive TypeExpr where
  | named (name : Ident)
  | subrange (base : Ident) (min max : Int)
  | array (element : TypeExpr) (dimensions : List Dimension)
  deriving Inhabited

structure Member where
  name : Ident
  type : TypeExpr
  initial : Option Value
  deriving Inhabited

inductive TypeBody where
  | alias (parent : Ident) (initial : Option Value)
  | enumeration (values : List Ident) (initial : Option Ident)
  | subrange (base : Ident) (min max : Int) (initial : Option Value)
  | array (element : TypeExpr) (dimensions : List Dimension) (initial : Option Value)
  | struct (members : List Member)
  deriving Inhabited

structure TypeDecl where
  name : Ident
  body : TypeBody
  deriving Inhabited

/-- What is said of all variables of a block, as in `VAR CONSTANT`. -/
structure Qualifiers where
  constant : Bool := false
  retain : Bool := false
  deriving DecidableEq, Repr, Inhabited

def Qualifiers.union (a b : Qualifiers) : Qualifiers :=
  ⟨a.constant || b.constant, a.retain || b.retain⟩

/-- One line of a block, which may declare several variables. -/
structure VarLine where
  names : List Ident
  /-- The text of a direct address and where it stands. -/
  address : Option (String × Span)
  type : TypeExpr
  initial : Option Value
  deriving Inhabited

structure VarBlock where
  «section» : Section
  qualifiers : Qualifiers
  lines : List VarLine
  deriving Inhabited

/-- A program, function or function block. -/
structure Pou where
  kind : PouKind
  name : Ident
  /-- The type of the result of a function. -/
  returns : Option TypeExpr
  blocks : List VarBlock
  body : List Stmt
  deriving Inhabited

/-- A declaration at the top level of a source. -/
inductive Element where
  | types (declarations : List TypeDecl)
  | globals (block : VarBlock)
  | pou (p : Pou)
  deriving Inhabited

end Tree

end StructuredText
