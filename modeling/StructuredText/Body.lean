-- SUMMARY: Bodies: the statements and expressions that are linked and executed, and their nodes.
import StructuredText.Cursor
import StructuredText.Operator
import StructuredText.RefPool
import StructuredText.StandardFunction
import StructuredText.StorageClass

/-!
# Bodies

A body is the tree of statements of a program, function or function block, or of a query. Every node has an
identifier, and a node that is part of another one has the smaller identifier. Linking fills in what names
stand for and what is known about the result of each expression.
-/

namespace StructuredText

-- ---------------------------------------------------------------------------
-- Nodes
-- ---------------------------------------------------------------------------

structure NodeInfo where
  id : NodeId
  span : Span
  /-- The type of the result. Literals without a type and what is computed from them have none. -/
  type? : Option TypeId := none
  storage : StorageClass := .result
  deriving DecidableEq, Repr, Inhabited

/-- The variable that a reference starts with. -/
inductive Root where
  /-- A variable of the unit that the body belongs to. -/
  | own (position : Nat)
  | global (position : Nat)
  /-- A program, of which a variable follows. -/
  | program (pou : Nat)
  deriving DecidableEq, Repr, Inhabited

/-- How the next part of a reference is reached. -/
inductive Selector where
  | member (position : Nat)
  /-- An array element, by the indexes from `first` on. -/
  | element (dimensions : List Dimension) (first count : Nat)
  /-- A variable of a program or a function block. -/
  | var (position : Nat)
  deriving DecidableEq, Repr, Inhabited

/-- A selector whose indexes are evaluated. -/
inductive Hop where
  | child (position : Nat)
  | var (position : Nat)
  deriving DecidableEq, Repr, Inhabited

/-- One name of a reference and the number of its array indexes. -/
structure Segment where
  name : Ident
  indexes : Nat
  span : Span
  deriving Repr, Inhabited

/-- A reference apart from its indexes, which are children of the node. -/
structure VarPath where
  segments : List Segment
  root : Option Root := none
  selectors : List Selector := []
  /-- The evaluated selectors, when they do not depend on anything. -/
  fixed : Option (List Hop) := none
  deriving Repr, Inhabited

namespace VarPath

/-- The names of the reference, such as `P.fb.Q`. -/
def text (p : VarPath) : String := ".".intercalate (p.segments.map (·.name.text))

/-- The reference is a single name without indexes. -/
def isSimple (p : VarPath) : Bool :=
  p.segments.length = 1 && p.segments.all (·.indexes = 0)

end VarPath

/-- What a call invokes. -/
inductive Callee where
  | function (pou : Nat)
  /-- The function block instance that a variable holds. -/
  | instance (root : Root)
  | standard (f : StandardFunction)
  deriving DecidableEq, Repr, Inhabited

/-- What a name in a body stands for. -/
inductive Symbol where
  | root (r : Root)
  /-- A value of the enumerated type. -/
  | enumerated (type : TypeId)
  deriving DecidableEq, Repr, Inhabited

/-- How an argument is marked in a call. -/
structure ArgLabel where
  name : Option Ident
  output : Bool
  deriving Repr, Inhabited

/-- An argument matched to a parameter. -/
structure ArgBinding where
  param : Nat
  /-- The position of the argument in the call. -/
  arg : Nat
  /-- The argument is copied into the parameter before the call. -/
  input : Bool
  /-- The parameter is copied into the argument after the call. -/
  output : Bool
  deriving DecidableEq, Repr, Inhabited

inductive Expr where
  /-- A constant, with the name of its type when it is written, as in `INT#5`. -/
  | literal (info : NodeInfo) (value : Value) (type : Option Ident)
  | var (info : NodeInfo) (path : VarPath) (indexes : List Expr)
  | unary (info : NodeInfo) (op : UnaryOp) (operand : Expr)
  | binary (info : NodeInfo) (op : BinaryOp) (left right : Expr)
  | call (info : NodeInfo) (name : Ident) (labels : List ArgLabel) (args : List Expr)
      (callee : Option Callee) (bindings : List ArgBinding)
  deriving Inhabited

inductive CaseLabel where
  | value (e : Expr)
  | range (low high : Expr)
  deriving Inhabited

inductive Stmt where
  /-- A call, whose result is dropped. -/
  | eval (e : Expr)
  | assign (info : NodeInfo) (target value : Expr)
  | block (info : NodeInfo) (statements : List Stmt)
  | ifThen (info : NodeInfo) (branches : List (Expr × Stmt)) (otherwise : Option Stmt)
  | case (info : NodeInfo) (selector : Expr) (arms : List (List CaseLabel × Stmt))
      (otherwise : Option Stmt)
  | forLoop (info : NodeInfo) (control start stop : Expr) (step : Option Expr) (body : Stmt)
  | whileLoop (info : NodeInfo) (condition : Expr) (body : Stmt)
  | repeatLoop (info : NodeInfo) (body : Stmt) (condition : Expr)
  | exit (info : NodeInfo)
  | ret (info : NodeInfo)
  deriving Inhabited

-- ---------------------------------------------------------------------------
-- Expressions
-- ---------------------------------------------------------------------------

namespace Expr

def info : Expr → NodeInfo
  | .literal i _ _ | .var i _ _ | .unary i _ _ | .binary i _ _ _ | .call i _ _ _ _ _ => i

def span (e : Expr) : Span := e.info.span

def isLiteral : Expr → Bool
  | .literal .. => true
  | _ => false

/-- The reference of a variable. -/
def path? : Expr → Option VarPath
  | .var _ path _ => some path
  | _ => none

mutual

/-- The nodes of the expression, each one after the nodes that are part of it. -/
def nodes : Expr → List Expr
  | .literal info v t => [.literal info v t]
  | .var info path indexes => nodesOfAll indexes ++ [.var info path indexes]
  | .unary info op e => e.nodes ++ [.unary info op e]
  | .binary info op l r => l.nodes ++ r.nodes ++ [.binary info op l r]
  | .call info name labels args callee bindings =>
    nodesOfAll args ++ [.call info name labels args callee bindings]

def nodesOfAll : List Expr → List Expr
  | [] => []
  | e :: es => e.nodes ++ nodesOfAll es

end

mutual

/-- The node with the identifier. -/
def node? (id : NodeId) : Expr → Option Expr
  | .literal info v t => if info.id = id then some (.literal info v t) else none
  | .var info path indexes =>
    if info.id = id then some (.var info path indexes) else nodeOfAll? id indexes
  | .unary info op e => if info.id = id then some (.unary info op e) else e.node? id
  | .binary info op l r =>
    if info.id = id then some (.binary info op l r) else l.node? id <|> r.node? id
  | .call info name labels args callee bindings =>
    if info.id = id then some (.call info name labels args callee bindings) else nodeOfAll? id args

def nodeOfAll? (id : NodeId) : List Expr → Option Expr
  | [] => none
  | e :: es => e.node? id <|> nodeOfAll? id es

end

variable {m : Type → Type} [Monad m]

mutual

/-- Replaces every node, each one after the nodes that are part of it. -/
def mapNodesM (f : Expr → m Expr) : Expr → m Expr
  | .literal info v t => f (.literal info v t)
  | .var info path indexes => do f (.var info path (← mapAllM f indexes))
  | .unary info op e => do f (.unary info op (← e.mapNodesM f))
  | .binary info op l r => do
    let l ← l.mapNodesM f
    f (.binary info op l (← r.mapNodesM f))
  | .call info name labels args callee bindings => do
    f (.call info name labels (← mapAllM f args) callee bindings)

def mapAllM (f : Expr → m Expr) : List Expr → m (List Expr)
  | [] => pure []
  | e :: es => do
    let e ← e.mapNodesM f
    pure (e :: (← mapAllM f es))

end

end Expr

-- ---------------------------------------------------------------------------
-- Statements
-- ---------------------------------------------------------------------------

namespace CaseLabel

def exprs : CaseLabel → List Expr
  | .value e => [e]
  | .range low high => [low, high]

def mapExprsM [Monad m] (f : Expr → m Expr) : CaseLabel → m CaseLabel
  | .value e => do pure (.value (← f e))
  | .range low high => do
    let low ← f low
    pure (.range low (← f high))

end CaseLabel

namespace Stmt

def info : Stmt → NodeInfo
  | .eval e => e.info
  | .assign i _ _ | .block i _ | .ifThen i _ _ | .case i _ _ _ | .forLoop i _ _ _ _ _
  | .whileLoop i _ _ | .repeatLoop i _ _ | .exit i | .ret i => i

def span (s : Stmt) : Span := s.info.span

mutual

/-- The expressions of the statement in the order in which they are written. -/
def exprs : Stmt → List Expr
  | .eval e => [e]
  | .assign _ target value => [target, value]
  | .block _ statements => exprsOfAll statements
  | .ifThen _ branches otherwise =>
    exprsOfBranches branches ++
      match otherwise with
      | some s => s.exprs
      | none => []
  | .case _ selector arms otherwise =>
    selector :: exprsOfArms arms ++
      match otherwise with
      | some s => s.exprs
      | none => []
  | .forLoop _ control start stop step body =>
    [control, start, stop] ++ step.toList ++ body.exprs
  | .whileLoop _ condition body => condition :: body.exprs
  | .repeatLoop _ body condition => body.exprs ++ [condition]
  | .exit _ | .ret _ => []

def exprsOfAll : List Stmt → List Expr
  | [] => []
  | s :: ss => s.exprs ++ exprsOfAll ss

def exprsOfBranches : List (Expr × Stmt) → List Expr
  | [] => []
  | (condition, s) :: rest => condition :: s.exprs ++ exprsOfBranches rest

def exprsOfArms : List (List CaseLabel × Stmt) → List Expr
  | [] => []
  | (labels, s) :: rest => labels.flatMap CaseLabel.exprs ++ s.exprs ++ exprsOfArms rest

end

/-- The nodes of all expressions, in the order of their identifiers. -/
def exprNodes (s : Stmt) : List Expr := Expr.nodesOfAll s.exprs

variable {m : Type → Type} [Monad m]

mutual

/-- Replaces every expression. The labels of a `CASE` come before the statements of its arms. -/
def mapExprsM (f : Expr → m Expr) : Stmt → m Stmt
  | .eval e => do pure (.eval (← f e))
  | .assign info target value => do
    let target ← f target
    pure (.assign info target (← f value))
  | .block info statements => do pure (.block info (← mapAllM f statements))
  | .ifThen info branches otherwise => do
    let branches ← mapBranchesM f branches
    match otherwise with
    | some s => pure (.ifThen info branches (some (← s.mapExprsM f)))
    | none => pure (.ifThen info branches none)
  | .case info selector arms otherwise => do
    let selector ← f selector
    let labels ← arms.mapM fun (labels, _) => labels.mapM (CaseLabel.mapExprsM f)
    let arms ← mapArmsM f labels arms
    match otherwise with
    | some s => pure (.case info selector arms (some (← s.mapExprsM f)))
    | none => pure (.case info selector arms none)
  | .forLoop info control start stop step body => do
    let control ← f control
    let start ← f start
    let stop ← f stop
    let step ← match step with
      | some e => some <$> f e
      | none => pure none
    pure (.forLoop info control start stop step (← body.mapExprsM f))
  | .whileLoop info condition body => do
    let condition ← f condition
    pure (.whileLoop info condition (← body.mapExprsM f))
  | .repeatLoop info body condition => do
    let body ← body.mapExprsM f
    pure (.repeatLoop info body (← f condition))
  | .exit info => pure (.exit info)
  | .ret info => pure (.ret info)

def mapAllM (f : Expr → m Expr) : List Stmt → m (List Stmt)
  | [] => pure []
  | s :: ss => do
    let s ← s.mapExprsM f
    pure (s :: (← mapAllM f ss))

def mapBranchesM (f : Expr → m Expr) : List (Expr × Stmt) → m (List (Expr × Stmt))
  | [] => pure []
  | (condition, s) :: rest => do
    let condition ← f condition
    let s ← s.mapExprsM f
    pure ((condition, s) :: (← mapBranchesM f rest))

/-- Replaces the statements of the arms, whose labels are given. -/
def mapArmsM (f : Expr → m Expr) :
    List (List CaseLabel) → List (List CaseLabel × Stmt) → m (List (List CaseLabel × Stmt))
  | labels :: more, (_, s) :: rest => do
    let s ← s.mapExprsM f
    pure ((labels, s) :: (← mapArmsM f more rest))
  | _, _ => pure []

end

/-- The node of an expression with the identifier. -/
def exprNode? (s : Stmt) (id : NodeId) : Option Expr := Expr.nodeOfAll? id s.exprs

/-- Replaces the node of an expression with the identifier. -/
def setExprNode (s : Stmt) (id : NodeId) (e : Expr) : Stmt :=
  Id.run <| s.mapExprsM fun root =>
    root.mapNodesM fun node => if node.info.id = id then pure e else pure node

end Stmt

-- ---------------------------------------------------------------------------
-- Names in bodies
-- ---------------------------------------------------------------------------

/-- The names in a body, which wait to be looked up. -/
structure BodyPools where
  /-- The references, by their first names. -/
  vars : RefPool NodeId Symbol := {}
  calls : RefPool NodeId Callee := {}
  deriving Repr, Inhabited

structure Query where
  body : Stmt
  pools : BodyPools
  deriving Inhabited

end StructuredText
