-- SUMMARY: The nodes of a body in an arena: each one keeps where its next step resumes, and its last result.
import StructuredText.Execution

/-!
# Nodes

The nodes of a body live in an arena and refer to their parts by identifiers. Each node keeps a state that says where its
next step resumes, the result of its last evaluation, and, if it is a reference, the place where the variable was found.
Every instance owns an arena of its own, so that instances keep separate execution states.
-/

namespace StructuredText

namespace Node

-- ---------------------------------------------------------------------------
-- Expressions
-- ---------------------------------------------------------------------------

/-- A reference, with the number of its indexes that are evaluated. -/
structure Variable where
  path : VarPath
  indexes : List NodeId
  next : Nat := 0
  /-- Where the value was found by the last evaluation. -/
  place? : Option Place := none
  deriving Inhabited

structure Unary where
  op : UnaryOp
  operand : NodeId
  deriving Inhabited

inductive BinaryState where
  | left | right
  deriving DecidableEq, Repr, Inhabited

structure Binary where
  op : BinaryOp
  left : NodeId
  right : NodeId
  state : BinaryState := .left
  deriving Inhabited

/-- An argument matched to a parameter. -/
structure Binding where
  param : Nat
  arg : NodeId
  input : Bool
  output : Bool
  deriving Inhabited

inductive CallState where
  | args
  | invoke
  /-- Waits for the called instance to finish. -/
  | await (i : InstanceId)
  deriving DecidableEq, Repr, Inhabited

structure Call where
  name : Ident
  args : List NodeId
  callee : Option Callee
  bindings : List Binding
  next : Nat := 0
  state : CallState := .args
  deriving Inhabited

-- ---------------------------------------------------------------------------
-- Statements
-- ---------------------------------------------------------------------------

structure Block where
  statements : List NodeId
  position : Nat := 0
  /-- The statement at the position is announced. -/
  announced : Bool := false
  deriving Inhabited

inductive AssignState where
  | target | value
  deriving DecidableEq, Repr, Inhabited

structure Assign where
  target : NodeId
  value : NodeId
  state : AssignState := .target
  deriving Inhabited

inductive BranchState where
  | condition (branch : Nat)
  | body (statements : NodeId)
  deriving DecidableEq, Repr, Inhabited

structure If where
  branches : List (NodeId × NodeId)
  otherwise : Option NodeId
  state : BranchState := .condition 0
  deriving Inhabited

inductive Label where
  | value (id : NodeId)
  | range (low high : NodeId)
  deriving Inhabited

inductive CaseState where
  | selector
  | body (statements : NodeId)
  deriving DecidableEq, Repr, Inhabited

structure Case where
  selector : NodeId
  arms : List (List Label × NodeId)
  otherwise : Option NodeId
  state : CaseState := .selector
  deriving Inhabited

inductive ForState where
  | prepare | body
  deriving DecidableEq, Repr, Inhabited

structure For where
  control : NodeId
  start : NodeId
  stop : NodeId
  stride : Option NodeId
  body : NodeId
  /-- The number of bounds that are evaluated. -/
  next : Nat := 0
  remaining : Int := 0
  state : ForState := .prepare
  deriving Inhabited

inductive LoopState where
  | condition | body
  deriving DecidableEq, Repr, Inhabited

structure While where
  condition : NodeId
  body : NodeId
  entered : Bool := false
  state : LoopState := .condition
  deriving Inhabited

structure Repeat where
  body : NodeId
  condition : NodeId
  entered : Bool := false
  state : LoopState := .body
  deriving Inhabited

-- ---------------------------------------------------------------------------
-- Kinds
-- ---------------------------------------------------------------------------

inductive Kind where
  | literal (value : Value)
  | reference (n : Variable)
  | unary (n : Unary)
  | binary (n : Binary)
  | call (n : Call)
  | block (n : Block)
  | assign (n : Assign)
  | ifThen (n : If)
  | case (n : Case)
  | forLoop (n : For)
  | whileLoop (n : While)
  | repeatLoop (n : Repeat)
  | exit
  | ret
  /-- The kind of a node that is moved out of the arena while it is stepped. -/
  | vacant
  deriving Inhabited

/-- Rewinds a node to its start state. -/
def Kind.reset : Kind → Kind
  | .reference n => .reference { n with next := 0, place? := none }
  | .binary n => .binary { n with state := .left }
  | .call n => .call { n with next := 0, state := .args }
  | .block n => .block { n with position := 0, announced := false }
  | .assign n => .assign { n with state := .target }
  | .ifThen n => .ifThen { n with state := .condition 0 }
  | .case n => .case { n with state := .selector }
  | .forLoop n => .forLoop { n with next := 0, remaining := 0, state := .prepare }
  | .whileLoop n => .whileLoop { n with entered := false, state := .condition }
  | .repeatLoop n => .repeatLoop { n with entered := false, state := .body }
  | k => k

end Node

structure Node where
  kind : Node.Kind := .vacant
  span : Span := .builtin
  type? : Option TypeId := none
  storage : StorageClass := .result
  /-- The result of the last evaluation. -/
  result : Value := .void
  deriving Inhabited

-- ---------------------------------------------------------------------------
-- Arenas
-- ---------------------------------------------------------------------------

structure Arena where
  nodes : Array Node := #[]
  root : Option NodeId := none
  deriving Inhabited

namespace Arena

def node (b : Arena) (id : NodeId) : Except Diagnostic Node :=
  match b.nodes[id]? with
  | some n => .ok n
  | none => .error (.internal .builtin s!"No node {id}")

def span (b : Arena) (id : NodeId) : Span := ((b.nodes[id]?).map (·.span)).getD .builtin

/-- The last result of a node. -/
def result (b : Arena) (id : NodeId) : Except Diagnostic Value := do pure (← b.node id).result

/-- The reference that a node is. -/
def reference? (b : Arena) (id : NodeId) : Option Node.Variable :=
  match b.nodes[id]? with
  | some ⟨.reference n, _, _, _, _⟩ => some n
  | _ => none

def setResult (b : Arena) (id : NodeId) (v : Value) : Arena :=
  { b with nodes := b.nodes.modify id ({ · with result := v }) }

def setKind (b : Arena) (id : NodeId) (k : Node.Kind) : Arena :=
  { b with nodes := b.nodes.modify id ({ · with kind := k }) }

/-- Rewinds every node to its start state. Results are kept. -/
def reset (b : Arena) : Arena := { b with nodes := b.nodes.map fun n => { n with kind := n.kind.reset } }

end Arena

-- ---------------------------------------------------------------------------
-- Bodies in arenas
-- ---------------------------------------------------------------------------

/-- A node that has not been evaluated. A constant has its value as its result. -/
def NodeInfo.node (info : NodeInfo) (kind : Node.Kind) : Node where
  kind
  span := info.span
  type? := info.type?
  storage := info.storage
  result := match kind with
    | .literal v => v
    | _ => .void

/-- A node that has not been evaluated, with its identifier. -/
def NodeInfo.cell (info : NodeInfo) (kind : Node.Kind) : NodeId × Node := (info.id, info.node kind)

namespace Expr

def nodeId (e : Expr) : NodeId := e.info.id

/-- The binding of an argument, which the node refers to by its identifier. -/
def nodeBinding (args : List Expr) (b : ArgBinding) : Node.Binding where
  param := b.param
  arg := ((args[b.arg]?).map nodeId).getD 0
  input := b.input
  output := b.output

/-- The kind of the node in its start state. -/
def nodeKind : Expr → Node.Kind
  | .literal _ value _ => .literal value
  | .var _ path indexes => .reference { path, indexes := indexes.map nodeId }
  | .unary _ op operand => .unary { op, operand := operand.nodeId }
  | .binary _ op left right => .binary { op, left := left.nodeId, right := right.nodeId }
  | .call _ name _ args callee bindings =>
    .call { name, args := args.map nodeId, callee, bindings := bindings.map (nodeBinding args) }

mutual

/-- The nodes of the expression, each one after the nodes that are part of it. -/
def cells : Expr → List (NodeId × Node)
  | .literal info value type => [info.cell (literal info value type).nodeKind]
  | .var info path indexes => cellsOfAll indexes ++ [info.cell (var info path indexes).nodeKind]
  | .unary info op e => e.cells ++ [info.cell (unary info op e).nodeKind]
  | .binary info op l r => l.cells ++ r.cells ++ [info.cell (binary info op l r).nodeKind]
  | .call info name labels args callee bindings =>
    cellsOfAll args ++ [info.cell (call info name labels args callee bindings).nodeKind]

def cellsOfAll : List Expr → List (NodeId × Node)
  | [] => []
  | e :: es => e.cells ++ cellsOfAll es

end

end Expr

/-- A label, whose constants the node refers to by their identifiers. -/
def CaseLabel.nodeLabel : CaseLabel → Node.Label
  | .value e => .value e.nodeId
  | .range low high => .range low.nodeId high.nodeId

namespace Stmt

def nodeId (s : Stmt) : NodeId := s.info.id

/-- The kind of the node in its start state. -/
def nodeKind : Stmt → Node.Kind
  | .eval e => e.nodeKind
  | .assign _ target value => .assign { target := target.nodeId, value := value.nodeId }
  | .block _ statements => .block { statements := statements.map nodeId }
  | .ifThen _ branches otherwise =>
    .ifThen { branches := branches.map fun (c, s) => (c.nodeId, s.nodeId), otherwise := otherwise.map nodeId }
  | .case _ selector arms otherwise =>
    .case {
      selector := selector.nodeId, arms := arms.map fun (labels, s) => (labels.map CaseLabel.nodeLabel, s.nodeId)
      otherwise := otherwise.map nodeId }
  | .forLoop _ control start stop step body =>
    .forLoop {
      control := control.nodeId, start := start.nodeId, stop := stop.nodeId, stride := step.map Expr.nodeId,
      body := body.nodeId }
  | .whileLoop _ condition body => .whileLoop { condition := condition.nodeId, body := body.nodeId }
  | .repeatLoop _ body condition => .repeatLoop { body := body.nodeId, condition := condition.nodeId }
  | .exit _ => .exit
  | .ret _ => .ret

mutual

/-- The nodes of the statement, each one after the nodes that are part of it. -/
def cells : Stmt → List (NodeId × Node)
  | .eval e => e.cells
  | .assign info target value => target.cells ++ value.cells ++ [info.cell (assign info target value).nodeKind]
  | .block info statements => cellsOfAll statements ++ [info.cell (block info statements).nodeKind]
  | .ifThen info branches otherwise =>
    cellsOfBranches branches ++ cellsOfOption otherwise ++ [info.cell (ifThen info branches otherwise).nodeKind]
  | .case info selector arms otherwise =>
    selector.cells ++ cellsOfArms arms ++ cellsOfOption otherwise ++
      [info.cell (case info selector arms otherwise).nodeKind]
  | .forLoop info control start stop step body =>
    Expr.cellsOfAll ([control, start, stop] ++ step.toList) ++ body.cells ++
      [info.cell (forLoop info control start stop step body).nodeKind]
  | .whileLoop info condition body =>
    condition.cells ++ body.cells ++ [info.cell (whileLoop info condition body).nodeKind]
  | .repeatLoop info body condition =>
    body.cells ++ condition.cells ++ [info.cell (repeatLoop info body condition).nodeKind]
  | .exit info => [info.cell .exit]
  | .ret info => [info.cell .ret]

def cellsOfAll : List Stmt → List (NodeId × Node)
  | [] => []
  | s :: ss => s.cells ++ cellsOfAll ss

def cellsOfOption : Option Stmt → List (NodeId × Node)
  | none => []
  | some s => s.cells

def cellsOfBranches : List (Expr × Stmt) → List (NodeId × Node)
  | [] => []
  | (condition, s) :: rest => condition.cells ++ s.cells ++ cellsOfBranches rest

def cellsOfArms : List (List CaseLabel × Stmt) → List (NodeId × Node)
  | [] => []
  | (labels, s) :: rest =>
    Expr.cellsOfAll (labels.flatMap CaseLabel.exprs) ++ s.cells ++ cellsOfArms rest

end

end Stmt

/--
The arena of a body. Where a constant has replaced an expression, the nodes of the expression are out of reach, and the
arena has vacant nodes in their place.
-/
def Arena.ofStmt (s : Stmt) : Arena where
  nodes := Array.ofFn fun i : Fin ((s.cells.map (·.1)).foldr max 0 + 1) => (s.cells.lookup i.val).getD {}
  root := some s.nodeId

end StructuredText
