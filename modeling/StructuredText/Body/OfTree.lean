-- SUMMARY: Bodies from the trees of statements, expressions and queries.
import StructuredText.Body
import StructuredText.Tree

/-!
# Bodies from trees

The nodes of a body are numbered in the order in which they are completed, so a node comes after the nodes
that are part of it. A node with a name in it is added to the pool in which its name waits to be looked up.
-/

namespace StructuredText.Body

/-- A body that is being built. -/
structure Draft where
  /-- The identifier of the next node. -/
  next : NodeId := 0
  /-- The names in the nodes so far. -/
  pools : BodyPools := {}
  deriving Inhabited

abbrev Drafting := StateM Draft

/-- Adds a node. -/
def node (span : Span) : Drafting NodeInfo :=
  modifyGet fun d => ({ id := d.next, span }, { d with next := d.next + 1 })

/-- Adds a reference to what its first segment names. -/
def addReference (segments : List Segment) (indexes : List Expr) (span : Span) : Drafting Expr := do
  let info ← node span
  match segments.head? with
  | some first => modify fun d =>
    { d with pools.vars := d.pools.vars.add first.name info.id first.span }
  | none => pure ()
  pure (.var info { segments } indexes)

/-- Adds a call of what is named. -/
def addCall (name : Ident) (labels : List ArgLabel) (args : List Expr) (span : Span) : Drafting Expr := do
  let info ← node span
  modify fun d => { d with pools.calls := d.pools.calls.add name info.id span }
  pure (.call info name labels args none [])

-- ---------------------------------------------------------------------------
-- Expressions
-- ---------------------------------------------------------------------------

/-- A segment without its indexes. -/
def segment : Tree.Segment → Segment
  | .mk name indexes span => ⟨name, indexes.length, span⟩

def label : Tree.Arg → ArgLabel
  | .mk name _ output => ⟨name, output⟩

mutual

def expr : Tree.Expr → Drafting Expr
  | .constant value span => do pure (.literal (← node span) value none)
  | .typed type value span => do pure (.literal (← node span) value (some type))
  | .var p => path p
  | .unary op operand span => do
    let operand ← expr operand
    pure (.unary (← node span) op operand)
  | .binary op left right span => do
    let left ← expr left
    let right ← expr right
    pure (.binary (← node span) op left right)
  | .call name args span => do
    let values ← arguments args
    addCall name (args.map label) values span

def path : Tree.Path → Drafting Expr
  | .mk segments span => do
    let indexes ← segmentIndexes segments
    addReference (segments.map segment) indexes span

/-- The indexes of all segments. -/
def segmentIndexes : List Tree.Segment → Drafting (List Expr)
  | [] => pure []
  | .mk _ indexes _ :: rest => do
    let first ← exprs indexes
    pure (first ++ (← segmentIndexes rest))

def exprs : List Tree.Expr → Drafting (List Expr)
  | [] => pure []
  | e :: es => do
    let e ← expr e
    pure (e :: (← exprs es))

def arguments : List Tree.Arg → Drafting (List Expr)
  | [] => pure []
  | .mk _ value _ :: rest => do
    let value ← expr value
    pure (value :: (← arguments rest))

end

/-- A call with its arguments. -/
def call (name : Ident) (args : List Tree.Arg) (span : Span) : Drafting Expr := do
  let values ← arguments args
  addCall name (args.map label) values span

-- ---------------------------------------------------------------------------
-- Statements
-- ---------------------------------------------------------------------------

def caseLabel : Tree.CaseLabel → Drafting CaseLabel
  | .value e => do pure (.value (← expr e))
  | .range low high => do
    let low ← expr low
    pure (.range low (← expr high))

/-- From the first to the last statement, or the whole that has no statement inside. -/
def blockSpan (whole : Span) (statements : List Tree.Stmt) : Span :=
  match statements.head?, statements.getLast? with
  | some first, some last => .join first.span last.span
  | _, _ => whole

mutual

def stmt : Tree.Stmt → Drafting Stmt
  | .assign target value span => do
    let target ← path target
    let value ← expr value
    pure (.assign (← node span) target value)
  | .call name args span => do pure (.eval (← call name args span))
  | .ifThen bs otherwise span => do
    let bs ← branches span bs
    let otherwise ← match otherwise with
      | some ss => do
        let inner ← stmts ss
        pure (some (.block (← node (blockSpan span ss)) inner))
      | none => pure none
    pure (.ifThen (← node span) bs otherwise)
  | .case selector as otherwise span => do
    let selector ← expr selector
    let as ← arms span as
    let otherwise ← match otherwise with
      | some ss => do
        let inner ← stmts ss
        pure (some (.block (← node (blockSpan span ss)) inner))
      | none => pure none
    pure (.case (← node span) selector as otherwise)
  | .forLoop control start stop step ss span => do
    let control ← path control
    let start ← expr start
    let stop ← expr stop
    let step ← step.mapM expr
    let inner ← stmts ss
    let body := .block (← node (blockSpan span ss)) inner
    pure (.forLoop (← node span) control start stop step body)
  | .whileLoop condition ss span => do
    let condition ← expr condition
    let inner ← stmts ss
    let body := .block (← node (blockSpan span ss)) inner
    pure (.whileLoop (← node span) condition body)
  | .repeatLoop ss condition span => do
    let inner ← stmts ss
    let body := .block (← node (blockSpan span ss)) inner
    let condition ← expr condition
    pure (.repeatLoop (← node span) body condition)
  | .exit span => do pure (.exit (← node span))
  | .ret span => do pure (.ret (← node span))

def stmts : List Tree.Stmt → Drafting (List Stmt)
  | [] => pure []
  | s :: ss => do
    let s ← stmt s
    pure (s :: (← stmts ss))

def branches (whole : Span) : List (Tree.Expr × List Tree.Stmt) → Drafting (List (Expr × Stmt))
  | [] => pure []
  | (condition, ss) :: rest => do
    let condition ← expr condition
    let inner ← stmts ss
    let body := .block (← node (blockSpan whole ss)) inner
    pure ((condition, body) :: (← branches whole rest))

def arms (whole : Span) :
    List (List Tree.CaseLabel × List Tree.Stmt) → Drafting (List (List CaseLabel × Stmt))
  | [] => pure []
  | (labels, ss) :: rest => do
    let labels ← labels.mapM caseLabel
    let inner ← stmts ss
    let body := .block (← node (blockSpan whole ss)) inner
    pure ((labels, body) :: (← arms whole rest))

end

/-- Builds the body with the statements. A body without statements is placed at its unit. -/
def statementsBody (statements : List Tree.Stmt) (whole : Span) : Drafting Stmt := do
  let inner ← stmts statements
  pure (.block (← node (blockSpan whole statements)) inner)

/-- The body with the statements, and the names in it. -/
def ofStatements (statements : List Tree.Stmt) (whole : Span) : Stmt × BodyPools :=
  let (body, draft) := (statementsBody statements whole).run {}
  (body, draft.pools)

/-- Builds the body of a query. -/
def queryBody : Tree.Query → Drafting Stmt
  | .read e => do pure (.eval (← expr e))
  | .assign target value span => do
    let target ← path target
    let value ← expr value
    pure (.assign (← node span) target value)

def ofQuery (q : Tree.Query) : Query :=
  let (body, draft) := (queryBody q).run {}
  { body, pools := draft.pools }

end StructuredText.Body
