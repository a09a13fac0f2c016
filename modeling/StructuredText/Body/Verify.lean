-- SUMMARY: Checks bodies before they are executed, and computes what is constant in them.
import StructuredText.Library
import StructuredText.TypeTable.Assign

/-!
# Checking bodies

Checking an expression finds its type and its storage class and yields a probe, a value of the kind that the
expression results in. An expression whose operands are literals is computed and becomes a literal. The
statements of a block are checked independently of each other; the first problem of each one is reported.

`prepare` then fixes how variables are reached whose indexes are constant.
-/

namespace StructuredText

namespace Body

/-- What a body is checked against. -/
structure Scope where
  library : Library
  /-- The unit that the body belongs to. Queries have none. -/
  pou : Option Pou
  epsilon : Float

def Scope.types (s : Scope) : TypeTable := s.library.types

/-- An expression that is checked, and its probe. -/
structure Checked where
  expr : Expr
  probe : Value
  deriving Inhabited

namespace Checked

def info (c : Checked) : NodeInfo := c.expr.info

def span (c : Checked) : Span := c.expr.span

/-- A node that becomes a literal. -/
def folded (info : NodeInfo) (v : Value) : Checked :=
  ⟨.literal { info with storage := .literal } v none, v⟩

end Checked

-- ---------------------------------------------------------------------------
-- What a place requires of an expression
-- ---------------------------------------------------------------------------

/-- The expression is of one of the categories, by its type or else by its probe. -/
def isOf (s : Scope) (p : Category → Bool) (c : Checked) : Bool :=
  match c.info.type? with
  | some type =>
    match s.types.classOf type with
    | .ok cls => p cls.category
    | .error _ => false
  | none =>
    match c.probe with
    | .bool _ => p .bool
    | .integer _ => p .signed || p .unsigned
    | _ => false

/-- The expression is an integer. The error tells what for. -/
def requireInteger (s : Scope) (what : String) (c : Checked) : Except Diagnostic Unit :=
  if isOf s (·.isInteger) c then .ok ()
  else .error ((ValueError.incompatibleTypes s!"an integer {what}" c.probe.kindText).at c.span)

def requireCondition (s : Scope) (c : Checked) : Except Diagnostic Unit :=
  if isOf s (· = .bool) c then .ok ()
  else .error (.of .conditionNotBool c.span "Condition is not BOOL")

-- ---------------------------------------------------------------------------
-- Literals and operators
-- ---------------------------------------------------------------------------

def checkLiteral (s : Scope) (info : NodeInfo) (v : Value) (type : Option Ident) :
    Except Diagnostic Checked :=
  match type with
  | some name =>
    match s.types.lookup? name with
    | none => .error (.of .unresolvedType info.span s!"Type {name.text} is not declared")
    | some id => do
      let v ← atSpan info.span (s.types.coerce id v)
      let info := { info with type? := some id, storage := { constant := true } }
      pure ⟨.literal info v (some name), v⟩
  | none =>
    let storage : StorageClass := if info.type?.isSome then { constant := true } else .literal
    .ok ⟨.literal { info with storage } v none, v⟩

def checkUnary (info : NodeInfo) (op : UnaryOp) (operand : Checked) : Except Diagnostic Checked := do
  atSpan info.span (operand.probe.require op.operation)
  if operand.expr.isLiteral then
    pure (.folded info (← atSpan info.span (op.evaluate operand.probe)))
  else
    let info := { info with type? := operand.info.type?, storage := .result }
    pure ⟨.unary info op operand.expr, operand.probe⟩

/-- The types and the kinds of two operands go together. -/
def checkOperands (s : Scope) (op : BinaryOp) (left right : Checked) : Except Diagnostic Unit := do
  let fail (e : ValueError) : Except Diagnostic Unit := .error (e.between left.span right.span)
  match left.info.type?, right.info.type? with
  | some a, some b =>
    if !s.types.compatible a b then
      fail (.incompatibleTypes (s.types.nameOf a) (s.types.nameOf b))
  | _, _ => pure ()
  if left.probe.operatesWith op.operation right.probe then pure ()
  else if !left.probe.supports op.operation then fail (left.probe.notSupported op.operation)
  else fail (left.probe.incompatible op.operation right.probe)

def checkBinary (s : Scope) (info : NodeInfo) (op : BinaryOp) (left right : Checked) :
    Except Diagnostic Checked := do
  checkOperands s op left right
  if left.expr.isLiteral && right.expr.isLiteral then
    let v ← (op.evaluate left.probe right.probe s.epsilon).mapError
      (·.between left.span right.span)
    pure (.folded info v)
  else
    let (type?, probe) :=
      if op.isComparison then (some (TypeTable.elementaryId .bool), Value.bool false)
      else
        match left.info.type?, right.info.type? with
        | none, some type => (some type, right.probe)
        | type?, _ => (type?, left.probe)
    pure ⟨.binary { info with type?, storage := .result } op left.expr right.expr, probe⟩

-- ---------------------------------------------------------------------------
-- Variables
-- ---------------------------------------------------------------------------

/-- What the first names of a reference stand for. -/
inductive Denoted where
  | value (type : TypeId)
  | unit (pou : Nat)
  deriving DecidableEq, Repr, Inhabited

/-- A reference that is followed from name to name. -/
structure Walk where
  denoted : Denoted
  storage : StorageClass
  selectors : List Selector := []
  /-- The number of indexes that are used up. -/
  indexes : Nat := 0

/-- The variable that a reference starts with. -/
def startOf (s : Scope) (span : Span) (root : Root) : Except Diagnostic Walk := do
  match root with
  | .own i =>
    match s.pou.bind (·.vars[i]?) with
    | some v => pure { denoted := .value (← atSpan span v.type.id), storage := v.storage }
    | none => throw (.internal span s!"No local variable {i}")
  | .global i =>
    match s.library.globals[i]? with
    | some v => pure { denoted := .value (← atSpan span v.type.id), storage := v.storage }
    | none => throw (.internal span s!"No global variable {i}")
  | .program pou => pure { denoted := .unit pou, storage := {} }

/-- Follows a name to a variable of a unit. -/
def selectVar (s : Scope) (w : Walk) (pou : Nat) (segment : Segment) : Except Diagnostic Walk :=
  match s.library.pous[pou]? with
  | none => .error (.internal segment.span "Reference to a POU that does not exist")
  | some p =>
    match p.find? segment.name with
    | none =>
      .error (.of .unresolvedVariable segment.span
        s!"{segment.name.text} is not a variable of {p.name.text}")
    | some i => do
      let v := p.vars[i]?.getD default
      let type ← atSpan segment.span v.type.id
      pure { w with denoted := .value type, storage := v.storage, selectors := w.selectors ++ [.var i] }

/-- Follows a name to a structure member or to a variable of a unit. -/
def select (s : Scope) (w : Walk) (segment : Segment) : Except Diagnostic Walk := do
  match w.denoted with
  | .unit pou => selectVar s w pou segment
  | .value type =>
    match ← atSpan segment.span (s.types.memberOf type segment.name) with
    | some (position, member) =>
      pure { w with denoted := .value member, selectors := w.selectors ++ [.member position] }
    | none =>
      match ← atSpan segment.span (s.types.blockOf type) with
      | some pou => selectVar s w pou segment
      | none =>
        let e : ValueError :=
          match ← atSpan segment.span (s.types.kindOf type) with
          | .struct _ => .unknownMember (s.types.nameOf type) segment.name.text
          | _ => .notSupported .subVariable "non-structured"
        throw (e.at segment.span)

/-- Follows the indexes of a name to an array element. -/
def index (s : Scope) (w : Walk) (segment : Segment) : Except Diagnostic Walk := do
  if segment.indexes = 0 then return w
  let fail (e : ValueError) : Except Diagnostic Walk := .error (e.at segment.span)
  match w.denoted with
  | .unit _ => fail (.notSupported .index "program")
  | .value type =>
    match ← atSpan segment.span (s.types.arrayOf type) with
    | none => fail (.notSupported .index "non-array")
    | some (element, dimensions) =>
      if dimensions.length ≠ segment.indexes then
        fail (.indexCount dimensions.length segment.indexes)
      else
        let selector := .element dimensions w.indexes segment.indexes
        pure { w with denoted := .value element, selectors := w.selectors ++ [selector],
                      indexes := w.indexes + segment.indexes }

/-- Checks a reference whose indexes are checked. -/
def checkVar (s : Scope) (info : NodeInfo) (path : VarPath) (root : Root) (indexes : List Expr) :
    Except Diagnostic Checked := do
  let start ← startOf s info.span root
  let w ← match path.segments with
    | [] => pure start
    | first :: rest => do
      rest.foldlM (fun w segment => do index s (← select s w segment) segment)
        (← index s start first)
  match w.denoted with
  | .unit _ => throw (.of .notAssignable info.span s!"Program {path.text} is not a value")
  | .value type =>
    let probe ← atSpan info.span (s.types.create type none)
    let info := { info with type? := some type, storage := { w.storage with temporary := false } }
    pure ⟨.var info { path with selectors := w.selectors } indexes, probe⟩

-- ---------------------------------------------------------------------------
-- Calls
-- ---------------------------------------------------------------------------

/-- The parameter that an argument is for, given the number of positional arguments before it. -/
def parameter (p : Pou) (span : Span) (label : ArgLabel) (arg : Checked) (positional : Nat) :
    Except Diagnostic Nat :=
  match label.name with
  | none =>
    match p.inputs[positional]? with
    | some i => .ok i
    | none => .error (.of .argumentCount span s!"{p.name.text} takes {p.inputs.length} inputs")
  | some name =>
    let fits (i : Nat) : Bool :=
      let «section» := (p.vars[i]?.getD default).section
      if label.output then «section».isOutput else «section».isInput
    match (p.find? name).filter fits with
    | some i => .ok i
    | none =>
      .error (.of .unknownArgument arg.span s!"{p.name.text} has no parameter {name.text}")

/-- An argument that a parameter is copied to is a variable that can take its value. -/
def checkOutput (s : Scope) (v : VarDecl) (arg : Checked) : Except Diagnostic Unit := do
  match arg.expr.path? with
  | none =>
    throw (.of .notAssignable arg.span s!"Argument for {v.name.text} must be a variable")
  | some path =>
    if arg.info.storage.constant then throw ((ValueError.constantTarget path.text).at arg.span)
    atSpan arg.span (s.types.assignable arg.info.type? v.type.id? {} v.default)

/-- Matches the arguments of a call to the parameters of a unit. -/
def bindArgs (s : Scope) (p : Pou) (span : Span) (args : List (ArgLabel × Checked)) :
    Except Diagnostic (List ArgBinding) := do
  let step (state : Nat × List ArgBinding) (arg : (ArgLabel × Checked) × Nat) :
      Except Diagnostic (Nat × List ArgBinding) := do
    let ((label, checked), position) := arg
    let (positional, bindings) := state
    let param ← parameter p span label checked positional
    let v := p.vars[param]?.getD default
    let output := label.output || v.section = .inOut
    if output then checkOutput s v checked
    if !label.output then
      atSpan checked.span
        (s.types.assignable v.type.id? checked.info.type? checked.info.storage checked.probe)
    let positional := if label.name.isNone then positional + 1 else positional
    pure (positional, bindings ++ [⟨param, position, !label.output, output⟩])
  pure (← args.zipIdx.foldlM step (0, [])).2

/-- Checks the call of a standard function. -/
def checkStandard (s : Scope) (info : NodeInfo) (name : Ident) (f : StandardFunction)
    (args : List (ArgLabel × Checked)) : Except Diagnostic Checked := do
  match args.find? fun (label, _) => label.name.isSome || label.output with
  | some (_, arg) =>
    throw (.of .unknownArgument arg.span s!"{f.text} takes only positional arguments")
  | none => pure ()
  if !f.accepts args.length then
    throw (.of .argumentCount info.span s!"{f.text} does not take {args.length} arguments")
  let probes := args.map (·.2.probe)
  if args.all (·.2.expr.isLiteral) then
    pure (.folded info (← atSpan info.span (f.evaluate probes)))
  else
    let type? := f.resultType (args.map (·.2.info.type?))
    let probe ← match type? with
      | some type => atSpan info.span (s.types.create type none)
      | none => pure (probes.head?.getD .void)
    pure ⟨.call { info with type?, storage := .result } name (args.map (·.1))
      (args.map (·.2.expr)) (some (.standard f)) [], probe⟩

/-- The function block whose instance a variable holds. -/
def blockOfRoot (s : Scope) (span : Span) (root : Root) : Except Diagnostic (Option Pou) := do
  let v? := match root with
    | .own i => s.pou.bind (·.vars[i]?)
    | .global i => s.library.globals[i]?
    | .program _ => none
  match v?.bind (·.type.id?) with
  | none => pure none
  | some type => pure ((← atSpan span (s.types.blockOf type)).bind (s.library.pous[·]?))

/-- Checks a call whose arguments are checked. -/
def checkCall (s : Scope) (info : NodeInfo) (name : Ident) (callee : Callee)
    (args : List (ArgLabel × Checked)) : Except Diagnostic Checked := do
  let bound (type? : Option TypeId) (probe : Value) (bindings : List ArgBinding) : Checked :=
    ⟨.call { info with type?, storage := .result } name (args.map (·.1)) (args.map (·.2.expr))
      (some callee) bindings, probe⟩
  match callee with
  | .standard f => checkStandard s info name f args
  | .function pou =>
    match s.library.pous[pou]? with
    | none => throw (.internal info.span s!"No POU for {name.text}")
    | some p =>
      let bindings ← bindArgs s p info.span args
      match p.result?.bind (p.vars[·]?) with
      | some v => pure (bound v.type.id? v.default bindings)
      | none => pure (bound none .void bindings)
  | .instance root =>
    match ← blockOfRoot s info.span root with
    | none =>
      throw (.of .notAFunctionBlock info.span s!"{name.text} is not a function block instance")
    | some p => pure (bound none .void (← bindArgs s p info.span args))

-- ---------------------------------------------------------------------------
-- Expressions
-- ---------------------------------------------------------------------------

mutual

def checkExpr (s : Scope) : Expr → Except Diagnostic Checked
  | .literal info v type => checkLiteral s info v type
  | .var info path indexes => do
    match path.root with
    | none => throw (.internal info.span s!"{path.text} is not resolved")
    | some root => checkVar s info path root (← checkIndexes s indexes)
  | .unary info op operand => do checkUnary info op (← checkExpr s operand)
  | .binary info op left right => do
    let left ← checkExpr s left
    checkBinary s info op left (← checkExpr s right)
  | .call info name labels args callee _ => do
    let args ← checkArgs s args
    match callee with
    | none => throw (.internal info.span s!"Call to {name.text} is not resolved")
    | some callee => checkCall s info name callee (labels.zip args)

/-- Indexes are integers. -/
def checkIndexes (s : Scope) : List Expr → Except Diagnostic (List Expr)
  | [] => pure []
  | e :: es => do
    let c ← checkExpr s e
    requireInteger s "index" c
    pure (c.expr :: (← checkIndexes s es))

def checkArgs (s : Scope) : List Expr → Except Diagnostic (List Checked)
  | [] => pure []
  | e :: es => do
    let c ← checkExpr s e
    pure (c :: (← checkArgs s es))

end

-- ---------------------------------------------------------------------------
-- Statements
-- ---------------------------------------------------------------------------

/-- Checks that collect the problems of the statements in blocks. -/
abbrev Checking := ExceptT Diagnostic (StateM (List Diagnostic))

def checkAssign (s : Scope) (info : NodeInfo) (target value : Expr) : Except Diagnostic Stmt := do
  let target ← checkExpr s target
  match target.expr.path? with
  | none => throw (.of .notAssignable target.span "Target of the assignment is not a variable")
  | some path =>
    let value ← checkExpr s value
    if target.info.storage.constant then
      throw ((ValueError.constantTarget path.text).at target.span)
    if let .block _ := target.probe then
      throw ((target.probe.notSupported .assign).at target.span)
    atSpan value.span
      (s.types.assignable target.info.type? value.info.type? value.info.storage value.probe)
    pure (.assign info target.expr value.expr)

def checkCondition (s : Scope) (condition : Expr) : Except Diagnostic Expr := do
  let c ← checkExpr s condition
  requireCondition s c
  pure c.expr

/-- A label is a constant that the selector can be compared to. -/
def checkLabel (s : Scope) (selector : Checked) (e : Expr) : Except Diagnostic Expr := do
  let label ← checkExpr s e
  if !label.expr.isLiteral then
    throw (.of .notConstant label.span "Case label must be a constant")
  if !selector.probe.comparableTo label.probe then
    throw ((selector.probe.incompatible .equals label.probe).between selector.span label.span)
  pure label.expr

def checkSelector (s : Scope) (selector : Expr) : Except Diagnostic Checked := do
  let c ← checkExpr s selector
  if isOf s (fun k => k.isInteger || k = .enumeration) c then pure c
  else
    throw ((ValueError.incompatibleTypes "an integer or enumerated selector"
      c.probe.kindText).at c.span)

def checkControl (s : Scope) (control : Expr) : Except Diagnostic Checked := do
  let c ← checkExpr s control
  match c.expr.path? with
  | none => throw (.of .notAssignable c.span "FOR control is not a variable")
  | some path =>
    requireInteger s "control variable" c
    if c.info.storage.constant then throw ((ValueError.constantTarget path.text).at c.span)
    pure c

/-- A bound or the step of a loop can be assigned to its control variable. -/
def checkBound (s : Scope) (control : Checked) (what : String) (e : Expr) :
    Except Diagnostic Expr := do
  let c ← checkExpr s e
  requireInteger s what c
  atSpan c.span (s.types.assignable control.info.type? c.info.type? c.info.storage c.probe)
  pure c.expr

mutual

/-- Checks a statement. `EXIT` is only allowed in a loop. -/
def checkStmt (s : Scope) (inLoop : Bool) : Stmt → Checking Stmt
  | .eval e => do pure (.eval (← checkExpr s e).expr)
  | .assign info target value => do pure (← checkAssign s info target value)
  | .block info statements => do pure (.block info (← checkAll s inLoop statements))
  | .ifThen info branches otherwise => do
    let branches ← checkBranches s inLoop branches
    match otherwise with
    | some body => pure (.ifThen info branches (some (← checkStmt s inLoop body)))
    | none => pure (.ifThen info branches none)
  | .case info selector arms otherwise => do
    let selector ← checkSelector s selector
    let labels ← arms.mapM fun (labels, _) =>
      labels.mapM fun label => label.mapExprsM fun e => (checkLabel s selector e : Checking Expr)
    let arms ← checkArms s inLoop labels arms
    match otherwise with
    | some body => pure (.case info selector.expr arms (some (← checkStmt s inLoop body)))
    | none => pure (.case info selector.expr arms none)
  | .forLoop info control start stop step body => do
    let control ← checkControl s control
    let start ← checkBound s control "start" start
    let stop ← checkBound s control "end" stop
    let step ← match step with
      | some e => some <$> checkBound s control "step" e
      | none => pure none
    pure (.forLoop info control.expr start stop step (← checkStmt s true body))
  | .whileLoop info condition body => do
    let condition ← checkCondition s condition
    pure (.whileLoop info condition (← checkStmt s true body))
  | .repeatLoop info body condition => do
    let body ← checkStmt s true body
    pure (.repeatLoop info body (← checkCondition s condition))
  | .exit info =>
    if inLoop then pure (.exit info)
    else throw (.of .exitOutsideLoop info.span "EXIT is not inside a loop")
  | .ret info => pure (.ret info)

/-- Checks the statements of a block, each of which may be refused by itself. -/
def checkAll (s : Scope) (inLoop : Bool) : List Stmt → Checking (List Stmt)
  | [] => pure []
  | first :: rest => do
    let first ← tryCatch (checkStmt s inLoop first) fun d => do
      modify (· ++ [d])
      pure first
    pure (first :: (← checkAll s inLoop rest))

def checkBranches (s : Scope) (inLoop : Bool) : List (Expr × Stmt) → Checking (List (Expr × Stmt))
  | [] => pure []
  | (condition, body) :: rest => do
    let condition ← checkCondition s condition
    let body ← checkStmt s inLoop body
    pure ((condition, body) :: (← checkBranches s inLoop rest))

/-- Checks the statements of the arms, whose labels are checked. -/
def checkArms (s : Scope) (inLoop : Bool) :
    List (List CaseLabel) → List (List CaseLabel × Stmt) → Checking (List (List CaseLabel × Stmt))
  | labels :: more, (_, body) :: rest => do
    let body ← checkStmt s inLoop body
    pure ((labels, body) :: (← checkArms s inLoop more rest))
  | _, _ => pure []

end

/-- The checked body, or all its problems. -/
def verify (s : Scope) (body : Stmt) : Except (List Diagnostic) Stmt :=
  match (checkStmt s false body).run.run [] with
  | (.ok checked, []) => .ok checked
  | (.ok _, ds) => .error ds
  | (.error d, ds) => .error (ds ++ [d])

-- ---------------------------------------------------------------------------
-- Fixed references
-- ---------------------------------------------------------------------------

/-- The evaluated selectors of a reference at a place, given the values of its indexes. -/
def hops (span : Span) (selectors : List Selector) (indexes : List (Span × Value)) :
    Except Diagnostic (List Hop) :=
  selectors.mapM fun selector =>
    match selector with
    | .member position => .ok (.child position)
    | .var position => .ok (.var position)
    | .element dimensions first count => do
      let indexes ← ((indexes.drop first).take count).mapM fun (span, v) => atSpan span v.toInteger
      pure (.child (← atSpan span (Dimension.flatIndex dimensions indexes)))

/-- The values of expressions that are literals. -/
def literalValues? (es : List Expr) : Option (List (Span × Value)) :=
  es.mapM fun e =>
    match e with
    | .literal info v _ => some (info.span, v)
    | _ => none

/-- A reference whose indexes are literals is reached in a fixed way. -/
def fixNode (e : Expr) : Except Diagnostic Expr :=
  match e with
  | .var info path indexes =>
    match literalValues? indexes with
    | some values => do
      let fixed ← hops info.span path.selectors values
      pure (.var info { path with fixed := some fixed } indexes)
    | none => pure e
  | e => pure e

/-- Checks a body and prepares it for execution. -/
def prepare (s : Scope) (body : Stmt) : Except (List Diagnostic) Stmt := do
  let body ← verify s body
  (body.mapExprsM (·.mapNodesM fixNode)).mapError fun d => [d]

end Body

end StructuredText
