-- SUMMARY: Evaluating expressions, and entering and leaving the units that they call.
import StructuredText.Execution

/-!
# Evaluating expressions

Operands, indexes and arguments are evaluated from left to right. A call to a unit copies its arguments into
the parameters and ends the micro-step; when the unit has finished, the outputs are copied to the places
that the arguments were found at.
-/

namespace StructuredText.Expr

open Run

-- ---------------------------------------------------------------------------
-- References and operators
-- ---------------------------------------------------------------------------

/-- The value of a reference, whose indexes have the values. -/
def lookup (env : Environment) (info : NodeInfo) (path : VarPath)
    (indexes : List (Span × Value)) : Run (Progress Evaluated) := do
  match path.root with
  | none => throw (.internal info.span s!"{path.text} is not resolved")
  | some root =>
    let hops ← match path.fixed with
      | some hops => pure hops
      | none => ofExcept (Body.hops info.span path.selectors indexes)
    let current := (← get).cursor.current
    let place ← asking info.span (·.locate env.library current root hops)
    let value ← storing info.span (Storage.load env.library place)
    pure (.done ⟨value, some place⟩)

/-- The value of a reference, whose indexes are evaluated. -/
def lookupAt (env : Environment) (info : NodeInfo) (path : VarPath) (indexes : List Expr)
    (values : List Evaluated) : Run (Progress Evaluated) :=
  lookup env info path ((indexes.map span).zip (values.map (·.value)))

def applyUnary (info : NodeInfo) (op : UnaryOp) (operand : Evaluated) : Run (Progress Evaluated) := do
  let value ← ofExcept (atSpan info.span (op.evaluate operand.value))
  pure (.done { value })

def applyBinary (env : Environment) (op : BinaryOp) (left right : Expr) (a : Value)
    (b : Evaluated) : Run (Progress Evaluated) := do
  let result := op.evaluate a b.value env.epsilon
  let value ← ofExcept (result.mapError (·.between left.span right.span))
  pure (.done { value })

-- ---------------------------------------------------------------------------
-- Calls
-- ---------------------------------------------------------------------------

/-- Copies the arguments into the parameters of an instance. -/
def copyInputs (env : Environment) (site : CallSite) (args : List Evaluated) (i : InstanceId) :
    Run Unit := do
  let pou ← asking site.info.span (·.pouOf env.library i)
  for b in site.bindings do
    if b.input then
      match pou.vars[b.param]?, site.args[b.arg]?, args[b.arg]? with
      | some param, some arg, some found =>
        let storage := { param.storage with constant := false }
        storing arg.span
          (Storage.store env.library ⟨.own i b.param, []⟩ param.type.id? storage param.name.text
            found.value)
      | _, _, _ => throw (.internal site.info.span s!"No argument for {site.name.text}")

/-- Copies the parameters of an instance to the places of the arguments. -/
def copyOutputs (env : Environment) (site : CallSite) (args : List Evaluated) (i : InstanceId) :
    Run Unit := do
  for b in site.bindings do
    if b.output then
      let value ← asking site.info.span (·.value ⟨.own i b.param, []⟩)
      match site.args[b.arg]? with
      | some (.var info path _) =>
        match args[b.arg]?.bind (·.place?) with
        | some place =>
          storing info.span
            (Storage.store env.library place info.type? info.storage path.text value)
        | none => throw (.internal info.span "Output argument was not located")
      | some arg => throw (.internal arg.span "Output argument is not a variable")
      | none => throw (.internal site.info.span s!"No argument for {site.name.text}")

/-- Copies the arguments into an instance and transfers control to it. -/
def enter (env : Environment) (site : CallSite) (args : List Evaluated) (i : InstanceId)
    (isFunction : Bool) : Run (Progress Evaluated) := do
  let span := site.info.span
  if (← get).cursor.isActive i then
    throw (.of .notInvocable span s!"{site.name.text} is already executing")
  if isFunction then
    storing span (Storage.resetFrame env.library i)
  let pou ← asking span (·.pouOf env.library i)
  copyInputs env site args i
  onCursor (·.call i)
  pure (.paused [.start pou.body, .callee site args i])

/-- Performs a call whose arguments are evaluated. -/
def invoke (env : Environment) (site : CallSite) (args : List Evaluated) :
    Run (Progress Evaluated) := do
  let span := site.info.span
  match site.callee with
  | none => throw (.internal span s!"Call to {site.name.text} is not resolved")
  | some (.standard f) =>
    let value ← ofExcept (atSpan span (f.evaluate (args.map (·.value))))
    pure (.done { value })
  | some (.function pou) => enter env site args (← asking span (·.unitInstance pou)) true
  | some (.instance root) =>
    let current := (← get).cursor.current
    let place ← asking span (·.locate env.library current root [])
    match ← asking span (·.value place) with
    | .block ⟨_, some i⟩ => enter env site args i false
    | _ => throw (.internal span s!"{site.name.text} is not bound to an instance")

/-- Returns control from an instance to the one that called it. -/
def leave (site : CallSite) (args : List Evaluated) (i : InstanceId) : Run (Progress Evaluated) := do
  onCursor fun c =>
    match c.clearPending.return? with
    | some (_, c) => c
    | none => c.clearPending
  pure (.paused [.results site args i])

/-- Copies the outputs of an instance that has finished. The value is that of a function. -/
def collectResults (env : Environment) (site : CallSite) (args : List Evaluated) (i : InstanceId) :
    Run (Progress Evaluated) := do
  let pou ← asking site.info.span (·.pouOf env.library i)
  copyOutputs env site args i
  match pou.result? with
  | some position =>
    let value ← asking site.info.span (·.value ⟨.own i position, []⟩)
    pure (.done { value })
  | none => finish

-- ---------------------------------------------------------------------------
-- Evaluation
-- ---------------------------------------------------------------------------

mutual

def evaluate (env : Environment) : Expr → Run (Progress Evaluated)
  | .literal _ value _ => pure (.done { value })
  | .var info path indexes =>
    match path.fixed with
    | some _ => lookup env info path []
    | none =>
      evaluateAll env (fun before rest => .index info path before indexes rest)
        (lookupAt env info path indexes) [] indexes
  | .unary info op e => andThen (e.evaluate env) (.operand info op) (applyUnary info op)
  | .binary _ op l r =>
    andThen (l.evaluate env) (.left op l r) fun a =>
      andThen (r.evaluate env) (.right op l r a.value) (applyBinary env op l r a.value)
  | .call info name _ args callee bindings =>
    let site : CallSite := { info, name, args, callee, bindings }
    evaluateAll env (.arg site) (invoke env site) [] args

/-- Evaluates expressions in order and goes on with the results of all, those before included. -/
def evaluateAll (env : Environment) (frame : List Evaluated → List Expr → Frame)
    (next : List Evaluated → Run (Progress Evaluated)) (before : List Evaluated) :
    List Expr → Run (Progress Evaluated)
  | [] => next before
  | e :: rest =>
    andThen (e.evaluate env) (frame before rest) fun a =>
      evaluateAll env frame next (before ++ [a]) rest

end

end StructuredText.Expr
