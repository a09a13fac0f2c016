-- SUMMARY: Evaluating a body by recursion on its structure, without micro-steps.
import StructuredText.Execution.Statement
import StructuredText.Proofs.Computation

/-!
# Big-step evaluation

A body is evaluated by recursion on its expressions and statements. Nothing is saved between two parts of
it: what an expression comes to is its result, and how a statement ends is one of three completions, by
which `EXIT` and `RETURN` leave the statements around them. Only the variables and the direct memory are
changed. The iterations of `WHILE` and `REPEAT` and the depth of calls are limited by fuel, and a
computation that is out of fuel is told apart from one that fails.
-/

namespace StructuredText.BigStep

-- ---------------------------------------------------------------------------
-- Evaluations
-- ---------------------------------------------------------------------------

/-- Why an evaluation has no result. -/
inductive Stop where
  | failed (d : Diagnostic)
  | outOfFuel

/-- A computation on the variables and the direct memory. -/
abbrev Evaluating := EStateM Stop Storage

/-- How a statement ends. -/
inductive Completion where
  | normal
  /-- An `EXIT` leaves the innermost loop. -/
  | exit
  /-- A `RETURN` leaves the unit. -/
  | ret
  deriving DecidableEq, Repr

/-- Where a body is evaluated. -/
structure Context where
  env : Environment
  current : InstanceId
  /-- The instances that wait for the current one. -/
  callers : List InstanceId

variable {α : Type}

def fail (d : Diagnostic) : Evaluating α := throw (.failed d)

def checked : Except Diagnostic α → Evaluating α
  | .ok a => pure a
  | .error d => fail d

/-- An operation on the storage, whose error is reported at a place. -/
def storing (span : Span) (x : Storing α) : Evaluating α := fun s =>
  match x s with
  | .ok a s => .ok a s
  | .error e s => .error (.failed (e.at span)) s

/-- A question to the storage, whose error is reported at a place. -/
def asking (span : Span) (x : Storage → Except ValueError α) : Evaluating α := do
  checked (atSpan span (x (← get)))

namespace Context

/-- The context of an instance that the current one calls. -/
def call (ctx : Context) (i : InstanceId) : Context :=
  { ctx with current := i, callers := ctx.current :: ctx.callers }

def isActive (ctx : Context) (i : InstanceId) : Bool :=
  ctx.current = i || ctx.callers.contains i

-- ---------------------------------------------------------------------------
-- Variables
-- ---------------------------------------------------------------------------

/-- The value of a reference and its place. -/
def lookup (ctx : Context) (info : NodeInfo) (path : VarPath) (indexes : List (Span × Value)) :
    Evaluating Evaluated := do
  match path.root with
  | none => fail (.internal info.span s!"{path.text} is not resolved")
  | some root =>
    let hops ← match path.fixed with
      | some hops => pure hops
      | none => checked (Body.hops info.span path.selectors indexes)
    let place ← asking info.span (·.locate ctx.env.library (some ctx.current) root hops)
    let value ← storing info.span (Storage.load ctx.env.library place)
    pure ⟨value, some place⟩

/-- Assigns to a variable at its place. -/
def assign (ctx : Context) (span : Span) (target : Expr) (place? : Option Place) (v : Value) :
    Evaluating Unit :=
  match target, place? with
  | .var info path _, some place =>
    storing span (Storage.store ctx.env.library place info.type? info.storage path.text v)
  | .var .., none => fail (.internal span "Target of the assignment was not located")
  | _, _ => fail (.internal span "Target of the assignment is not a variable")

-- ---------------------------------------------------------------------------
-- Arguments
-- ---------------------------------------------------------------------------

/-- Copies the arguments into the parameters of an instance. -/
def copyInputs (ctx : Context) (site : CallSite) (args : List Evaluated) (i : InstanceId) :
    Evaluating Unit := do
  let pou ← asking site.info.span (·.pouOf ctx.env.library i)
  for b in site.bindings do
    if b.input then
      match pou.vars[b.param]?, site.args[b.arg]?, args[b.arg]? with
      | some param, some arg, some found =>
        let storage := { param.storage with constant := false }
        storing arg.span
          (Storage.store ctx.env.library ⟨.own i b.param, []⟩ param.type.id? storage
            param.name.text found.value)
      | _, _, _ => fail (.internal site.info.span s!"No argument for {site.name.text}")

/-- Copies the parameters of an instance to the places of the arguments. -/
def copyOutputs (ctx : Context) (site : CallSite) (args : List Evaluated) (i : InstanceId) :
    Evaluating Unit := do
  for b in site.bindings do
    if b.output then
      let v ← asking site.info.span (·.value ⟨.own i b.param, []⟩)
      match site.args[b.arg]? with
      | some (.var info path _) =>
        match args[b.arg]?.bind (·.place?) with
        | some place =>
          storing info.span
            (Storage.store ctx.env.library place info.type? info.storage path.text v)
        | none => fail (.internal info.span "Output argument was not located")
      | some arg => fail (.internal arg.span "Output argument is not a variable")
      | none => fail (.internal site.info.span s!"No argument for {site.name.text}")

/-- Copies the outputs of an instance that has finished. The value is that of a function. -/
def collectResults (ctx : Context) (site : CallSite) (args : List Evaluated) (i : InstanceId) :
    Evaluating Evaluated := do
  let pou ← asking site.info.span (·.pouOf ctx.env.library i)
  ctx.copyOutputs site args i
  match pou.result? with
  | some position => do
    let value ← asking site.info.span (·.value ⟨.own i position, []⟩)
    pure { value }
  | none => pure {}

-- ---------------------------------------------------------------------------
-- Calls
-- ---------------------------------------------------------------------------

variable (run : Context → Stmt → Evaluating Completion)

/-- Calls an instance: copy-in, the body and copy-out. The value is that of a function. -/
def enter (ctx : Context) (site : CallSite) (args : List Evaluated) (i : InstanceId)
    (isFunction : Bool) : Evaluating Evaluated := do
  let span := site.info.span
  if ctx.isActive i then
    fail (.of .notInvocable span s!"{site.name.text} is already executing")
  if isFunction then
    storing span (Storage.resetFrame ctx.env.library i)
  let pou ← asking span (·.pouOf ctx.env.library i)
  ctx.copyInputs site args i
  let _ ← run (ctx.call i) pou.body
  ctx.collectResults site args i

/-- Performs a call whose arguments are evaluated. -/
def invoke (ctx : Context) (site : CallSite) (args : List Evaluated) : Evaluating Evaluated := do
  let span := site.info.span
  match site.callee with
  | none => fail (.internal span s!"Call to {site.name.text} is not resolved")
  | some (.standard f) => do
    let value ← checked (atSpan span (f.evaluate (args.map (·.value))))
    pure { value }
  | some (.function pou) => do
    let i ← asking span (·.unitInstance pou)
    ctx.enter run site args i true
  | some (.instance root) => do
    let place ← asking span (·.locate ctx.env.library (some ctx.current) root [])
    match ← asking span (·.value place) with
    | .block ⟨_, some i⟩ => ctx.enter run site args i false
    | _ => fail (.internal span s!"{site.name.text} is not bound to an instance")

-- ---------------------------------------------------------------------------
-- Expressions
-- ---------------------------------------------------------------------------

mutual

/-- The result of an expression. Operands, indexes and arguments are evaluated from left to right. -/
def value (ctx : Context) : Expr → Evaluating Evaluated
  | .literal _ value _ => pure { value }
  | .var info path indexes =>
    match path.fixed with
    | some _ => ctx.lookup info path []
    | none => do
      let values ← ctx.valueOfAll indexes
      ctx.lookup info path ((indexes.map Expr.span).zip (values.map (·.value)))
  | .unary info op e => do
    let a ← ctx.value e
    let value ← checked (atSpan info.span (op.evaluate a.value))
    pure { value }
  | .binary _ op l r => do
    let a ← ctx.value l
    let b ← ctx.value r
    let value ← checked
      ((op.evaluate a.value b.value ctx.env.epsilon).mapError (·.between l.span r.span))
    pure { value }
  | .call info name _ args callee bindings => do
    let values ← ctx.valueOfAll args
    ctx.invoke run { info, name, args, callee, bindings } values

def valueOfAll (ctx : Context) : List Expr → Evaluating (List Evaluated)
  | [] => pure []
  | e :: es => do
    let a ← ctx.value e
    let rest ← ctx.valueOfAll es
    pure (a :: rest)

end

/-- The truth of a condition. -/
def holds (ctx : Context) (condition : Expr) : Evaluating Bool := do
  let r ← ctx.value run condition
  checked (atSpan condition.span r.value.toBool)

-- ---------------------------------------------------------------------------
-- Loops
-- ---------------------------------------------------------------------------

/-- Goes on after an iteration of a loop, unless the iteration leaves the loop. -/
def next (again : Evaluating Completion) : Completion → Evaluating Completion
  | .normal => again
  | .exit => pure .normal
  | .ret => pure .ret

/-- A loop with a number of iterations. -/
def times (body : Evaluating Completion) : Nat → Evaluating Completion
  | 0 => pure .normal
  | n + 1 => do next (times body n) (← body)

/-- A loop whose condition is evaluated before each iteration. -/
def whileTrue (condition : Evaluating Bool) (body : Evaluating Completion) :
    (fuel : Nat) → Evaluating Completion
  | 0 => throw .outOfFuel
  | fuel + 1 => do
    if ← condition then next (whileTrue condition body fuel) (← body)
    else pure .normal

/-- A loop whose condition is evaluated after each iteration. -/
def untilTrue (body : Evaluating Completion) (condition : Evaluating Bool) :
    (fuel : Nat) → Evaluating Completion
  | 0 => throw .outOfFuel
  | fuel + 1 => do
    let again : Evaluating Completion := do
      if ← condition then pure .normal else untilTrue body condition fuel
    next again (← body)

def integerOf (e : Expr) (r : Evaluated) : Evaluating Int :=
  checked (atSpan e.span r.value.toInteger)

/-- Sets the control variable of a `FOR` loop to the start. -/
def setControl (ctx : Context) (control : Expr) (place? : Option Place) (first : Int) : Evaluating Unit :=
  match control, place? with
  | .var info path _, some place =>
    storing info.span
      (Storage.store ctx.env.library place info.type? info.storage path.text (.integer first))
  | .var info .., none => fail (.internal info.span "FOR control was not located")
  | e, _ => fail (.internal e.span "FOR control is not a variable")

/-- The number of iterations of a `FOR` loop, whose control variable is set to the start. -/
def startFor (ctx : Context) (loop : ForLoop) (control start stop : Evaluated)
    (step : Option Evaluated) : Evaluating Int := do
  let first ← integerOf loop.start start
  let last ← integerOf loop.stop stop
  let stride ← match loop.step with
    | some e => integerOf e (step.getD {})
    | none => pure 1
  if stride = 0 then
    let span := (loop.step.map (·.span)).getD loop.info.span
    fail ((ValueError.invalidArgument "FOR step must not be 0").at span)
  ctx.setControl loop.control control.place? first
  pure (Stmt.iterations first last stride)

-- ---------------------------------------------------------------------------
-- Statements
-- ---------------------------------------------------------------------------

mutual

/-- Performs a statement. Each loop within it has a number of iterations as its fuel. -/
def perform (ctx : Context) (fuel : Nat) : Stmt → Evaluating Completion
  | .eval e => do
    let _ ← ctx.value run e
    pure .normal
  | .assign info target source => do
    let located ← ctx.value run target
    let found ← ctx.value run source
    ctx.assign info.span target located.place? found.value
    pure .normal
  | .block _ statements => ctx.performAll fuel statements
  | .ifThen _ branches otherwise =>
    ctx.performBranches fuel (ctx.performOption fuel otherwise) branches
  | .case _ selector arms otherwise => do
    let r ← ctx.value run selector
    ctx.performArms fuel selector.span r.value (ctx.performOption fuel otherwise) arms
  | .forLoop info control start stop step body => do
    let located ← ctx.value run control
    let first ← ctx.value run start
    let last ← ctx.value run stop
    let stride ← match step with
      | some e => some <$> ctx.value run e
      | none => pure none
    let count ← ctx.startFor { info, control, start, stop, step, body } located first last stride
    times (ctx.perform fuel body) count.toNat
  | .whileLoop _ condition body =>
    whileTrue (ctx.holds run condition) (ctx.perform fuel body) fuel
  | .repeatLoop _ body condition =>
    untilTrue (ctx.perform fuel body) (ctx.holds run condition) fuel
  | .exit _ => pure .exit
  | .ret _ => pure .ret

/-- Performs statements in order up to the first one that does not end normally. -/
def performAll (ctx : Context) (fuel : Nat) : List Stmt → Evaluating Completion
  | [] => pure .normal
  | s :: rest => do
    match ← ctx.perform fuel s with
    | .normal => ctx.performAll fuel rest
    | transfer => pure transfer

/-- Performs a statement if there is one. -/
def performOption (ctx : Context) (fuel : Nat) : Option Stmt → Evaluating Completion
  | none => pure .normal
  | some s => ctx.perform fuel s

/-- Performs the first branch whose condition is true, or else the other statement. -/
def performBranches (ctx : Context) (fuel : Nat) (otherwise : Evaluating Completion) :
    List (Expr × Stmt) → Evaluating Completion
  | [] => otherwise
  | (condition, s) :: rest => do
    if ← ctx.holds run condition then ctx.perform fuel s
    else ctx.performBranches fuel otherwise rest

/-- Performs the first arm that has a label for the value, or else the other statement. -/
def performArms (ctx : Context) (fuel : Nat) (span : Span) (v : Value)
    (otherwise : Evaluating Completion) :
    List (List CaseLabel × Stmt) → Evaluating Completion
  | [] => otherwise
  | (labels, s) :: rest => do
    if ← checked (atSpan span (Stmt.anyMatches v labels)) then ctx.perform fuel s
    else ctx.performArms fuel span v otherwise rest

end

end Context

/-- Evaluates a body. The fuel limits the iterations of each loop and the depth of calls. -/
def evaluate : (fuel : Nat) → Context → Stmt → Evaluating Completion
  | 0, _, _ => throw .outOfFuel
  | fuel + 1, ctx, s => ctx.perform (evaluate fuel) (fuel + 1) s

end StructuredText.BigStep
