-- SUMMARY: Executing statements up to the end of a micro-step.
import StructuredText.Execution.Expression

/-!
# Executing statements

A block announces each of its statements before it executes it, which ends the micro-step. An `EXIT` or a
`RETURN` requests a transfer of control: a block that sees a request leaves its other statements out, and a
loop ends. The bounds of a `FOR` loop are evaluated once, and its control variable is set once, to the start.
-/

namespace StructuredText.Stmt

open Run

-- ---------------------------------------------------------------------------
-- Blocks and assignments
-- ---------------------------------------------------------------------------

/-- Announces the first of the statements. -/
def announce : List Stmt → Run (Progress Evaluated)
  | [] => finish
  | s :: rest => do
    onCursor (·.pauseAt s.span)
    pure (.paused [.start s, .rest rest])

/-- Goes on with the other statements of a block after one has finished. -/
def continueBlock (rest : List Stmt) : Run (Progress Evaluated) := do
  match (← get).cursor.pending with
  | none => announce rest
  | some _ => finish

/-- Assigns to a variable at the place where it was located. The result is that place. -/
def assignTo (env : Environment) (a : AssignTarget) (source : Evaluated) :
    Run (Progress Evaluated) := do
  match a.target, a.place? with
  | .var info path _, some place =>
    storing a.span
      (Storage.store env.library place info.type? info.storage path.text source.value)
    pure (.done { place? := some place })
  | .var .., none => throw (.internal a.span "Target of the assignment was not located")
  | _, _ => throw (.internal a.span "Target of the assignment is not a variable")

/-- Evaluates the value for a target that is located. -/
def assignValue (env : Environment) (info : NodeInfo) (target value : Expr) (located : Evaluated) :
    Run (Progress Evaluated) :=
  let a : AssignTarget := ⟨info.span, target, located.place?⟩
  andThen (value.evaluate env) (.value a) (assignTo env a)

-- ---------------------------------------------------------------------------
-- Conditions and labels
-- ---------------------------------------------------------------------------

/-- The truth of an evaluated condition. -/
def truth (condition : Expr) (r : Evaluated) : Run Bool :=
  ofExcept (atSpan condition.span r.value.toBool)

/-- A label matches a value. -/
def labelMatches (v : Value) : CaseLabel → Except ValueError Bool
  | .value (.literal _ label _) => v.equals label 0
  | .range (.literal _ low _) (.literal _ high _) => do
    if ← v.lesser low then pure false else pure !(← v.greater high)
  | _ => .error (.internal "Case label is not a constant")

/-- One of the labels matches a value. Labels after the first match are not compared. -/
def anyMatches (v : Value) : List CaseLabel → Except ValueError Bool
  | [] => .ok false
  | label :: rest => do
    if ← labelMatches v label then pure true else anyMatches v rest

-- ---------------------------------------------------------------------------
-- Loops
-- ---------------------------------------------------------------------------

/-- The loop of the instance that runs. -/
def loopEntry? (c : Cursor) (info : NodeInfo) : Option LoopEntry :=
  c.current.map (⟨·, info.id⟩)

def enterLoop (info : NodeInfo) : Run Unit := do
  match loopEntry? (← get).cursor info with
  | some entry => onCursor (·.enterLoop entry)
  | none => throw (.internal info.span "Statement executed outside of an instance")

def leaveLoop (info : NodeInfo) : Run Unit :=
  onCursor fun c =>
    match loopEntry? c info with
    | some entry => c.leaveLoop entry
    | none => c

/-- Ends a loop on a request, which an `EXIT` is thereby done with, or else goes on with it. -/
def afterIteration (info : NodeInfo) (next : Run (Progress Evaluated)) : Run (Progress Evaluated) := do
  match (← get).cursor.pending with
  | none => next
  | some .exit => do
    onCursor (·.clearPending)
    leaveLoop info
    finish
  | some .ret => do
    leaveLoop info
    finish

/--
The number of terms `start`, `start + step`, … that do not pass `stop`. It is computed within 128 bits, so it is wrong
where the distance of the bounds does not fit.
-/
def iterations (start stop step : Int) : Int :=
  if step > 0 && stop ≥ start then wrapInteger ((wrapInteger (stop - start)).tdiv step + 1)
  else if step < 0 && start ≥ stop then
    wrapInteger ((wrapInteger (start - stop)).tdiv (wrapInteger (-step)) + 1)
  else 0

/-- The expressions that a `FOR` loop evaluates when it starts. -/
def bounds (loop : ForLoop) : List Expr :=
  [loop.control, loop.start, loop.stop] ++ loop.step.toList

/-- The integer that an expression has resulted in. -/
def integerOf (e : Expr) (r : Evaluated) : Run Int := ofExcept (atSpan e.span r.value.toInteger)

/-- Sets the control variable of a `FOR` loop to the start. -/
def setControl (env : Environment) (control : Expr) (place? : Option Place) (start : Int) : Run Unit :=
  match control, place? with
  | .var info path _, some place =>
    storing info.span
      (Storage.store env.library place info.type? info.storage path.text (.integer start))
  | .var info .., none => throw (.internal info.span "FOR control was not located")
  | e, _ => throw (.internal e.span "FOR control is not a variable")

/-- Sets the control variable of a `FOR` loop to the start. The result is the number of iterations. -/
def startFor (env : Environment) (loop : ForLoop) (results : List Evaluated) : Run Int := do
  let start ← integerOf loop.start (results[1]?.getD {})
  let stop ← integerOf loop.stop (results[2]?.getD {})
  let step ← match loop.step with
    | some e => integerOf e (results[3]?.getD {})
    | none => pure 1
  if step = 0 then
    let span := (loop.step.map (·.span)).getD loop.info.span
    throw ((ValueError.invalidArgument "FOR step must not be 0").at span)
  setControl env loop.control (results.head?.bind (·.place?)) start
  pure (iterations start stop step)

/-- Goes on after an iteration of a `FOR` loop. -/
def afterFor (info : NodeInfo) (remaining : Int) (body : Stmt) : Run (Progress Evaluated) :=
  afterIteration info do
    if remaining - 1 ≤ 0 then
      leaveLoop info
      finish
    else pure (.paused [.start body, .forBody info (remaining - 1) body])

/-- Starts a `FOR` loop whose bounds are evaluated. -/
def runFor (env : Environment) (loop : ForLoop) (body : Run (Progress Evaluated))
    (results : List Evaluated) : Run (Progress Evaluated) := do
  let count ← startFor env loop results
  if count ≤ 0 then finish
  else do
    enterLoop loop.info
    andThen body (.forBody loop.info count loop.body) fun _ => afterFor loop.info count loop.body

/-- Goes on after an iteration of a `WHILE` loop. -/
def afterWhile (info : NodeInfo) (condition : Expr) (body : Stmt) : Run (Progress Evaluated) :=
  afterIteration info (pure (.paused [.whileAgain info condition body]))

/-- Starts an iteration of a `WHILE` loop, whose condition is evaluated, or ends the loop. -/
def testWhile (info : NodeInfo) (condition : Expr) (body : Stmt) (run : Run (Progress Evaluated))
    (entered : Bool) (r : Evaluated) : Run (Progress Evaluated) := do
  if ← truth condition r then
    if !entered then enterLoop info
    andThen run (.whileBody info condition body) fun _ => afterWhile info condition body
  else
    if entered then leaveLoop info
    finish

/-- Ends a `REPEAT` loop, whose condition is evaluated, or starts another iteration. -/
def testRepeat (info : NodeInfo) (body : Stmt) (condition : Expr) (r : Evaluated) :
    Run (Progress Evaluated) := do
  if ← truth condition r then
    leaveLoop info
    finish
  else pure (.paused [.start body, .repeatBody info body condition])

/-- Goes on after an iteration of a `REPEAT` loop. -/
def afterRepeat (env : Environment) (info : NodeInfo) (body : Stmt) (condition : Expr) :
    Run (Progress Evaluated) :=
  afterIteration info <|
    andThen (condition.evaluate env) (.repeatTest info body condition)
      (testRepeat info body condition)

/-- Requests to leave the innermost loop, which has to be one of the instance that runs. -/
def requestExit (info : NodeInfo) : Run (Progress Evaluated) := do
  let c := (← get).cursor
  match c.current with
  | none => throw (.internal info.span "Statement executed outside of an instance")
  | some i =>
    if (c.loops.head?.map (·.instance)) = some i then
      onCursor (·.request .exit)
      finish
    else throw (.internal info.span "EXIT without an executing loop")

-- ---------------------------------------------------------------------------
-- Statements
-- ---------------------------------------------------------------------------

mutual

/-- Executes a statement up to its end or that of the micro-step. -/
def execute (env : Environment) : Stmt → Run (Progress Evaluated)
  | .eval e => e.evaluate env
  | .assign info target value =>
    andThen (target.evaluate env) (.target info target value) (assignValue env info target value)
  | .block _ statements => announce statements
  | .ifThen _ branches otherwise => executeBranches env otherwise (executeOption env otherwise) branches
  | .case _ selector arms otherwise =>
    andThen (selector.evaluate env) (.selector selector arms otherwise) fun r =>
      executeArms env selector.span r.value (executeOption env otherwise) arms
  | .forLoop info control start stop step body =>
    let loop : ForLoop := { info, control, start, stop, step, body }
    Expr.evaluateAll env (.bound loop) (runFor env loop (body.execute env)) [] (bounds loop)
  | .whileLoop info condition body =>
    andThen (condition.evaluate env) (.whileTest info condition body false)
      (testWhile info condition body (body.execute env) false)
  | .repeatLoop info body condition => do
    enterLoop info
    andThen (body.execute env) (.repeatBody info body condition) fun _ =>
      afterRepeat env info body condition
  | .exit info => requestExit info
  | .ret _ => do
    onCursor (·.request .ret)
    finish

/-- Executes a statement if there is one. -/
def executeOption (env : Environment) : Option Stmt → Run (Progress Evaluated)
  | none => finish
  | some s => s.execute env

/-- Executes the first branch whose condition is true, or else the other statement. -/
def executeBranches (env : Environment) (otherwise : Option Stmt)
    (runOtherwise : Run (Progress Evaluated)) : List (Expr × Stmt) → Run (Progress Evaluated)
  | [] => runOtherwise
  | (condition, s) :: rest =>
    andThen (condition.evaluate env) (.condition condition s rest otherwise) fun r => do
      if ← truth condition r then s.execute env
      else executeBranches env otherwise runOtherwise rest

/-- Executes the first arm that has a label for the value, or else the other statement. -/
def executeArms (env : Environment) (span : Span) (v : Value)
    (runOtherwise : Run (Progress Evaluated)) :
    List (List CaseLabel × Stmt) → Run (Progress Evaluated)
  | [] => runOtherwise
  | (labels, s) :: rest => do
    if ← ofExcept (atSpan span (anyMatches v labels)) then s.execute env
    else executeArms env span v runOtherwise rest

end

end StructuredText.Stmt
