-- SUMMARY: Stepping nodes: a step descends from the root to where the last one has stopped, and goes on from there.
import StructuredText.Execution.Statement
import StructuredText.Machine.Node

/-!
# Stepping nodes

A node steps its parts itself. When a part is still in progress, so is the node, and the next step of the root descends
again to the same part by way of the states of the nodes. Only calls hand control to another body, through the cursor.
While a node is stepped, its kind is moved out of the arena.
-/

namespace StructuredText

namespace Node

/-- The result of a step of a node. -/
inductive Step where
  /-- The node has produced its result and is ready to start again. -/
  | finished
  /-- The node must be stepped again. -/
  | inProgress
  deriving DecidableEq, Repr, Inhabited

/-- What a body refers to while it is stepped. Queries have no instance. -/
structure StepContext where
  env : Environment
  instance? : Option InstanceId
  deriving Inhabited

/-- What a step changes: the node itself, the other nodes of the body, and the execution. -/
structure Stepping (κ : Type) where
  own : κ
  arena : Arena
  execution : Execution
  deriving Inhabited

/-- A step of a node. What it has changed stays when it fails. -/
abbrev Stepper (κ : Type) := EStateM Diagnostic (Stepping κ)

-- ---------------------------------------------------------------------------
-- The node and its body
-- ---------------------------------------------------------------------------

section

variable {κ α : Type}

def own : Stepper κ κ := do pure (← get).own

def modifyOwn (f : κ → κ) : Stepper κ Unit := modify fun s => { s with own := f s.own }

/-- A question to the arena. -/
def asking (f : Arena → Except Diagnostic α) : Stepper κ α := do ofExcept (f (← get).arena)

def spanOf (id : NodeId) : Stepper κ Span := do pure ((← get).arena.span id)

def setResult (id : NodeId) (v : Value) : Stepper κ Unit := do
  let _ ← asking (·.node id)
  modify fun s => { s with arena := s.arena.setResult id v }

/-- An operation on the execution. -/
def running (x : Run α) : Stepper κ α := fun s =>
  match x s.execution with
  | .ok a execution => .ok a { s with execution }
  | .error d execution => .error d { s with execution }

/-- A step of another node. -/
def stepping (m : Stepper Unit α) : Stepper κ α := fun s =>
  match m ⟨(), s.arena, s.execution⟩ with
  | .ok a s' => .ok a ⟨s.own, s'.arena, s'.execution⟩
  | .error d s' => .error d ⟨s.own, s'.arena, s'.execution⟩

/-- Goes on when a step has finished. -/
def afterStep (m next : Stepper κ Step) : Stepper κ Step := do
  match ← m with
  | .inProgress => pure .inProgress
  | .finished => next

/-- Steps parts in order. The progress is recorded, so that a finished part is not stepped again. -/
def stepAll (child : NodeId → Stepper Unit Step) (advance : κ → κ) : List NodeId → Stepper κ Step
  | [] => pure .finished
  | id :: rest =>
    afterStep (stepping (child id)) do
      modifyOwn advance
      stepAll child advance rest

/-- The truth of an evaluated condition. -/
def truth (condition : NodeId) : Stepper κ Bool := do
  let v ← asking (·.result condition)
  ofExcept (atSpan (← spanOf condition) v.toBool)

end

variable (ctx : StepContext) (child : NodeId → Stepper Unit Step) (id : NodeId)

-- ---------------------------------------------------------------------------
-- Expressions
-- ---------------------------------------------------------------------------

namespace Variable

/-- The values of the indexes, which are evaluated. -/
def values (n : Variable) : Stepper Variable (List (Span × Value)) :=
  n.indexes.mapM fun index => do
    let span ← spanOf index
    pure (span, ← asking (·.result index))

/-- Finds the variable and reads its value. -/
def read : Stepper Variable Step := do
  modifyOwn ({ · with next := 0 })
  let n ← own
  let span ← spanOf id
  match n.path.root with
  | none => throw (.internal span s!"{n.path.text} is not resolved")
  | some root =>
    let hops ← match n.path.fixed with
      | some hops => pure hops
      | none => do ofExcept (Body.hops span n.path.selectors (← n.values))
    let place ← running (Run.asking span (·.locate ctx.env.library ctx.instance? root hops))
    let value ← running (Run.storing span (Storage.load ctx.env.library place))
    setResult id value
    modifyOwn ({ · with place? := some place })
    pure .finished

def step : Stepper Variable Step := do
  let n ← own
  match n.path.fixed with
  | some _ => read ctx id
  | none => afterStep (stepAll child (fun n => { n with next := n.next + 1 }) (n.indexes.drop n.next)) (read ctx id)

end Variable

def Unary.step : Stepper Unary Step := do
  let n ← own
  afterStep (stepping (child n.operand)) do
    let operand ← asking (·.result n.operand)
    let value ← ofExcept (atSpan (← spanOf id) (n.op.evaluate operand))
    setResult id value
    pure .finished

namespace Binary

def stepRight : Stepper Binary Step := do
  let n ← own
  afterStep (stepping (child n.right)) do
    modifyOwn ({ · with state := .left })
    let left ← asking (·.node n.left)
    let right ← asking (·.node n.right)
    let result := n.op.evaluate left.result right.result ctx.env.epsilon
    let value ← ofExcept (result.mapError (·.between left.span right.span))
    setResult id value
    pure .finished

def step : Stepper Binary Step := do
  let n ← own
  match n.state with
  | .left => afterStep (stepping (child n.left)) do
      modifyOwn ({ · with state := .right })
      stepRight ctx child id
  | .right => stepRight ctx child id

end Binary

namespace Call

def rewind : Stepper Call Unit := modifyOwn ({ · with next := 0, state := .args })

/-- The instance that the function block in a variable is bound to. -/
def instanceOf (n : Call) (span : Span) (root : Root) : Stepper Call InstanceId := do
  let place ← running (Run.asking span (·.locate ctx.env.library ctx.instance? root []))
  match ← running (Run.asking span (·.value place)) with
  | .block ⟨_, some i⟩ => pure i
  | _ => throw (.internal span s!"{n.name.text} is not bound to an instance")

/-- Copies an argument into its parameter. -/
def copyInput (n : Call) (span : Span) (pou : Pou) (i : InstanceId) (b : Binding) : Stepper Call Unit := do
  if b.input then
    match pou.vars[b.param]? with
    | none => throw (.internal span s!"No argument for {n.name.text}")
    | some param =>
      let value ← asking (·.result b.arg)
      let storage := { param.storage with constant := false }
      running (Run.storing (← spanOf b.arg)
        (Storage.store ctx.env.library ⟨.own i b.param, []⟩ param.type.id? storage param.name.text value))

/-- Copies a parameter to the place where its argument was found. -/
def copyOutput (span : Span) (i : InstanceId) (b : Binding) : Stepper Call Unit := do
  if b.output then
    let value ← running (Run.asking span (·.value ⟨.own i b.param, []⟩))
    let arg ← asking (·.node b.arg)
    match (← get).arena.reference? b.arg with
    | none => throw (.internal arg.span "Output argument is not a variable")
    | some found =>
      match found.place? with
      | none => throw (.internal arg.span "Output argument was not located")
      | some place =>
        running (Run.storing arg.span
          (Storage.store ctx.env.library place arg.type? arg.storage found.path.text value))

/-- Copies the arguments into an instance and transfers control to it. -/
def invoke (n : Call) (span : Span) (i : InstanceId) (isFunction : Bool) : Stepper Call Step := do
  if (← get).execution.cursor.isActive i then
    throw (.of .notInvocable span s!"{n.name.text} is already executing")
  if isFunction then
    running (Run.storing span (Storage.resetFrame ctx.env.library i))
  let pou ← running (Run.asking span (·.pouOf ctx.env.library i))
  n.bindings.forM (copyInput ctx n span pou i)
  running (Run.onCursor (·.call i))
  modifyOwn ({ · with state := .await i })
  pure .inProgress

/-- Copies the outputs of an instance that has finished. The result is that of a function. -/
def complete (n : Call) (span : Span) (i : InstanceId) : Stepper Call Step := do
  let pou ← running (Run.asking span (·.pouOf ctx.env.library i))
  n.bindings.forM (copyOutput ctx span i)
  let result ← match pou.result? with
    | some position => running (Run.asking span (·.value ⟨.own i position, []⟩))
    | none => pure .void
  setResult id result
  rewind
  pure .finished

/-- Goes on with a call whose arguments are evaluated. -/
def proceed (span : Span) : Stepper Call Step := do
  let n ← own
  match n.state with
  | .invoke =>
    match n.callee with
    | none => throw (.internal span s!"Call to {n.name.text} is not resolved")
    | some (.standard f) => do
      let args ← n.args.mapM fun arg => asking (·.result arg)
      let value ← ofExcept (atSpan span (f.evaluate args))
      setResult id value
      rewind
      pure .finished
    | some (.function pou) => do
      let i ← running (Run.asking span (·.unitInstance pou))
      invoke ctx n span i true
    | some (.instance root) => do
      let i ← instanceOf ctx n span root
      invoke ctx n span i false
  | .await i => complete ctx id n span i
  | .args => throw (.internal span "Call arguments are not evaluated")

def step : Stepper Call Step := do
  let span ← spanOf id
  let n ← own
  match n.state with
  | .args =>
    afterStep (stepAll child (fun n => { n with next := n.next + 1 }) (n.args.drop n.next)) do
      modifyOwn ({ · with next := 0, state := .invoke })
      proceed ctx id span
  | _ => proceed ctx id span

end Call

-- ---------------------------------------------------------------------------
-- Blocks, assignments and branches
-- ---------------------------------------------------------------------------

namespace Block

def rewind : Stepper Block Unit := modifyOwn ({ · with position := 0, announced := false })

/-- Announces the statement at the position, if there is one. -/
def announce : Stepper Block Step := do
  let n ← own
  match n.statements[n.position]? with
  | none => do
    rewind
    pure .finished
  | some statement => do
    modifyOwn ({ · with announced := true })
    let span ← spanOf statement
    running (Run.onCursor (·.pauseAt span))
    pure .inProgress

/--
Steps the statement that is announced. The next one is announced in the same step, unless a transfer of control is
requested, and that ends the step.
-/
def step : Stepper Block Step := do
  let n ← own
  match n.announced, n.statements[n.position]? with
  | true, some statement =>
    afterStep (stepping (child statement)) do
      modifyOwn fun n => { n with position := n.position + 1, announced := false }
      match (← get).execution.cursor.pending with
      | some _ => do
        rewind
        pure .finished
      | none => announce
  | _, _ => announce

end Block

namespace Assign

def stepValue : Stepper Assign Step := do
  let n ← own
  afterStep (stepping (child n.value)) do
    modifyOwn ({ · with state := .target })
    let span ← spanOf id
    let target ← asking (·.node n.target)
    match (← get).arena.reference? n.target with
    | none => throw (.internal span "Target of the assignment is not a variable")
    | some found =>
      match found.place? with
      | none => throw (.internal span "Target of the assignment was not located")
      | some place => do
        let value ← asking (·.result n.value)
        running (Run.storing span
          (Storage.store ctx.env.library place target.type? target.storage found.path.text value))
        pure .finished

def step : Stepper Assign Step := do
  let n ← own
  match n.state with
  | .target => afterStep (stepping (child n.target)) do
      modifyOwn ({ · with state := .value })
      stepValue ctx child id
  | .value => stepValue ctx child id

end Assign

namespace If

def stepBody (statements : NodeId) : Stepper If Step :=
  afterStep (stepping (child statements)) do
    modifyOwn ({ · with state := .condition 0 })
    pure .finished

/-- Tests the conditions of branches in order. -/
def test : (branch : Nat) → List (NodeId × NodeId) → Stepper If Step
  | _, [] => do
    match (← own).otherwise with
    | some statements => do
      modifyOwn ({ · with state := .body statements })
      stepBody child statements
    | none => do
      modifyOwn ({ · with state := .condition 0 })
      pure .finished
  | branch, (condition, statements) :: rest =>
    afterStep (stepping (child condition)) do
      if ← truth condition then do
        modifyOwn ({ · with state := .body statements })
        stepBody child statements
      else do
        modifyOwn ({ · with state := .condition (branch + 1) })
        test (branch + 1) rest

def step : Stepper If Step := do
  let n ← own
  match n.state with
  | .condition branch => test child branch (n.branches.drop branch)
  | .body statements => stepBody child statements

end If

namespace Case

def stepBody (statements : NodeId) : Stepper Case Step :=
  afterStep (stepping (child statements)) do
    modifyOwn ({ · with state := .selector })
    pure .finished

/-- A label matches the value of the selector. -/
def isMatch (selector : NodeId) (label : Label) : Stepper Case Bool := do
  let v ← asking (·.result selector)
  let span ← spanOf selector
  match label with
  | .value id => do
    let label ← asking (·.result id)
    ofExcept (atSpan span (v.equals label 0))
  | .range low high => do
    let low ← asking (·.result low)
    let high ← asking (·.result high)
    ofExcept <| atSpan span do
      if ← v.lesser low then pure false else pure !(← v.greater high)

/-- One of the labels matches the value of the selector. Labels after the first match are not compared. -/
def anyMatch (selector : NodeId) : List Label → Stepper Case Bool
  | [] => pure false
  | label :: rest => do
    if ← isMatch selector label then pure true else anyMatch selector rest

/-- The statements of the first arm that has a label for the value of the selector, or else the other ones. -/
def chosen (selector : NodeId) (otherwise : Option NodeId) : List (List Label × NodeId) → Stepper Case (Option NodeId)
  | [] => pure otherwise
  | (labels, statements) :: rest => do
    if ← anyMatch selector labels then pure (some statements) else chosen selector otherwise rest

def step : Stepper Case Step := do
  let n ← own
  match n.state with
  | .selector =>
    afterStep (stepping (child n.selector)) do
      match ← chosen n.selector n.otherwise n.arms with
      | none => pure .finished
      | some statements => do
        modifyOwn ({ · with state := .body statements })
        stepBody child statements
  | .body statements => stepBody child statements

end Case

-- ---------------------------------------------------------------------------
-- Loops
-- ---------------------------------------------------------------------------

section

variable {κ : Type}

/-- Records that the loop starts. -/
def enterLoop : Stepper κ Unit := do
  match ctx.instance? with
  | some i => running (Run.onCursor (·.enterLoop ⟨i, id⟩))
  | none => throw (.internal (← spanOf id) "Statement executed outside of an instance")

/-- Records that the loop ends. -/
def leaveLoop : Stepper κ Unit := do
  match ctx.instance? with
  | some i => running (Run.onCursor (·.leaveLoop ⟨i, id⟩))
  | none => pure ()

/-- Ends a loop on a request, which an `EXIT` is thereby done with, or else goes on with it. -/
def afterIteration (rewind : Stepper κ Unit) (next : Stepper κ Step) : Stepper κ Step := do
  match (← get).execution.cursor.pending with
  | none => next
  | some .exit => do
    running (Run.onCursor (·.clearPending))
    leaveLoop ctx id
    rewind
    pure .finished
  | some .ret => do
    leaveLoop ctx id
    rewind
    pure .finished

end

namespace For

def rewind : Stepper For Unit := modifyOwn ({ · with next := 0, remaining := 0, state := .prepare })

def integer (bound : NodeId) : Stepper For Int := do
  let v ← asking (·.result bound)
  ofExcept (atSpan (← spanOf bound) v.toInteger)

/-- Sets the control variable to the start. -/
def setControl (n : For) (start : Int) : Stepper For Unit := do
  let control ← asking (·.node n.control)
  match (← get).arena.reference? n.control with
  | none => throw (.internal control.span "FOR control is not a variable")
  | some found =>
    match found.place? with
    | none => throw (.internal control.span "FOR control was not located")
    | some place =>
      running (Run.storing control.span
        (Storage.store ctx.env.library place control.type? control.storage found.path.text (.integer start)))

/-- Sets the control variable to the start. The result is the number of iterations. -/
def prepare (n : For) : Stepper For Int := do
  let start ← integer n.start
  let stop ← integer n.stop
  let step ← match n.stride with
    | some step => integer step
    | none => pure 1
  if step = 0 then
    let span ← spanOf (n.stride.getD id)
    throw ((ValueError.invalidArgument "FOR step must not be 0").at span)
  setControl ctx n start
  pure (Stmt.iterations start stop step)

def stepBody : Stepper For Step := do
  let n ← own
  afterStep (stepping (child n.body)) do
    afterIteration ctx id rewind do
      modifyOwn fun n => { n with remaining := n.remaining - 1 }
      if (← own).remaining ≤ 0 then do
        leaveLoop ctx id
        rewind
        pure .finished
      else pure .inProgress

def step : Stepper For Step := do
  let n ← own
  match n.state with
  | .prepare =>
    let bounds := [n.control, n.start, n.stop] ++ n.stride.toList
    afterStep (stepAll child (fun n => { n with next := n.next + 1 }) (bounds.drop n.next)) do
      modifyOwn ({ · with next := 0 })
      let count ← prepare ctx id n
      modifyOwn ({ · with remaining := count })
      if count ≤ 0 then do
        rewind
        pure .finished
      else do
        enterLoop ctx id
        modifyOwn ({ · with state := .body })
        stepBody ctx child id
  | .body => stepBody ctx child id

end For

namespace While

def rewind : Stepper While Unit := modifyOwn ({ · with entered := false, state := .condition })

def stepBody : Stepper While Step := do
  let n ← own
  afterStep (stepping (child n.body)) do
    afterIteration ctx id rewind do
      modifyOwn ({ · with state := .condition })
      pure .inProgress

def step : Stepper While Step := do
  let n ← own
  match n.state with
  | .condition =>
    afterStep (stepping (child n.condition)) do
      if ← truth n.condition then do
        if !n.entered then
          enterLoop ctx id
          modifyOwn ({ · with entered := true })
        modifyOwn ({ · with state := .body })
        stepBody ctx child id
      else do
        if n.entered then leaveLoop ctx id
        rewind
        pure .finished
  | .body => stepBody ctx child id

end While

namespace Repeat

def rewind : Stepper Repeat Unit := modifyOwn ({ · with entered := false, state := .body })

def stepCondition : Stepper Repeat Step := do
  let n ← own
  afterStep (stepping (child n.condition)) do
    if ← truth n.condition then do
      leaveLoop ctx id
      rewind
      pure .finished
    else do
      modifyOwn ({ · with state := .body })
      pure .inProgress

def step : Stepper Repeat Step := do
  let n ← own
  match n.state with
  | .body => do
    if !n.entered then
      enterLoop ctx id
      modifyOwn ({ · with entered := true })
    afterStep (stepping (child n.body)) do
      afterIteration ctx id rewind do
        modifyOwn ({ · with state := .condition })
        stepCondition ctx child id
  | .condition => stepCondition ctx child id

end Repeat

-- ---------------------------------------------------------------------------
-- Transfers of control
-- ---------------------------------------------------------------------------

/-- Requests to leave the innermost loop, which has to be one of the instance that runs. -/
def stepExit : Stepper Unit Step := do
  let span ← spanOf id
  match ctx.instance? with
  | none => throw (.internal span "Statement executed outside of an instance")
  | some i =>
    if ((← get).execution.cursor.loops.head?.map (·.instance)) = some i then
      running (Run.onCursor (·.request .exit))
      pure .finished
    else throw (.internal span "EXIT without an executing loop")

def stepReturn : Stepper Unit Step := do
  running (Run.onCursor (·.request .ret))
  pure .finished

end Node

-- ---------------------------------------------------------------------------
-- Nodes in an arena
-- ---------------------------------------------------------------------------

namespace Arena

open Node

/-- Steps a node with its kind moved out of the arena. The kind is put back however the step ends. -/
def moving {κ : Type} (id : NodeId) (wrap : κ → Kind) (n : κ) (m : Stepper κ Step) : Stepper Unit Step := fun s =>
  match m ⟨n, s.arena.setKind id .vacant, s.execution⟩ with
  | .ok r ⟨n, arena, execution⟩ => .ok r ⟨(), arena.setKind id (wrap n), execution⟩
  | .error d ⟨n, arena, execution⟩ => .error d ⟨(), arena.setKind id (wrap n), execution⟩

def vacant (id : NodeId) : Stepper Unit Step := do
  throw (.internal (← spanOf id) s!"Node {id} is its own descendant")

/-- Steps a node of a kind, with the steps of its parts. -/
def stepKind (ctx : StepContext) (child : NodeId → Stepper Unit Step) (id : NodeId) : Kind → Stepper Unit Step
  | .literal _ => pure .finished
  | .reference n => moving id .reference n (Variable.step ctx child id)
  | .unary n => moving id .unary n (Unary.step child id)
  | .binary n => moving id .binary n (Binary.step ctx child id)
  | .call n => moving id .call n (Call.step ctx child id)
  | .block n => moving id .block n (Block.step child)
  | .assign n => moving id .assign n (Assign.step ctx child id)
  | .ifThen n => moving id .ifThen n (If.step child)
  | .case n => moving id .case n (Case.step child)
  | .forLoop n => moving id .forLoop n (For.step ctx child id)
  | .whileLoop n => moving id .whileLoop n (While.step ctx child id)
  | .repeatLoop n => moving id .repeatLoop n (Repeat.step ctx child id)
  | .exit => moving id (fun _ => .exit) () (stepExit ctx id)
  | .ret => moving id (fun _ => .ret) () stepReturn
  | .vacant => vacant id

/--
Steps a node. Every node on the way down from the root is vacant while it is stepped, so a body of `n` nodes is descended
at most `n + 1` deep before a node is found to be its own descendant.
-/
def step (ctx : StepContext) : (depth : Nat) → NodeId → Stepper Unit Step
  | 0, id => vacant id
  | depth + 1, id => do
    let n ← asking (·.node id)
    stepKind ctx (step ctx depth) id n.kind

end Arena

end StructuredText
