-- SUMMARY: The interpreter: linking, starting a program, running and stepping cycles, and queries.
import StructuredText.Execution.Resume
import StructuredText.Link
import StructuredText.Storage.Create
import StructuredText.Storage.Display

/-!
# Interpreter

The interpreter links compilation units, starts one of their programs, and executes it one cycle or one
statement at a time. A cycle that fails is abandoned: the next one starts from the beginning of the program
with the variables as they are. Every diagnostic that an operation ends with is recorded.

What is left to do in a cycle is a list of frames here. The controller of a machine keeps it in the nodes of the
bodies instead, and replies to every request as the interpreter does.
-/

namespace StructuredText

structure Interpreter where
  options : Options := {}
  /-- What is linked. -/
  library? : Option Library := none
  execution : Execution := ⟨{}, .idle⟩
  /-- What is left to do in the cycle. -/
  frames : List Frame := []
  /-- The position of the program that is started. -/
  program? : Option Nat := none
  /-- The micro-steps of the cycle in progress. -/
  steps : Nat := 0
  /-- The diagnostics of all operations in order. -/
  issues : Array Diagnostic := #[]
  deriving Inhabited

/-- An operation on the interpreter. What it has changed stays when it fails. -/
abbrev Interpreting (ε : Type) := EStateM ε Interpreter

/-- Where a step stops in a cycle. -/
inductive Pause where
  | at (statement : Span)
  | complete
  deriving DecidableEq, Repr, Inhabited

/-- The ways of stepping from one statement to another. -/
inductive StepKind where
  /-- To the next statement, past the units that are called. -/
  | over
  /-- To the next statement of any unit. -/
  | into
  /-- To the next statement of a caller. -/
  | out
  deriving DecidableEq, Repr, Inhabited

/-- A step that began at a call depth may stop at another one. -/
def StepKind.stops (kind : StepKind) (start depth : Nat) : Bool :=
  match kind with
  | .over => depth ≤ start
  | .into => true
  | .out => depth < start

namespace Interpreter

/-- An interpreter with nothing linked. -/
def new (options : Options) : Interpreter :=
  { options, execution := ⟨{ memory := .ofSize options.memorySize }, .idle⟩ }

-- ---------------------------------------------------------------------------
-- Issues
-- ---------------------------------------------------------------------------

/-- One of the recorded diagnostics is fatal. -/
def isFatal (t : Interpreter) : Bool := t.issues.any (·.isFatal)

/-- Fails with diagnostics and records them. -/
def refuseAll (ds : List Diagnostic) : Interpreting (List Diagnostic) α := do
  modify fun t => { t with issues := t.issues ++ ds }
  throw ds

/-- Fails with a diagnostic and records it. -/
def refuse (d : Diagnostic) : Interpreting Diagnostic α := do
  modify fun t => { t with issues := t.issues.push d }
  throw d

def misuse (problem : Problem) (message : String) : Diagnostic := .of problem .builtin message

-- ---------------------------------------------------------------------------
-- Memory
-- ---------------------------------------------------------------------------

def memory (t : Interpreter) : DirectMemory := t.execution.storage.memory

def setMemory (t : Interpreter) (memory : DirectMemory) : Interpreter :=
  let ⟨storage, cursor⟩ := t.execution
  { t with execution := ⟨{ storage with memory }, cursor⟩ }

-- ---------------------------------------------------------------------------
-- Linking and starting
-- ---------------------------------------------------------------------------

/-- Replaces the storage by a new one for the library. The memory is kept, but lost if that fails. -/
def renew (l : Library) : Interpreting Diagnostic Unit := do
  let memory := (← get).memory
  modify (·.setMemory {})
  let storage ← ofExcept (atSpan .builtin (Storage.ofLibrary l memory))
  modify fun t => { t with execution := ⟨storage, t.execution.cursor⟩ }

/-- Links units in the place of what was linked before. -/
def link (units : List CompilationUnit) : Interpreting (List Diagnostic) Unit := do
  modify fun t =>
    { t with
      library? := none, program? := none, frames := []
      execution := ⟨t.execution.storage, .idle⟩ }
  match StructuredText.link units (← get).options with
  | .error ds => refuseAll ds
  | .ok l => do
    (tryCatch (renew l) refuse).adaptExcept fun d => [d]
    modify ({ · with library? := some l })

/-- Goes to the beginning of the body of a program. -/
def prime (l : Library) (program : Nat) : Interpreting Diagnostic Unit := do
  let i ← ofExcept (atSpan .builtin ((← get).execution.storage.unitInstance program))
  let body := ((l.pous[program]?).map (.start ·.body)).toList
  modify fun t =>
    { t with execution := ⟨t.execution.storage, .primed i⟩, frames := body, steps := 0 }

/-- Starts a program with the initial values of all variables. -/
def start (name : Ident) : Interpreting Diagnostic Unit := do
  match (← get).library? with
  | none => refuse (misuse .notLinked "Link before starting")
  | some l =>
    match l.program? name with
    | none => refuse (.of .unresolvedProgram name.span s!"{name.text} is not a program")
    | some program =>
      tryCatch (renew l) refuse
      tryCatch (prime l program) refuse
      modify ({ · with program? := some program })

-- ---------------------------------------------------------------------------
-- Running
-- ---------------------------------------------------------------------------

/-- The library and the program that runs. -/
def ready : Interpreting Diagnostic (Library × Nat) := do
  match (← get).library?, (← get).program? with
  | none, _ => refuse (misuse .notLinked "Nothing is linked")
  | _, none => refuse (misuse .notStarted "Start a program first")
  | some l, some program => pure (l, program)

/-- Abandons the cycle in progress, which has failed. -/
def fail (l : Library) (program : Nat) (d : Diagnostic) : Interpreting Diagnostic α := do
  tryCatch (prime l program) fun _ => modify ({ · with steps := 0 })
  refuse d

/-- What a micro-step of a cycle ends with. -/
inductive Advance where
  | progress
  | pause (p : Pause)
  deriving Inhabited

/-- Performs a micro-step of the cycle. -/
def advance (l : Library) : Interpreting Diagnostic Advance := do
  let t ← modifyGet fun t => (t, { t with execution := default })
  let env : Environment := ⟨l, t.options.realEpsilon⟩
  match Run.microStep env t.frames t.execution with
  | .error d execution => do
    modify ({ · with execution })
    throw d
  | .ok (.done _) ⟨storage, cursor⟩ => do
    modify ({ · with execution := ⟨storage, cursor.clearPending⟩, frames := [] })
    pure (.pause .complete)
  | .ok (.paused frames) ⟨storage, cursor⟩ => do
    modify ({ · with execution := ⟨storage, cursor.clearPause⟩, frames })
    match cursor.pause with
    | some statement => pure (.pause (.at statement))
    | none => pure .progress

/-- Advances to the first pause that is accepted at its call depth, within a number of micro-steps. -/
def advanceTo (l : Library) (stops : Nat → Bool) : (limit : Nat) → Interpreting Diagnostic Pause
  | 0 => do
    let limit := (← get).options.maxMicroSteps
    throw (misuse .stepLimitExceeded s!"Cycle did not finish within {limit} micro-steps")
  | limit + 1 => do
    modify fun t => { t with steps := t.steps + 1 }
    match ← advance l with
    | .progress => advanceTo l stops limit
    | .pause .complete => pure .complete
    | .pause (.at statement) =>
      if stops (← get).execution.cursor.depth then pure (.at statement)
      else advanceTo l stops limit

/--
Goes on with the cycle to an accepted pause or to its end. The result has the number of micro-steps of the
cycle so far.
-/
def proceed (stops : (start depth : Nat) → Bool) : Interpreting Diagnostic (Pause × Nat) := do
  let (l, program) ← ready
  tryCatch (do
      let t ← modifyGet fun t => ((t.execution.cursor.depth, t.options.maxMicroSteps - t.steps), t)
      let pause ← advanceTo l (stops t.1) t.2
      let steps := (← get).steps
      if pause = .complete then prime l program
      pure (pause, steps))
    (fail l program)

/-- Goes on to the end of the cycle. The result is the number of its micro-steps. -/
def runCycle : Interpreting Diagnostic Nat := do
  pure (← proceed fun _ _ => false).2

/-- Goes on to another statement or to the end of the cycle. -/
def step (kind : StepKind) : Interpreting Diagnostic Pause := do
  pure (← proceed kind.stops).1

-- ---------------------------------------------------------------------------
-- Queries
-- ---------------------------------------------------------------------------

/-- A call in a query that is not to a standard function. -/
def forbiddenCall? (query : Stmt) : Option Diagnostic :=
  query.exprNodes.findSome? fun e =>
    match e with
    | .call _ _ _ _ (some (.standard _)) _ => none
    | .call info name _ _ _ _ =>
      some (.of .notConstant info.span s!"Query cannot call {name.text}")
    | _ => none

/-- Links a query to the global scope and checks it. -/
def prepareQuery (l : Library) (epsilon : Float) (query : Query) : Except (List Diagnostic) Stmt := do
  let (errors, body) := Link.linkVariables l none query.pools.vars query.body
  let body ← Link.finish errors body
  let (errors, body) := Link.linkCalls l none query.pools.calls body
  let body ← Link.finish errors body
  match forbiddenCall? body with
  | some d => throw [d]
  | none => Body.prepare ⟨l, none, epsilon⟩ body

/-- Executes frames to their end within a number of micro-steps. -/
def runWithin (env : Environment) : (limit : Nat) → List Frame → Run (Option Evaluated)
  | 0, _ => pure none
  | limit + 1, frames => do
    match ← Run.microStep env frames with
    | .done r => pure (some r)
    | .paused frames => runWithin env limit frames

/-- Executes a query and shows its value, which for an assignment is that of the target. -/
def answer (env : Environment) (limit : Nat) (query : Stmt) : Run String := do
  match ← runWithin env limit [.start query] with
  | none => throw (misuse .stepLimitExceeded "Query did not finish")
  | some r =>
    let value ← match query, r.place? with
      | .assign info .., some place => Run.asking info.span (·.value place)
      | .assign info .., none => throw (.internal info.span "Assignment has no target")
      | _, _ => pure r.value
    Run.asking query.span (·.display env.library value)

/-- Evaluates a query on the variables as they are. -/
def evaluateQuery (q : Query) : Interpreting (List Diagnostic) String := do
  match (← get).library? with
  | none => throw [misuse .notLinked "Nothing is linked"]
  | some l =>
    let options := (← get).options
    let q ← ofExcept (prepareQuery l options.realEpsilon q)
    let ⟨storage, cursor⟩ := (← get).execution
    match answer ⟨l, options.realEpsilon⟩ options.maxMicroSteps q ⟨storage, .idle⟩ with
    | .ok text ⟨storage, _⟩ => do
      modify ({ · with execution := ⟨storage, cursor⟩ })
      pure text
    | .error d ⟨storage, _⟩ => do
      modify ({ · with execution := ⟨storage, cursor⟩ })
      throw [d]

/--
Answers a query. It may call standard functions only. The cycle in progress is not affected, except by what
an assignment changes.
-/
def query (q : Query) : Interpreting (List Diagnostic) String := tryCatch (evaluateQuery q) refuseAll

end Interpreter

/-- The names under which a query reads each global variable and each variable of each program. -/
def Library.queryNames (l : Library) : List String :=
  l.globals.map (·.name.text) ++
    (l.pous.filter (·.kind = .program)).flatMap fun p =>
      p.vars.map fun v => p.name.text ++ "." ++ v.name.text

end StructuredText
