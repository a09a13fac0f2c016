-- SUMMARY: The machine, and the controller: an interpreter that executes bodies by stepping the nodes of a machine.
import StructuredText.Interpreter
import StructuredText.Machine.Step

/-!
# Controller

A machine holds the storage of a program and, for every instance, a copy of the body of its unit. The copy keeps the
execution state of the instance. It is taken out of the machine while it is stepped.

A micro-step of the controller steps the root of the body of the instance that runs. A call switches the cursor to the
called instance, whose body the following micro-steps step until its root finishes and control returns to the caller. A
cycle that fails leaves nodes in the middle of their work, which are therefore rewound.
-/

namespace StructuredText

open Node (Step StepContext Stepper)

-- ---------------------------------------------------------------------------
-- Machines
-- ---------------------------------------------------------------------------

structure Machine where
  storage : Storage := {}
  /-- The body of each instance. There is none while it is stepped. -/
  bodies : Array (Option Arena) := #[]
  deriving Inhabited

namespace Machine

/-- A machine with the variables of a storage, and with every body at its start. -/
def ofStorage (l : Library) (storage : Storage) : Machine where
  storage
  bodies := storage.instances.map fun i => (l.pous[i.pou]?).map fun pou => Arena.ofStmt pou.body

/-- A machine with every variable at its default value. -/
def ofLibrary (l : Library) (memory : DirectMemory) : Except ValueError Machine := do
  pure (ofStorage l (← Storage.ofLibrary l memory))

/-- Takes the body of an instance. -/
def takeBody (i : InstanceId) (m : Machine) : Except ValueError (Arena × Machine) :=
  match m.bodies[i]? with
  | none => .error (.internal s!"no instance {i}")
  | some none => .error (.internal s!"instance {i} is already executing")
  | some (some body) => .ok (body, { m with bodies := m.bodies.setIfInBounds i none })

def putBody (i : InstanceId) (body : Arena) (m : Machine) : Machine :=
  { m with bodies := m.bodies.setIfInBounds i (some body) }

/-- Abandons the execution that is in progress in every instance. -/
def resetBodies (m : Machine) : Machine := { m with bodies := m.bodies.map (·.map Arena.reset) }

end Machine

-- ---------------------------------------------------------------------------
-- Controllers
-- ---------------------------------------------------------------------------

structure Controller where
  options : Options := {}
  /-- What is linked. -/
  library? : Option Library := none
  machine : Machine := {}
  cursor : Cursor := .idle
  /-- The position of the program that is started. -/
  program? : Option Nat := none
  /-- The micro-steps of the cycle in progress. -/
  steps : Nat := 0
  /-- The diagnostics of all operations in order. -/
  issues : Array Diagnostic := #[]
  deriving Inhabited

/-- An operation on the controller. What it has changed stays when it fails. -/
abbrev Controlling (ε : Type) := EStateM ε Controller

namespace Controller

open Interpreter (Advance misuse)

/-- A controller with nothing linked. -/
def new (options : Options) : Controller :=
  { options, machine := { storage := { memory := .ofSize options.memorySize } } }

-- ---------------------------------------------------------------------------
-- Issues
-- ---------------------------------------------------------------------------

/-- One of the recorded diagnostics is fatal. -/
def isFatal (c : Controller) : Bool := c.issues.any (·.isFatal)

/-- Fails with diagnostics and records them. -/
def refuseAll (ds : List Diagnostic) : Controlling (List Diagnostic) α := do
  modify fun c => { c with issues := c.issues ++ ds }
  throw ds

/-- Fails with a diagnostic and records it. -/
def refuse (d : Diagnostic) : Controlling Diagnostic α := do
  modify fun c => { c with issues := c.issues.push d }
  throw d

-- ---------------------------------------------------------------------------
-- Memory
-- ---------------------------------------------------------------------------

def memory (c : Controller) : DirectMemory := c.machine.storage.memory

def setMemory (c : Controller) (memory : DirectMemory) : Controller :=
  { c with machine := { c.machine with storage := { c.machine.storage with memory } } }

-- ---------------------------------------------------------------------------
-- Linking and starting
-- ---------------------------------------------------------------------------

/-- Builds a machine for the library. The memory is kept, but lost if that fails. -/
def build (l : Library) : Controlling Diagnostic Machine := do
  let memory := (← get).memory
  modify (·.setMemory {})
  ofExcept (atSpan .builtin (Machine.ofLibrary l memory))

/-- Links units in the place of what was linked before. -/
def link (units : List CompilationUnit) : Controlling (List Diagnostic) Unit := do
  modify ({ · with library? := none, program? := none, cursor := .idle })
  match StructuredText.link units (← get).options with
  | .error ds => refuseAll ds
  | .ok l => do
    let machine ← (tryCatch (build l) refuse).adaptExcept fun d => [d]
    modify ({ · with machine, library? := some l })

/-- Starts a program with the initial values of all variables. -/
def start (name : Ident) : Controlling Diagnostic Unit := do
  match (← get).library? with
  | none => refuse (misuse .notLinked "Link before starting")
  | some l =>
    match l.program? name with
    | none => refuse (.of .unresolvedProgram name.span s!"{name.text} is not a program")
    | some program =>
      let machine ← tryCatch (build l) refuse
      let i ← tryCatch (ofExcept (atSpan .builtin (machine.storage.unitInstance program))) refuse
      modify ({ · with machine, cursor := .primed i, program? := some program, steps := 0 })

-- ---------------------------------------------------------------------------
-- Running
-- ---------------------------------------------------------------------------

/-- The library and the program that runs. -/
def ready : Controlling Diagnostic (Library × Nat) := do
  match (← get).library?, (← get).program? with
  | none, _ => refuse (misuse .notLinked "Nothing is linked")
  | _, none => refuse (misuse .notStarted "Start a program first")
  | some l, some program => pure (l, program)

/-- Goes to the beginning of the body of a program. -/
def prime (program : Nat) : Controlling Diagnostic Unit := do
  let i ← ofExcept (atSpan .builtin ((← get).machine.storage.unitInstance program))
  modify ({ · with cursor := .primed i })

/-- Abandons the cycle in progress, which has failed. The next one begins with the variables as they are. -/
def fail (program : Nat) (d : Diagnostic) : Controlling Diagnostic α := do
  modify fun c => { c with machine := c.machine.resetBodies, steps := 0 }
  tryCatch (prime program) fun _ => pure ()
  refuse d

/-- Takes the body of an instance. -/
def takeBody (i : InstanceId) : Controlling Diagnostic Arena := do
  let (body, machine) ← ofExcept (atSpan .builtin ((← get).machine.takeBody i))
  modify ({ · with machine })
  pure body

/-- Steps the root of a body, which is out of the machine. The body is changed however the step ends. -/
def stepRoot (ctx : StepContext) (body : Arena) : Controlling Diagnostic (Except Diagnostic Step × Arena) := do
  match body.root with
  | none => pure (.ok .finished, body)
  | some root =>
    let c ← get
    let run := Arena.step ctx (body.nodes.size + 1) root ⟨(), body, ⟨c.machine.storage, c.cursor⟩⟩
    let (result, ⟨_, body, execution⟩) : Except Diagnostic Step × Node.Stepping Unit :=
      match run with
      | .ok r s => (.ok r, s)
      | .error d s => (.error d, s)
    modify fun c => { c with machine := { c.machine with storage := execution.storage }, cursor := execution.cursor }
    pure (result, body)

/-- Performs a micro-step of the cycle. -/
def advance (l : Library) (program : Nat) : Controlling Diagnostic Advance := do
  modify fun c => { c with steps := c.steps + 1 }
  let options := (← get).options
  if (← get).steps > options.maxMicroSteps then
    throw (misuse .stepLimitExceeded s!"Cycle did not finish within {options.maxMicroSteps} micro-steps")
  match (← get).cursor.current with
  | none => throw (.internal .builtin "Cursor has no current instance")
  | some i =>
    let body ← takeBody i
    let (result, body) ← stepRoot ⟨⟨l, options.realEpsilon⟩, some i⟩ body
    modify fun c => { c with machine := c.machine.putBody i body }
    match ← ofExcept result with
    | .inProgress =>
      let pause := (← get).cursor.pause
      modify fun c => { c with cursor := c.cursor.clearPause }
      match pause with
      | some statement => pure (.pause (.at statement))
      | none => pure .progress
    | .finished =>
      modify fun c => { c with cursor := c.cursor.clearPending }
      match (← get).cursor.return? with
      | some (_, cursor) => do
        modify ({ · with cursor })
        pure .progress
      | none => do
        prime program
        pure (.pause .complete)

/--
Advances to the first pause that is accepted at its call depth. The number is one more than that of the micro-steps that
are left to the cycle, so the last one of them fails.
-/
def advanceTo (l : Library) (program : Nat) (stops : Nat → Bool) : (limit : Nat) → Controlling Diagnostic Pause
  | 0 => do
    let limit := (← get).options.maxMicroSteps
    throw (misuse .stepLimitExceeded s!"Cycle did not finish within {limit} micro-steps")
  | limit + 1 => do
    match ← advance l program with
    | .progress => advanceTo l program stops limit
    | .pause .complete => pure .complete
    | .pause (.at statement) =>
      if stops (← get).cursor.depth then pure (.at statement)
      else advanceTo l program stops limit

/--
Goes on with the cycle to an accepted pause or to its end. The result has the number of micro-steps of the
cycle so far.
-/
def proceed (stops : (start depth : Nat) → Bool) : Controlling Diagnostic (Pause × Nat) := do
  let (l, program) ← ready
  tryCatch (do
      let c ← get
      let pause ← advanceTo l program (stops c.cursor.depth) (c.options.maxMicroSteps - c.steps + 1)
      let steps := (← get).steps
      if pause = .complete then modify ({ · with steps := 0 })
      pure (pause, steps))
    (fail program)

/-- Goes on to the end of the cycle. The result is the number of its micro-steps. -/
def runCycle : Controlling Diagnostic Nat := do
  pure (← proceed fun _ _ => false).2

/-- Goes on to another statement or to the end of the cycle. -/
def step (kind : StepKind) : Controlling Diagnostic Pause := do
  pure (← proceed kind.stops).1

-- ---------------------------------------------------------------------------
-- Queries
-- ---------------------------------------------------------------------------

/-- Steps the root of a query to its end, within a number of micro-steps. -/
def stepWithin (ctx : StepContext) (depth : Nat) (root : NodeId) : (limit : Nat) → Stepper Unit Bool
  | 0 => pure false
  | limit + 1 => do
    match ← Arena.step ctx depth root with
    | .finished => pure true
    | .inProgress => stepWithin ctx depth root limit

/-- Executes the body of a query and shows its value, which for an assignment is that of the target. -/
def answer (ctx : StepContext) (limit : Nat) (depth : Nat) (root? : Option NodeId) : Stepper Unit String := do
  match root? with
  | none => throw (misuse .noContent "Query is empty")
  | some root =>
    if ← stepWithin ctx depth root limit then
      let n ← Node.asking (·.node root)
      let value ← match n.kind with
        | .assign assign =>
          match ((← get).arena.reference? assign.target).bind (·.place?) with
          | some place => Node.running (Run.asking n.span (·.value place))
          | none => throw (.internal n.span "Assignment has no target")
        | _ => pure n.result
      Node.running (Run.asking n.span (·.display ctx.env.library value))
    else throw (misuse .stepLimitExceeded "Query did not finish")

/-- Evaluates a query on the variables as they are. -/
def evaluateQuery (q : Query) : Controlling (List Diagnostic) String := do
  match (← get).library? with
  | none => throw [misuse .notLinked "Nothing is linked"]
  | some l =>
    let options := (← get).options
    let q ← ofExcept (Interpreter.prepareQuery l options.realEpsilon q)
    let body := Arena.ofStmt q
    let ctx : StepContext := ⟨⟨l, options.realEpsilon⟩, none⟩
    let storage := (← get).machine.storage
    match answer ctx options.maxMicroSteps (body.nodes.size + 1) body.root ⟨(), body, ⟨storage, .idle⟩⟩ with
    | .ok text ⟨_, _, storage, _⟩ => do
      modify fun c => { c with machine := { c.machine with storage } }
      pure text
    | .error d ⟨_, _, storage, _⟩ => do
      modify fun c => { c with machine := { c.machine with storage } }
      throw [d]

/--
Answers a query. It may call standard functions only. The cycle in progress is not affected, except by what
an assignment changes.
-/
def query (q : Query) : Controlling (List Diagnostic) String := tryCatch (evaluateQuery q) refuseAll

end Controller

end StructuredText
