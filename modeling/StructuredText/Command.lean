-- SUMMARY: The commands: checking, tokenizing, running and stepping source files.
import StructuredText.Machine.Controller
import StructuredText.Source
import StructuredText.SourceFile

/-!
# Commands

A command works on source files and results in lines of text. The first step of a command that has errors
ends it.
-/

namespace StructuredText

/-- How a program is executed. -/
structure Request where
  program : String
  /-- The queries that are answered afterwards. -/
  queries : List String := []
  options : Options := {}
  deriving Inhabited

inductive Command where
  /-- Checks that the sources can be parsed and linked. -/
  | check
  /-- Lists the tokens. -/
  | tokenize
  /-- Runs a program for a number of cycles. -/
  | run (request : Request) (cycles : Nat)
  /-- Runs one cycle of a program and lists the statements. -/
  | step (request : Request) (kind : StepKind)
  deriving Inhabited

/-- Why a command has no result. -/
inductive CommandError where
  | sources (e : SourceError)
  | diagnostics (ds : List Diagnostic)
  deriving Inhabited

def CommandError.message : CommandError → String
  | .sources e => e.message
  | .diagnostics ds => s!"Number of errors: {ds.length}"

namespace Command

-- ---------------------------------------------------------------------------
-- Tokens
-- ---------------------------------------------------------------------------

def tokenLine (f : SourceFile) (t : Token) : String :=
  let (line, column) := f.position t.span.start
  s!"Type: {t.kind.name}, Value: '{t.text}', At: Ln {line},Col {column}"

/-- A line for each token of the files. -/
def tokenLines (files : List SourceFile) : Except (List Diagnostic) (List String) :=
  let results := files.map fun f => (f, StructuredText.tokenize f.text f.id)
  match results.flatMap (·.2.2) with
  | [] => .ok (results.flatMap fun (f, tokens, _) => tokens.map (tokenLine f))
  | errors => .error errors

-- ---------------------------------------------------------------------------
-- Programs
-- ---------------------------------------------------------------------------

/-- An operation that ends with one diagnostic. -/
def single (x : Controlling Diagnostic α) : Controlling (List Diagnostic) α :=
  x.adaptExcept fun d => [d]

/-- Parses and links the files. -/
def linkFiles (files : List SourceFile) : Controlling (List Diagnostic) Unit := do
  let units ← ofExcept (Link.collect (fun f => parseUnit f.text f.id) files)
  Controller.link units

/-- Links the files and starts the program. -/
def startOn (files : List SourceFile) (request : Request) : Controlling (List Diagnostic) Unit := do
  linkFiles files
  single (Controller.start { text := request.program })

def runCycles : (cycles : Nat) → Controlling Diagnostic Unit
  | 0 => pure ()
  | cycles + 1 => do
    let _ ← Controller.runCycle
    runCycles cycles

/-- A line for a statement, which is in one of the files. -/
def pauseLine (files : List SourceFile) (statement : Span) : String :=
  let place := match files.find? (·.id = statement.file) with
    | some f =>
      let (line, column) := f.position statement.start
      s!"{f.path}:{line}:{column}"
    | none => statement.text
  "Paused at " ++ place

/-- A line for each statement up to the end of the cycle. Every step takes at least one micro-step. -/
def pauseLines (files : List SourceFile) (kind : StepKind) :
    (limit : Nat) → Controlling Diagnostic (List String)
  | 0 => pure []
  | limit + 1 => do
    match ← Controller.step kind with
    | .at statement =>
      let lines ← pauseLines files kind limit
      pure (pauseLine files statement :: lines)
    | .complete => pure ["Cycle complete"]

/-- A line for each query with its answer. -/
def answers (queries : List String) : Controlling (List Diagnostic) (List String) :=
  queries.mapM fun text => do
    let q ← ofExcept (parseQuery text)
    pure (text ++ " = " ++ (← Controller.query q))

-- ---------------------------------------------------------------------------
-- Execution
-- ---------------------------------------------------------------------------

/-- The options under which the command executes programs. -/
def options : Command → Options
  | .run request _ | .step request _ => request.options
  | _ => {}

/-- The lines that a command results in. -/
def lines (files : List SourceFile) : Command → Controlling (List Diagnostic) (List String)
  | .check => do
    linkFiles files
    pure []
  | .tokenize => ofExcept (tokenLines files)
  | .run request cycles => do
    startOn files request
    single (runCycles cycles)
    answers request.queries
  | .step request kind => do
    startOn files request
    let pauses ← single (pauseLines files kind (request.options.maxMicroSteps + 1))
    pure (pauses ++ (← answers request.queries))

/-- Executes a command on the files that the paths stand for. -/
def execute (c : Command) (paths : List (String × PathContent)) :
    Except CommandError (List String) := do
  let files ← (SourceFile.ofPaths paths).mapError .sources
  match c.lines files (.new c.options) with
  | .ok lines _ => pure lines
  | .error ds _ => throw (.diagnostics ds)

end Command

end StructuredText
