-- SUMMARY: Execution in micro-steps: frames, what is left to do, and the state that runs.
import StructuredText.Body.Verify
import StructuredText.Storage

/-!
# Execution

A body is executed in micro-steps. A micro-step ends before every statement, after every iteration of a loop,
when a call begins and when it returns. What is left to do then is a list of frames, the innermost one first:
each frame waits for the result of what is before it in the list. The frames of a called unit stand before
the frames of its caller.
-/

namespace StructuredText

/-- The result of an expression, and its place when it is a variable. -/
structure Evaluated where
  value : Value := .void
  place? : Option Place := none
  deriving Inhabited

/-- The parts of a call that matter while it is executed. -/
structure CallSite where
  info : NodeInfo
  name : Ident
  args : List Expr
  callee : Option Callee
  bindings : List ArgBinding
  deriving Inhabited

/-- The parts of an assignment that matter once its target is located. -/
structure AssignTarget where
  span : Span
  target : Expr
  place? : Option Place
  deriving Inhabited

/-- The parts of a `FOR` loop. -/
structure ForLoop where
  info : NodeInfo
  control : Expr
  start : Expr
  stop : Expr
  step : Option Expr
  body : Stmt
  deriving Inhabited

/-- What waits for a result, or is to be done next. -/
inductive Frame where
  /-- Waits for an index of a reference. -/
  | index (info : NodeInfo) (path : VarPath) (before : List Evaluated) (indexes rest : List Expr)
  | operand (info : NodeInfo) (op : UnaryOp)
  /-- Waits for the left operand. -/
  | left (op : BinaryOp) (left right : Expr)
  /-- Waits for the right operand. -/
  | right (op : BinaryOp) (left right : Expr) (value : Value)
  /-- Waits for an argument. -/
  | arg (site : CallSite) (before : List Evaluated) (rest : List Expr)
  /-- Waits for the called instance to finish. -/
  | callee (site : CallSite) (args : List Evaluated) (i : InstanceId)
  /-- The called instance has finished; its outputs are to be copied. -/
  | results (site : CallSite) (args : List Evaluated) (i : InstanceId)
  /-- A statement is to be executed. -/
  | start (s : Stmt)
  /-- Waits for a statement of a block; the others come after it. -/
  | rest (statements : List Stmt)
  /-- Waits for the target of an assignment. -/
  | target (info : NodeInfo) (target value : Expr)
  /-- Waits for the value of an assignment. -/
  | value (target : AssignTarget)
  /-- Waits for the condition of a branch. -/
  | condition (condition : Expr) (body : Stmt) (rest : List (Expr × Stmt)) (otherwise : Option Stmt)
  | selector (selector : Expr) (arms : List (List CaseLabel × Stmt)) (otherwise : Option Stmt)
  /-- Waits for a bound of a `FOR` loop. -/
  | bound (loop : ForLoop) (before : List Evaluated) (rest : List Expr)
  /-- Waits for an iteration of a `FOR` loop. -/
  | forBody (info : NodeInfo) (remaining : Int) (body : Stmt)
  /-- Waits for the condition of a `WHILE` loop. -/
  | whileTest (info : NodeInfo) (condition : Expr) (body : Stmt) (entered : Bool)
  | whileBody (info : NodeInfo) (condition : Expr) (body : Stmt)
  /-- The condition of a `WHILE` loop is to be evaluated again. -/
  | whileAgain (info : NodeInfo) (condition : Expr) (body : Stmt)
  | repeatBody (info : NodeInfo) (body : Stmt) (condition : Expr)
  /-- Waits for the condition of a `REPEAT` loop. -/
  | repeatTest (info : NodeInfo) (body : Stmt) (condition : Expr)
  deriving Inhabited

/-- How far something has come in a micro-step. -/
inductive Progress (α : Type) where
  | done (result : α)
  /-- The micro-step ends; the frames are left to do. -/
  | paused (frames : List Frame)
  deriving Inhabited

/-- What a body refers to while it is executed. -/
structure Environment where
  library : Library
  /-- Reals that lie closer are equal. -/
  epsilon : Float
  deriving Inhabited

/-- What the execution of a body changes. -/
structure Execution where
  storage : Storage
  cursor : Cursor
  deriving Inhabited

/-- An execution that may fail. What it has changed stays when it does. -/
abbrev Run := EStateM Diagnostic Execution

namespace Run

/-- An operation on the storage, whose error is reported at a place. -/
def storing (span : Span) (x : Storing α) : Run α := fun ⟨storage, cursor⟩ =>
  match x storage with
  | .ok a storage => .ok a ⟨storage, cursor⟩
  | .error e storage => .error (e.at span) ⟨storage, cursor⟩

/-- A question to the storage, whose error is reported at a place. -/
def asking (span : Span) (x : Storage → Except ValueError α) : Run α := do
  ofExcept (atSpan span (x (← get).storage))

def onCursor (f : Cursor → Cursor) : Run Unit :=
  modify fun ⟨storage, cursor⟩ => ⟨storage, f cursor⟩

/--
Goes on with a result, in the same micro-step if it is there. Otherwise the frame that goes on in the same
way is left to do.
-/
def andThen (x : Run (Progress α)) (frame : Frame) (next : α → Run (Progress β)) :
    Run (Progress β) := do
  match ← x with
  | .done a => next a
  | .paused frames => pure (.paused (frames ++ [frame]))

/-- Finishes without a result. -/
def finish : Run (Progress Evaluated) := pure (.done {})

end Run

end StructuredText
