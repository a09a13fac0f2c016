-- SUMMARY: The cursor of an execution: the running instance, its callers, and the running loops.
import StructuredText.Span

/-!
# Cursors

A cursor tells which instance runs, which instances wait for it, which loops an `EXIT` would leave, and
whether an `EXIT` or a `RETURN` is on its way out. Lists have the innermost item first.
-/

namespace StructuredText

/-- Identifies the variables and the running body of a program, function or function block. -/
abbrev InstanceId := Nat

/-- Identifies a node of a body. -/
abbrev NodeId := Nat

/-- A transfer of control that the enclosing nodes act on as they finish. -/
inductive Transfer where
  | exit | ret
  deriving DecidableEq, Repr, Inhabited

/-- A running loop that `EXIT` would leave. -/
structure LoopEntry where
  «instance» : InstanceId
  node : NodeId
  deriving DecidableEq, Repr, Inhabited

structure Cursor where
  current : Option InstanceId := none
  /-- The instances that wait for the one that they called. -/
  callers : List InstanceId := []
  /-- The running loops of all instances. -/
  loops : List LoopEntry := []
  pending : Option Transfer := none
  /-- The statement that is about to run. -/
  pause : Option Span := none
  deriving DecidableEq, Repr, Inhabited

namespace Cursor

/-- A cursor with nothing in progress. -/
def idle : Cursor := {}

/-- A cursor at the start of an instance. -/
def primed (i : InstanceId) : Cursor := { current := some i }

/-- Transfers control to a called instance. The current instance waits for it. -/
def call (c : Cursor) (i : InstanceId) : Cursor :=
  { c with current := some i, callers := c.current.toList ++ c.callers }

/-- Returns control to the caller, if there is one. -/
def return? (c : Cursor) : Option (InstanceId × Cursor) :=
  match c.callers with
  | [] => none
  | i :: rest => some (i, { c with current := some i, callers := rest })

/-- The number of calls in progress. -/
def depth (c : Cursor) : Nat := c.callers.length

/-- The instance runs or waits for the one that it called. -/
def isActive (c : Cursor) (i : InstanceId) : Bool :=
  c.current = some i || c.callers.contains i

/-- Records that a loop starts. -/
def enterLoop (c : Cursor) (loop : LoopEntry) : Cursor :=
  { c with loops := loop :: c.loops }

/-- Records that a loop ends, if it is the innermost one. -/
def leaveLoop (c : Cursor) (loop : LoopEntry) : Cursor :=
  if c.loops.head? = some loop then { c with loops := c.loops.tail } else c

/-- Requests a transfer of control. -/
def request (c : Cursor) (t : Transfer) : Cursor := { c with pending := some t }

def clearPending (c : Cursor) : Cursor := { c with pending := none }

/-- Records that a statement is about to run. -/
def pauseAt (c : Cursor) (s : Span) : Cursor := { c with pause := some s }

def clearPause (c : Cursor) : Cursor := { c with pause := none }

end Cursor

end StructuredText
