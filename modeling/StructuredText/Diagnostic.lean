-- SUMMARY: Diagnostics: a problem, the place it was found at, and related places.
import StructuredText.Problem
import StructuredText.Ident

/-!
# Diagnostics

A diagnostic says which problem was found and where, with a message for that place. It may carry
context, which is shown with the description of the problem, and further places.
-/

namespace StructuredText

/-- A place in a source and what there is to say about it. -/
structure Label where
  span : Span
  message : String
  deriving DecidableEq, Repr, Inhabited

/-- One reported problem. -/
structure Diagnostic where
  problem : Problem
  /-- The place where the problem was found. -/
  primary : Label
  /-- Names and values that tell which item the problem is about. -/
  context : List (String × String) := []
  /-- Other places that belong to the problem. -/
  secondary : List Label := []
  deriving DecidableEq, Repr, Inhabited

namespace Diagnostic

/-- A problem at a span, without context. -/
def of (problem : Problem) (span : Span) (message : String) : Diagnostic :=
  { problem, primary := ⟨span, message⟩ }

/-- A broken invariant of the interpreter, found at a span. -/
def internal (span : Span) (message : String) : Diagnostic :=
  .of .internalInvariant span message

/-- A problem that concerns a file as a whole. -/
def atFile (problem : Problem) (file : FileId) (message : String) : Diagnostic :=
  .of problem ⟨0, 0, file⟩ message

def withContext (d : Diagnostic) (key item : String) : Diagnostic :=
  { d with context := d.context ++ [(key, item)] }

def withSecondary (d : Diagnostic) (span : Span) (message : String) : Diagnostic :=
  { d with secondary := d.secondary ++ [⟨span, message⟩] }

def isFatal (d : Diagnostic) : Bool := d.problem.isFatal

/-- The description of the problem, followed by the context in parentheses when there is any. -/
def description (d : Diagnostic) : String :=
  match d.context with
  | [] => d.problem.message
  | context =>
    let items := context.map fun (key, item) => s!"{key}={item}"
    d.problem.message ++ " (" ++ ", ".intercalate items ++ ")"

/-- The diagnostic on one line: code, description, place and message, then the other places. -/
def text (d : Diagnostic) : String :=
  let head := s!"{d.problem.code}: {d.description} ({d.primary.span.text}) {d.primary.message}"
  d.secondary.foldl (fun out l => out ++ s!"; {l.message} ({l.span.text})") head

end Diagnostic

end StructuredText
