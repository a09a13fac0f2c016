-- SUMMARY: Where a piece of text comes from: files, spans, and positions by line and column.

/-!
# Source positions

A span is a range of byte offsets in a source. What the language provides itself (elementary types,
standard functions) has no source and carries the span `Span.builtin`.
-/

namespace StructuredText

/-- Names the source that a span refers to. -/
inductive FileId where
  | file (path : String)
  | builtin
  deriving DecidableEq, Repr, Inhabited

namespace FileId

/-- The source of a text that has no file. -/
def anonymous : FileId := .file ""

def text : FileId → String
  | .file path => path
  | .builtin => "<builtin>"

end FileId

/-- The bytes from `start` up to but not including `stop` of a source. -/
structure Span where
  start : Nat
  stop : Nat
  file : FileId := .anonymous
  deriving DecidableEq, Repr, Inhabited

namespace Span

/-- The span of what has no place in a source. -/
def builtin : Span := ⟨0, 0, .builtin⟩

/-- The start of a source without a file. -/
def origin : Span := ⟨0, 0, .anonymous⟩

/-- From the start of the first span to the end of the second. -/
def join (a b : Span) : Span := ⟨a.start, b.stop, a.file⟩

def text (s : Span) : String :=
  s!"{s.file.text}:{s.start}..{s.stop}"

end Span

end StructuredText
