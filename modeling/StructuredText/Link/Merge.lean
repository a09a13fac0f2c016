-- SUMMARY: Merges compilation units into a library.
import StructuredText.Library

/-!
# Merging units

The declarations of all units go into one library. A type, a global variable or a unit whose name is taken is
reported with the declaration that has the name, which is kept. A function block takes the name of a type,
too.
-/

namespace StructuredText.Link

/-- All diagnostics of a step, or its result when there are none. -/
def finish (diagnostics : List Diagnostic) (result : α) : Except (List Diagnostic) α :=
  if diagnostics.isEmpty then .ok result else .error diagnostics

/-- Applies a step to every item and collects the diagnostics of all of them. -/
def collect (f : α → Except (List Diagnostic) β) (items : List α) :
    Except (List Diagnostic) (List β) :=
  let results := items.map f
  finish (results.flatMap fun r => match r with
    | .ok _ => []
    | .error ds => ds) (results.filterMap fun r => r.toOption)

/-- The diagnostic of a declaration whose name is taken. -/
def duplicate (name : Ident) (first : Span) : Diagnostic :=
  (Diagnostic.of .duplicateDeclaration name.span s!"{name.text} is already declared").withSecondary
    first "First declaration"

/-- A library with the problems found so far. -/
abbrev Merging := StateM (Library × List Diagnostic)

def report (d : Diagnostic) : Merging Unit := modify fun (l, ds) => (l, ds ++ [d])

/-- Adds a type. Returns whether its name was free. -/
def addType (d : TypeDecl) : Merging Bool := do
  let (l, ds) ← get
  match l.types.add d with
  | .ok types =>
    set ({ l with types }, ds)
    pure true
  | .error existing =>
    report (duplicate d.name (((l.types.get? existing).map (·.span)).getD .builtin))
    pure false

def addGlobal (v : VarDecl) : Merging Unit := do
  let (l, ds) ← get
  match l.globals.find? (·.name == v.name) with
  | some existing => report (duplicate v.name existing.span)
  | none => set ({ l with globals := l.globals ++ [v] }, ds)

def addPou (p : Pou) : Merging Unit := do
  let (l, _) ← get
  match l.pous.find? (·.name == p.name) with
  | some existing => report (duplicate p.name existing.span)
  | none =>
    let type : TypeDecl := { name := p.name, kind := .block l.pous.length, span := p.span }
    let free ← if p.kind = .functionBlock then addType type else pure true
    if free then modify fun (l, ds) => ({ l with pous := l.pous ++ [p] }, ds)

def addUnit (u : CompilationUnit) : Merging Unit := do
  u.types.forM fun d => do let _ ← addType d
  u.globals.forM addGlobal
  u.pous.forM addPou

/-- The library with the declarations of all units. -/
def merge (units : List CompilationUnit) (memorySize : Nat) : Except (List Diagnostic) Library :=
  let (l, ds) := ((units.forM addUnit).run ({ memorySize }, [])).2
  finish ds l

end StructuredText.Link
