-- SUMMARY: Pools of references by name, which are looked up together and then handed to the items that hold them.
import StructuredText.Diagnostic

/-!
# Pools of references

A declaration may refer to another one that comes later or stands in another source. So the references of
a scope are collected in a pool first. `resolve` looks up every name in a table. `trigger` hands each
reference what was found for its name and, only if none of them was refused, runs the checks, which may
rely on every reference being in place.

The references of one name form a group. Groups are kept in the order in which their names were first
referred to.
-/

namespace StructuredText

/-- A reference from the item `referrer`. A check that looks up no name has none. -/
structure Reference (ρ : Type) where
  name : Option Ident
  referrer : ρ
  span : Span
  deriving Repr, Inhabited

/-- The name as it is written. -/
def Reference.text (r : Reference ρ) : String :=
  match r.name with
  | some name => name.text
  | none => ""

/-- The result of looking up a name. -/
inductive Resolution (σ : Type) where
  | unresolved
  | found (symbol : σ)
  | notFound
  deriving DecidableEq, Repr, Inhabited

namespace Resolution

def ofOption : Option σ → Resolution σ
  | some symbol => .found symbol
  | none => .notFound

end Resolution

/-- A reference in a group, and whether it is checked once all references are in place. -/
structure RefEntry (ρ : Type) where
  reference : Reference ρ
  checked : Bool
  deriving Repr, Inhabited

/-- The references to one name. -/
structure RefGroup (ρ σ : Type) where
  name : Ident
  resolution : Resolution σ := .unresolved
  entries : List (RefEntry ρ) := []
  deriving Repr, Inhabited

structure RefPool (ρ σ : Type) where
  groups : List (RefGroup ρ σ) := []
  /-- Checks that look up no name, which run after those of the groups. -/
  checks : List (Reference ρ) := []
  deriving Repr, Inhabited

namespace RefPool

variable {ρ σ τ : Type}

-- ---------------------------------------------------------------------------
-- Collecting
-- ---------------------------------------------------------------------------

/-- Adds an entry to the group of its name, which is created at the end when there is none. -/
def addEntry (name : Ident) (entry : RefEntry ρ) : List (RefGroup ρ σ) → List (RefGroup ρ σ)
  | [] => [{ name, entries := [entry] }]
  | g :: gs =>
    if g.name == name then { g with entries := g.entries ++ [entry] } :: gs
    else g :: addEntry name entry gs

/-- Adds a reference to a name. -/
def add (p : RefPool ρ σ) (name : Ident) (referrer : ρ) (span : Span) (checked : Bool := false) :
    RefPool ρ σ :=
  { p with groups := addEntry name ⟨⟨some name, referrer, span⟩, checked⟩ p.groups }

/-- Adds a check that looks up no name. -/
def addCheck (p : RefPool ρ σ) (referrer : ρ) (span : Span) : RefPool ρ σ :=
  { p with checks := p.checks ++ [⟨none, referrer, span⟩] }

/-- All references by name, group by group. -/
def entries (p : RefPool ρ σ) : List (RefEntry ρ) := p.groups.flatMap (·.entries)

/-- The pool with the references of another one added. -/
def append (p other : RefPool ρ σ) : RefPool ρ σ :=
  let groups := other.entries.foldl (fun groups entry =>
    match entry.reference.name with
    | some name => addEntry name entry groups
    | none => groups) p.groups
  ⟨groups, p.checks ++ other.checks⟩

/-- The number of references and checks. -/
def size (p : RefPool ρ σ) : Nat := p.entries.length + p.checks.length

-- ---------------------------------------------------------------------------
-- Looking up
-- ---------------------------------------------------------------------------

/-- Looks up every name and keeps what was found. -/
def resolve (p : RefPool ρ σ) (lookup : Ident → Option σ) : RefPool ρ σ :=
  { p with groups := p.groups.map fun g => { g with resolution := .ofOption (lookup g.name) } }

/-- Forgets what was found. -/
def reset (p : RefPool ρ σ) : RefPool ρ σ :=
  { p with groups := p.groups.map fun g => { g with resolution := .unresolved } }

/-- What was found for a name, if it is referred to. -/
def resolution? (p : RefPool ρ σ) (name : Ident) : Option (Resolution σ) :=
  (p.groups.find? (·.name == name)).map (·.resolution)

-- ---------------------------------------------------------------------------
-- Triggering
-- ---------------------------------------------------------------------------

/--
What is done with the references of a pool. Both functions work on a state and return the diagnostic when
they refuse the reference.
-/
structure Handler (ρ σ τ : Type) where
  /-- Takes what was found for the name of a reference. -/
  resolved : Reference ρ → Option σ → τ → Option Diagnostic × τ
  check : Reference ρ → τ → Option Diagnostic × τ := fun _ s => (none, s)

/-- Runs an action on each item in turn and collects the diagnostics. -/
def visit (action : α → τ → Option Diagnostic × τ) : List α → τ → List Diagnostic × τ
  | [], s => ([], s)
  | a :: rest, s =>
    let (d, s) := action a s
    let (ds, s) := visit action rest s
    (d.toList ++ ds, s)

/-- The references of a group with what was found for them, or the diagnostic for a missing look-up. -/
def groupTasks (g : RefGroup ρ σ) : List (Except Diagnostic (Reference ρ × Option σ)) :=
  match g.resolution with
  | .found symbol => g.entries.map fun e => .ok (e.reference, some symbol)
  | .notFound => g.entries.map fun e => .ok (e.reference, none)
  | .unresolved =>
    match g.entries.head? with
    | some e =>
      [.error (.internal e.reference.span
        s!"Reference to {g.name.text} triggered before resolving")]
    | none => []

/-- The references that are checked once all references are in place. -/
def checkTasks (p : RefPool ρ σ) : List (Reference ρ) :=
  (p.entries.filter (·.checked)).map (·.reference) ++ p.checks

/--
Hands every reference what was found for its name and then runs the checks, unless a reference was
refused. Returns the diagnostics of the last of these two phases that ran.
-/
def trigger (p : RefPool ρ σ) (handler : Handler ρ σ τ) (state : τ) : List Diagnostic × τ :=
  let (errors, state) := visit (fun task s =>
    match task with
    | .ok (reference, symbol) => handler.resolved reference symbol s
    | .error d => (some d, s)) (p.groups.flatMap groupTasks) state
  if errors.isEmpty then visit handler.check p.checkTasks state else (errors, state)

end RefPool

end StructuredText
