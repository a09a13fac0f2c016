-- SUMMARY: Declared types, the table that holds them, and the questions that are asked of a type.
import StructuredText.Dimension
import StructuredText.Elementary

/-!
# Types

A table of types starts with the elementary ones; declared types follow in the order of declaration, and
a type is identified by its position. A declared type refers to other types by name until the references
are resolved.

Aliases and subranges are followed for at most `maxNesting` steps, so that every question has an answer
for types that contain themselves, too.
-/

namespace StructuredText

/-- Identifies a type by its position in a table. -/
abbrev TypeId := Nat

/-- A type named in a declaration, with its identifier once that is known. -/
structure TypeRef where
  name : Ident
  id? : Option TypeId := none
  deriving Repr, Inhabited

def TypeRef.id (r : TypeRef) : Except ValueError TypeId :=
  match r.id? with
  | some id => .ok id
  | none => .error (.internal s!"type {r.name.text} is not resolved")

/-- A member that a structure type declares. -/
structure StructMember where
  name : Ident
  type : TypeRef
  initial : Option Value
  span : Span
  deriving Inhabited

/-- What a type is made of. -/
inductive TypeKind where
  | elementary (e : Elementary)
  | alias (parent : TypeRef) (initial : Option Value)
  | enumeration (values : List Ident) (initial : Option Ident)
  | subrange (base : TypeRef) (min max : Int) (initial : Option Value)
  | array (element : TypeRef) (dimensions : List Dimension) (initial : Option Value)
  | struct (members : List StructMember)
  /-- The instances of a function block, by the position of its declaration. -/
  | block (pou : Nat)
  deriving Inhabited

/-- The types that a value is directly made of, as far as they are known. -/
def TypeKind.parts : TypeKind → List TypeId
  | .alias parent _ => parent.id?.toList
  | .subrange base _ _ _ => base.id?.toList
  | .array element _ _ => element.id?.toList
  | .struct members => members.filterMap (·.type.id?)
  | .elementary _ | .enumeration .. | .block _ => []

structure TypeDecl where
  name : Ident
  kind : TypeKind
  span : Span
  deriving Inhabited

/-- The types of a program. -/
structure TypeTable where
  types : Array TypeDecl
  deriving Inhabited

/-- Types that are nested deeper than this are taken to contain themselves. -/
def maxNesting : Nat := 64

namespace TypeTable

/-- The table with the elementary types only. -/
def initial : TypeTable :=
  ⟨(Elementary.all.map fun e =>
    { name := ⟨e.text, .builtin⟩, kind := .elementary e, span := .builtin }).toArray⟩

/-- The number of elementary types. -/
def elementaryCount : Nat := Elementary.all.length

/-- The identifier of an elementary type. -/
def elementaryId (e : Elementary) : TypeId := Elementary.all.idxOf e

def lookup? (t : TypeTable) (name : Ident) : Option TypeId :=
  match Elementary.find? name with
  | some id => some id
  | none => t.types.findIdx? (·.name == name)

/-- Adds a type. When the name is taken, the result is the type that has it. -/
def add (t : TypeTable) (d : TypeDecl) : Except TypeId TypeTable :=
  match t.lookup? d.name with
  | some existing => .error existing
  | none => .ok ⟨t.types.push d⟩

def get? (t : TypeTable) (id : TypeId) : Option TypeDecl := t.types[id]?

def get (t : TypeTable) (id : TypeId) : Except ValueError TypeDecl :=
  match t.get? id with
  | some d => .ok d
  | none => .error (.internal s!"no type with id {id}")

def nameOf (t : TypeTable) (id : TypeId) : String :=
  match t.get? id with
  | some d => d.name.text
  | none => s!"<type {id}>"

/-- The identifiers of all types. -/
def ids (t : TypeTable) : List TypeId := List.range t.types.size

-- ---------------------------------------------------------------------------
-- Classes and roots
-- ---------------------------------------------------------------------------

def classWithin (t : TypeTable) : (depth : Nat) → TypeId → Except ValueError TypeClass
  | 0, id => .error (.recursive (t.nameOf id))
  | depth + 1, id => do
    match (← t.get id).kind with
    | .elementary e => pure { category := e.category }
    | .alias parent _ => pure (← t.classWithin depth (← parent.id)).derive
    | .subrange base _ _ _ => pure (← t.classWithin depth (← base.id)).derive
    | .enumeration .. => pure { category := .enumeration }
    | .array .. => pure { category := .array }
    | .struct _ => pure { category := .struct }
    | .block _ => pure { category := .block }

def classOf (t : TypeTable) (id : TypeId) : Except ValueError TypeClass :=
  t.classWithin (maxNesting + 1) id

def rootWithin (t : TypeTable) (start : TypeId) : (steps : Nat) → TypeId → Except ValueError TypeId
  | 0, _ => .error (.recursive (t.nameOf start))
  | steps + 1, id => do
    match (← t.get id).kind with
    | .alias parent _ => t.rootWithin start steps (← parent.id)
    | _ => pure id

/-- The type at the end of a chain of aliases. -/
def rootOf (t : TypeTable) (id : TypeId) : Except ValueError TypeId :=
  t.rootWithin id (maxNesting + 1) id

/-- What the type at the end of a chain of aliases is made of. -/
def kindOf (t : TypeTable) (id : TypeId) : Except ValueError TypeKind := do
  pure (← t.get (← t.rootOf id)).kind

def elementaryWithin (t : TypeTable) (start : TypeId) :
    (steps : Nat) → TypeId → Except ValueError (Option Elementary)
  | 0, _ => .error (.recursive (t.nameOf start))
  | steps + 1, id => do
    match (← t.get id).kind with
    | .elementary e => pure (some e)
    | .alias parent _ => t.elementaryWithin start steps (← parent.id)
    | .subrange base _ _ _ => t.elementaryWithin start steps (← base.id)
    | _ => pure none

/-- The elementary type at the end of a chain of aliases and subranges. -/
def elementaryOf (t : TypeTable) (id : TypeId) : Except ValueError (Option Elementary) :=
  t.elementaryWithin id (maxNesting + 1) id

/--
Values of one type may be used where the other type is expected. Enumerations, arrays, structures and
function blocks have to be aliases of the same declaration.
-/
def compatible (t : TypeTable) (a b : TypeId) : Bool :=
  match t.classOf a, t.classOf b with
  | .ok x, .ok y =>
    x.compatible y &&
      (!x.category.isNominal ||
        match t.rootOf a, t.rootOf b with
        | .ok r, .ok s => r = s
        | _, _ => false)
  | _, _ => false

-- ---------------------------------------------------------------------------
-- Parts
-- ---------------------------------------------------------------------------

/-- The position and the type of a structure member. -/
def memberOf (t : TypeTable) (id : TypeId) (name : Ident) :
    Except ValueError (Option (Nat × TypeId)) := do
  match ← t.kindOf id with
  | .struct members =>
    match members.findIdx? (·.name == name), members.find? (·.name == name) with
    | some position, some member => pure (some (position, ← member.type.id))
    | _, _ => pure none
  | _ => pure none

/-- The element type and the dimensions of an array type. -/
def arrayOf (t : TypeTable) (id : TypeId) : Except ValueError (Option (TypeId × List Dimension)) := do
  match ← t.kindOf id with
  | .array element dimensions _ => pure (some (← element.id, dimensions))
  | _ => pure none

/-- The function block whose instances the type has. -/
def blockOf (t : TypeTable) (id : TypeId) : Except ValueError (Option Nat) := do
  match ← t.kindOf id with
  | .block pou => pure (some pou)
  | _ => pure none

/-- The types that a value of the type is directly made of. -/
def contained (t : TypeTable) (id : TypeId) : List TypeId :=
  match t.get? id with
  | some d => d.kind.parts
  | none => []

def blocksWithin (t : TypeTable) : (depth : Nat) → TypeId → Except ValueError (List Nat)
  | 0, id => .error (.recursive (t.nameOf id))
  | depth + 1, id => do
    match (← t.get id).kind with
    | .block pou => pure [pou]
    | _ => pure (← (t.contained id).mapM (t.blocksWithin depth)).flatten

/-- The function blocks that a value of the type holds instances of. -/
def blocksIn (t : TypeTable) (id : TypeId) : Except ValueError (List Nat) :=
  t.blocksWithin (maxNesting + 1) id

end TypeTable

end StructuredText
