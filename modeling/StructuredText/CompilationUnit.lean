-- SUMMARY: Declared variables and program organization units, and the declarations of one source.
import StructuredText.Body
import StructuredText.Memory
import StructuredText.Tree

/-!
# Compilation units

A compilation unit holds the declarations of one source. Types that are written where a variable is declared
are types of their own in it, with names that contain a dot and so differ from all names in the source. The
declarations refer to each other by name until they are linked.
-/

namespace StructuredText

-- ---------------------------------------------------------------------------
-- Variables
-- ---------------------------------------------------------------------------

/-- Where a variable has its value. -/
inductive VarKind where
  | owned
  /-- In a global variable, by its position once it is known. -/
  | external (global : Option Nat)
  /-- In the variable itself and at an address of the direct memory. -/
  | direct (address : Address)
  deriving DecidableEq, Repr, Inhabited

structure VarDecl where
  name : Ident
  «section» : Section
  type : TypeRef
  storage : StorageClass := {}
  initial : Option Value := none
  kind : VarKind := .owned
  /-- The value when a program starts, once it is created. -/
  default : Value := .void
  deriving Inhabited

namespace VarDecl

def span (v : VarDecl) : Span := v.name.span

def isExternal (v : VarDecl) : Bool :=
  match v.kind with
  | .external _ => true
  | _ => false

end VarDecl

-- ---------------------------------------------------------------------------
-- Program organization units
-- ---------------------------------------------------------------------------

/-- A program, function or function block. -/
structure Pou where
  name : Ident
  kind : PouKind
  /-- The variables in the order of declaration. The result of a function is the last one. -/
  vars : List VarDecl
  body : Stmt
  /-- The names in the body. -/
  pools : BodyPools := {}
  deriving Inhabited

namespace Pou

def span (p : Pou) : Span := p.name.span

/-- The position of the variable with the name. -/
def find? (p : Pou) (name : Ident) : Option Nat := p.vars.findIdx? (·.name == name)

/-- The position of the variable that holds the result of a function. -/
def result? (p : Pou) : Option Nat := p.vars.findIdx? (·.section = .result)

/-- The positions of the variables that callers set. -/
def inputs (p : Pou) : List Nat :=
  (p.vars.zipIdx.filter (·.1.section.isInput)).map (·.2)

end Pou

-- ---------------------------------------------------------------------------
-- Uses of types
-- ---------------------------------------------------------------------------

/-- The place in the declaration of a type that refers to another type. -/
inductive TypeSlot where
  | parent | base | element
  | member (position : Nat)
  deriving DecidableEq, Repr, Inhabited

/-- The declaration of a type refers to another type. -/
structure TypeUse where
  /-- The type that is referred to. -/
  target : Ident
  /-- The type whose declaration it is. -/
  holder : Ident
  slot : TypeSlot
  span : Span
  deriving Repr, Inhabited

-- ---------------------------------------------------------------------------
-- Units
-- ---------------------------------------------------------------------------

/-- The declarations of one source. -/
structure CompilationUnit where
  file : FileId
  types : List TypeDecl := []
  /-- The uses of types in the order in which they are come across. -/
  uses : List TypeUse := []
  globals : List VarDecl := []
  pous : List Pou := []
  /-- Problems of the source that do not keep it from being linked. -/
  diagnostics : List Diagnostic := []
  deriving Inhabited

end StructuredText
