-- SUMMARY: Libraries: all declarations of a program, and what names stand for in it.
import StructuredText.CompilationUnit

/-!
# Libraries

A library holds the types, global variables and units of all sources of a program. A name in a body stands
for a variable of the unit, a global variable, a program or an enumerated value, in this order; the name of
a call stands for a variable of the unit, a global variable, a function or a standard function.
-/

namespace StructuredText

structure Options where
  /-- Sources are linked although their tokens had errors. -/
  linkDespiteErrors : Bool := false
  /-- A cycle with more micro-steps is abandoned. -/
  maxMicroSteps : Nat := 1000000
  /-- The size of each area of the direct memory. -/
  memorySize : Nat := 1024
  /-- Reals that lie closer are equal. -/
  realEpsilon : Float := 0.0001
  deriving Inhabited

structure Library where
  types : TypeTable := .initial
  globals : List VarDecl := []
  pous : List Pou := []
  /-- The size of each area of the direct memory. -/
  memorySize : Nat := 0
  deriving Inhabited

/-- The scope that declares a variable. -/
inductive Owner where
  | global
  | pou (name : Ident)
  deriving Repr, Inhabited

/-- The position of the last item with the property. -/
def lastIdx? (p : α → Bool) (items : List α) : Option Nat :=
  ((items.zipIdx.filter fun (a, _) => p a).getLast?).map (·.2)

namespace Library

-- ---------------------------------------------------------------------------
-- Declarations
-- ---------------------------------------------------------------------------

def findGlobal? (l : Library) (name : Ident) : Option Nat := l.globals.findIdx? (·.name == name)

def findPou? (l : Library) (name : Ident) : Option Nat := l.pous.findIdx? (·.name == name)

/-- The position of the program with the name. -/
def program? (l : Library) (name : Ident) : Option Nat := do
  let position ← l.findPou? name
  let p ← l.pous[position]?
  if p.kind = .program then some position else none

/-- The first variable with the name in a scope. -/
def var? (l : Library) (owner : Owner) (name : Ident) : Option VarDecl :=
  match owner with
  | .global => l.globals.find? (·.name == name)
  | .pou pou => do (← l.pous.find? (·.name == pou)).vars.find? (·.name == name)

/-- Changes the first item with the property. -/
def modifyFirst (p : α → Bool) (f : α → α) : List α → List α
  | [] => []
  | a :: rest => if p a then f a :: rest else a :: modifyFirst p f rest

/-- Changes the first variable with the name in a scope. -/
def modifyVar (l : Library) (owner : Owner) (name : Ident) (f : VarDecl → VarDecl) : Library :=
  match owner with
  | .global => { l with globals := modifyFirst (·.name == name) f l.globals }
  | .pou pou =>
    let change (p : Pou) : Pou := { p with vars := modifyFirst (·.name == name) f p.vars }
    { l with pous := modifyFirst (·.name == pou) change l.pous }

def modifyPou (l : Library) (pou : Nat) (f : Pou → Pou) : Library :=
  { l with pous := l.pous.modify pou f }

/-- The positions of the units of the kinds. -/
def pousOf (l : Library) (kind : PouKind → Bool) : List Nat :=
  (l.pous.zipIdx.filter (kind ·.1.kind)).map (·.2)

-- ---------------------------------------------------------------------------
-- Names in bodies
-- ---------------------------------------------------------------------------

/-- The position of the program, function or function block with the name. -/
def unitNamed? (l : Library) (kind : PouKind) (name : Ident) : Option Nat :=
  lastIdx? (fun p => p.kind = kind && p.name == name) l.pous

/-- The last enumerated type that has a value with the name. -/
def enumeration? (l : Library) (name : Ident) : Option TypeId :=
  lastIdx? (fun (d : TypeDecl) =>
    match d.kind with
    | .enumeration values _ => values.any (· == name)
    | _ => false) l.types.types.toList

/-- What a name stands for in the body of a unit, or in a query. -/
def symbol? (l : Library) (pou : Option Pou) (name : Ident) : Option Symbol :=
  let own := do lastIdx? (fun (v : VarDecl) => v.name == name) (← pou).vars
  (own.map (.root <| .own ·))
  <|> ((lastIdx? (fun (v : VarDecl) => v.name == name) l.globals).map (.root <| .global ·))
  <|> ((l.unitNamed? .program name).map (.root <| .program ·))
  <|> ((l.enumeration? name).map .enumerated)

/--
What the name of a call stands for in the body of a unit, or in a query. The variable that holds the result
of a function does not hide the function.
-/
def callee? (l : Library) (pou : Option Pou) (name : Ident) : Option Callee :=
  let own := do
    lastIdx? (fun (v : VarDecl) => v.name == name && v.section ≠ Section.result) (← pou).vars
  (own.map (.instance <| .own ·))
  <|> ((lastIdx? (fun (v : VarDecl) => v.name == name) l.globals).map (.instance <| .global ·))
  <|> ((l.unitNamed? .function name).map .function)
  <|> ((StandardFunction.find? name).map .standard)

end Library

end StructuredText
