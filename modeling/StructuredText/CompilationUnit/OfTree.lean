-- SUMMARY: Compilation units from the trees of sources.
import StructuredText.Body.OfTree
import StructuredText.CompilationUnit

/-!
# Compilation units from trees

The declarations of a tree are added one after the other. A type that is written in place is added just
before the declaration that it belongs to. An address that cannot be read is reported, and its variable is
declared without it.
-/

namespace StructuredText.CompilationUnit

/-- Adds declarations to a unit. -/
abbrev Building := StateM CompilationUnit

-- ---------------------------------------------------------------------------
-- Types
-- ---------------------------------------------------------------------------

def addType (name : Ident) (kind : TypeKind) : Building Unit :=
  modify fun u => { u with types := u.types ++ [{ name, kind, span := name.span }] }

def addUse (target holder : Ident) (slot : TypeSlot) (span : Span) : Building Unit :=
  modify fun u => { u with uses := u.uses ++ [⟨target, holder, slot, span⟩] }

def addAlias (name parent : Ident) (initial : Option Value) : Building Unit := do
  addUse parent name .parent name.span
  addType name (.alias { name := parent } initial)

def addSubrange (name base : Ident) (min max : Int) (initial : Option Value) : Building Unit := do
  addUse base name .base name.span
  addType name (.subrange { name := base } min max initial)

/-- Adds an array type whose element type has been added. -/
def addArray (name element : Ident) (dimensions : List Dimension) (initial : Option Value) :
    Building Unit := do
  addUse element name .element name.span
  addType name (.array { name := element } dimensions initial)

/--
The name of a type. A type that is written in place is added under the name of its declaration, and an
element type that is written in place under that name followed by `element`.
-/
def typeName (name : Ident) : Tree.TypeExpr → Building Ident
  | .named type => pure type
  | .subrange base min max => do
    addSubrange name base min max none
    pure name
  | .array element dimensions => do
    let element ← typeName ⟨name.text ++ ".element", name.span⟩ element
    addArray name element dimensions none
    pure name

/-- The name of a type that is written in place in the scope of another name. -/
def scopedName (scope : String) (name : Ident) : Ident := ⟨scope ++ "." ++ name.text, name.span⟩

def addMembers (type : Ident) : List (Tree.Member × Nat) → Building (List StructMember)
  | [] => pure []
  | (m, position) :: rest => do
    let target ← typeName (scopedName type.text m.name) m.type
    addUse target type (.member position) m.name.span
    let member : StructMember :=
      { name := m.name, type := { name := target }, initial := m.initial, span := m.name.span }
    pure (member :: (← addMembers type rest))

def addTypeDecl (d : Tree.TypeDecl) : Building Unit :=
  match d.body with
  | .alias parent initial => addAlias d.name parent initial
  | .enumeration values initial => addType d.name (.enumeration values initial)
  | .subrange base min max initial => addSubrange d.name base min max initial
  | .array element dimensions initial => do
    let element ← typeName ⟨d.name.text ++ ".element", d.name.span⟩ element
    addArray d.name element dimensions initial
  | .struct members => do
    let members ← addMembers d.name members.zipIdx
    addType d.name (.struct members)

-- ---------------------------------------------------------------------------
-- Variables
-- ---------------------------------------------------------------------------

/-- A variable that is not added to a scope yet, so that its type may still be written in place. -/
structure PendingVar where
  name : Ident
  «section» : Section
  type : Tree.TypeExpr
  storage : StorageClass := {}
  initial : Option Value := none
  address : Option Address := none

/-- The address of a line, or the report that it cannot be read. -/
def address (location : Option (String × Span)) : Building (Option Address) :=
  match location with
  | none => pure none
  | some (text, span) =>
    match Address.read? text with
    | some a => pure (some a)
    | none => do
      let d := Diagnostic.of .invalidAddress span s!"{text} is not a valid direct address"
      modify fun u => { u with diagnostics := u.diagnostics ++ [d] }
      pure none

/-- The variables of a block, one for each name. -/
def blockVars (b : Tree.VarBlock) : Building (List PendingVar) := do
  let storage : StorageClass :=
    { constant := b.qualifiers.constant, retain := b.qualifiers.retain }
  let lines ← b.lines.mapM fun line => do
    let address ← address line.address
    let var (name : Ident) : PendingVar :=
      { name, «section» := b.section, type := line.type, storage, initial := line.initial, address }
    pure (line.names.map var)
  pure lines.flatten

/-- Declares a variable in a scope. -/
def declare (scope : String) (v : PendingVar) : Building VarDecl := do
  let type ← typeName (scopedName scope v.name) v.type
  let decl : VarDecl :=
    { name := v.name, «section» := v.section, type := { name := type }, storage := v.storage,
      initial := v.initial }
  if v.section = .external then
    pure { decl with storage := { v.storage with external := true }, kind := .external none }
  else
    match v.address with
    | some a => pure { decl with kind := .direct a }
    | none => pure decl

/-- The scope of global variables in the names of types. -/
def globalScope : String := "VAR_GLOBAL"

def addGlobals (b : Tree.VarBlock) : Building Unit := do
  for v in ← blockVars b do
    let decl ← declare globalScope v
    modify fun u => { u with globals := u.globals ++ [decl] }

-- ---------------------------------------------------------------------------
-- Program organization units
-- ---------------------------------------------------------------------------

def addPou (p : Tree.Pou) : Building Unit := do
  let blocks ← p.blocks.mapM blockVars
  let result : List PendingVar :=
    match p.returns with
    | some type => [{ name := p.name, «section» := .result, type }]
    | none => []
  let vars ← (blocks.flatten ++ result).mapM (declare p.name.text)
  let built := Body.ofStatements p.body p.name.span
  let pou : Pou := { name := p.name, kind := p.kind, vars, body := built.1, pools := built.2 }
  modify fun u => { u with pous := u.pous ++ [pou] }

-- ---------------------------------------------------------------------------
-- Units
-- ---------------------------------------------------------------------------

def addElement : Tree.Element → Building Unit
  | .types declarations => declarations.forM addTypeDecl
  | .globals block => addGlobals block
  | .pou p => addPou p

/-- The unit of a source with the problems that were found in its tokens. -/
def ofElements (file : FileId) (diagnostics : List Diagnostic) (elements : List Tree.Element) :
    CompilationUnit :=
  ((elements.forM addElement).run { file, diagnostics }).2

end StructuredText.CompilationUnit
