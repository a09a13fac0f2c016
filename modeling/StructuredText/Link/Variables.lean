-- SUMMARY: Links the declarations of variables: their types, addresses, global variables and initial values.
import StructuredText.Link.Types

/-!
# Linking variables

The type of every variable is looked up, the addresses of variables in direct memory are checked, and the
initial values are created. An external variable starts with the value of its global variable. A function
block must not hold instances of itself.
-/

namespace StructuredText.Link

-- ---------------------------------------------------------------------------
-- Types and addresses
-- ---------------------------------------------------------------------------

/-- The variable whose declaration refers to a type. -/
structure VarUse where
  owner : Owner
  name : Ident
  deriving Inhabited

def bindVarType (r : Reference VarUse) (found : Option TypeId) (l : Library) :
    Option Diagnostic × Library :=
  match found with
  | none => (some (notAType r), l)
  | some id =>
    let { owner, name } := r.referrer
    match l.var? owner name with
    | some _ =>
      (none, l.modifyVar owner name fun v => { v with type := { v.type with id? := some id } })
    | none => (some (noHolder r), l)

/-- The address of a variable is in its area and has the size of the type. -/
def checkAddress (r : Reference VarUse) (l : Library) : Except Diagnostic Unit := do
  let name := r.referrer.name
  match l.var? r.referrer.owner name with
  | none => throw (.internal r.span s!"Variable {name.text} is not declared")
  | some v =>
    match v.kind with
    | .direct address =>
      let type ← atSpan v.span v.type.id
      (DirectMemory.check l.types type address l.memorySize).mapError fun e =>
        (e.at r.span).withContext "variable" name.text
    | _ => pure ()

/-- The uses of types by the variables of a scope. Addresses are checked once the types are known. -/
def headerPool (owner : Owner) (vars : List VarDecl) : RefPool VarUse TypeId :=
  vars.foldl (fun pool v =>
    let pool := pool.add v.type.name ⟨owner, v.name⟩ v.span false
    match v.kind with
    | .direct _ => pool.addCheck ⟨owner, v.name⟩ v.span
    | _ => pool) {}

/-- Links the types of the variables of a scope and checks their addresses. -/
def linkHeader (owner : Owner) (vars : List VarDecl) (l : Library) : List Diagnostic × Library :=
  ((headerPool owner vars).resolve l.types.lookup?).trigger
    { resolved := bindVarType, check := fun r l => refusal (checkAddress r l) l } l

/-- Links the headers of the units at the positions. -/
def linkHeaders (pous : List Nat) (l : Library) : Except (List Diagnostic) Library :=
  let (errors, l) := pous.foldl (fun (errors, l) i =>
    match l.pous[i]? with
    | none => (errors, l)
    | some p =>
      let (ds, l) := linkHeader (.pou p.name) p.vars l
      (errors ++ ds, l)) (([] : List Diagnostic), l)
  finish errors l

-- ---------------------------------------------------------------------------
-- Initial values
-- ---------------------------------------------------------------------------

/-- An error of a variable, which names it. -/
def varError (v : VarDecl) (e : ValueError) : List Diagnostic :=
  [(e.at v.span).withContext "variable" v.name.text]

/-- The variable with its initial value. -/
def createValue (types : TypeTable) (v : VarDecl) : Except (List Diagnostic) VarDecl :=
  match (do types.create (← v.type.id) v.initial) with
  | .ok value => .ok { v with default := value }
  | .error e => .error (varError v e)

/-- The external variable with the value of its global variable, whose type has to be compatible. -/
def shareValue (types : TypeTable) (v global : VarDecl) : Except (List Diagnostic) VarDecl :=
  match v.type.id, global.type.id with
  | .ok own, .ok shared =>
    if types.compatible own shared then .ok { v with default := global.default }
    else
      let message := s!"External {v.name.text} is {types.nameOf own} but the global variable is " ++
        types.nameOf shared
      .error [(Diagnostic.of .incompatibleTypes v.span message).withSecondary global.span
        "Global variable"]
  | .error e, _ | _, .error e => .error (varError v e)

/-- The variable of a unit with its initial value. -/
def createVar (l : Library) (v : VarDecl) : Except (List Diagnostic) VarDecl :=
  match v.kind with
  | .owned | .direct _ => createValue l.types v
  | .external none => .error [.internal v.span "External is not bound"]
  | .external (some g) =>
    match l.globals[g]? with
    | none => .error [.internal v.span "External refers to a missing global"]
    | some global => shareValue l.types v global

/-- Creates the initial values of the units that the condition selects. -/
def createVars (select : PouKind → Bool) (l : Library) : Except (List Diagnostic) Library := do
  let pous ← collect (fun (p : Pou) =>
    if select p.kind then do pure { p with vars := ← collect (createVar l) p.vars }
    else pure p) l.pous
  pure { l with pous }

-- ---------------------------------------------------------------------------
-- Global and external variables
-- ---------------------------------------------------------------------------

def linkGlobals (l : Library) : Except (List Diagnostic) Library := do
  let (errors, l) := linkHeader .global l.globals l
  finish errors ()
  pure { l with globals := ← collect (createValue l.types) l.globals }

/-- The external variable of a unit, by positions. -/
structure ExternalUse where
  pou : Nat
  var : Nat
  deriving Inhabited

def bindExternal (r : Reference ExternalUse) (found : Option Nat) (l : Library) :
    Option Diagnostic × Library :=
  let { pou, var } := r.referrer
  match found with
  | none =>
    let unit := ((l.pous[pou]?).map (·.name.text)).getD ""
    (some ((Diagnostic.of .unresolvedGlobal r.span s!"No global variable {r.text}").withContext
      "pou" unit), l)
  | some global =>
    (none, l.modifyPou pou fun p =>
      { p with vars := p.vars.modify var fun v => { v with kind := .external (some global) } })

/-- Links the external variables of the unit at a position. -/
def linkExternals (l : Library) (pou : Nat) : List Diagnostic × Library :=
  match l.pous[pou]? with
  | none => ([], l)
  | some p =>
    let externals := p.vars.zipIdx.filter (·.1.isExternal)
    let pool : RefPool ExternalUse Nat :=
      externals.foldl (fun pool (v, var) => pool.add v.name ⟨pou, var⟩ v.span false) {}
    (pool.resolve l.findGlobal?).trigger { resolved := bindExternal } l

-- ---------------------------------------------------------------------------
-- Instances of function blocks
-- ---------------------------------------------------------------------------

/-- The function blocks that a variable holds instances of. -/
def blocksOfVar (types : TypeTable) (v : VarDecl) : Except (List Diagnostic) (List Nat) :=
  match v.type.id? with
  | none => .ok []
  | some type => (types.blocksIn type).mapError fun e => [e.at v.span]

/-- The function blocks of a unit with the last variable that holds each of them. -/
def heldBlocks (types : TypeTable) (p : Pou) : Except (List Diagnostic) (List (Nat × VarDecl)) := do
  let held ← p.vars.mapM fun v => do pure ((← blocksOfVar types v).map (·, v))
  pure (held.flatten.foldl (fun blocks (block, v) =>
    if blocks.any (·.1 = block) then blocks.map fun b => if b.1 = block then (block, v) else b
    else blocks ++ [(block, v)]) [])

def containsItself (p : Pou) (v : VarDecl) : Diagnostic :=
  (Diagnostic.of .recursiveCycle v.span
    s!"Instance {v.name.text} makes {p.name.text} contain itself").withContext
    "function block" p.name.text

/--
Variables of function blocks through which a block would hold an instance of itself, from the strongly connected
components of the blocks that hold each other.
-/
def recursiveBlocks (components : Graph → List (List Nat)) (l : Library) : Except (List Diagnostic) (List Diagnostic) := do
  let blocks := l.pousOf (· = .functionBlock)
  let held ← blocks.mapM fun i => do
    match l.pous[i]? with
    | some p => pure (i, ← heldBlocks l.types p)
    | none => pure (i, [])
  let edges (i : Nat) : List (Nat × VarDecl) := (held.lookup i).getD []
  let g := Graph.ofEdges blocks fun i => (edges i).map (·.1)
  pure ((components g).flatMap fun members => (members.mergeSort (· ≤ ·)).flatMap fun i =>
    match l.pous[i]? with
    | none => []
    | some p => ((edges i).filter (members.contains ·.1)).map fun (_, v) => containsItself p v)

/-- Refuses function blocks that hold themselves and creates the initial values of the others. -/
def linkBlocks (l : Library) : Except (List Diagnostic) Library := do
  finish (← recursiveBlocks Graph.components l) ()
  createVars (· = .functionBlock) l

end StructuredText.Link
