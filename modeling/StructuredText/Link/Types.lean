-- SUMMARY: Links the declarations of types to each other and checks them.
import StructuredText.Graph
import StructuredText.Link.Merge
import StructuredText.TypeTable.Create

/-!
# Linking types

Every name of a type in the declaration of another type is looked up. Then bounds and initial values are
checked, types that contain themselves are refused, and every type has to have a default value.
-/

namespace StructuredText.Link

-- ---------------------------------------------------------------------------
-- References between types
-- ---------------------------------------------------------------------------

/-- Fills in the identifier of the type that a part of a declaration refers to. -/
def setSlot? (kind : TypeKind) (slot : TypeSlot) (id : TypeId) : Option TypeKind :=
  match kind, slot with
  | .alias parent initial, .parent => some (.alias { parent with id? := some id } initial)
  | .subrange base min max initial, .base =>
    some (.subrange { base with id? := some id } min max initial)
  | .array element dimensions initial, .element =>
    some (.array { element with id? := some id } dimensions initial)
  | .struct members, .member position =>
    if position < members.length then
      some (.struct (members.modify position fun m => { m with type := { m.type with id? := some id } }))
    else none
  | _, _ => none

/-- Fills in the identifier of a type that the declaration of another one refers to. -/
def setUse? (l : Library) (use : TypeUse) (id : TypeId) : Option Library := do
  let holder ← l.types.lookup? use.holder
  let d ← l.types.get? holder
  let kind ← setSlot? d.kind use.slot id
  pure { l with types := ⟨l.types.types.setIfInBounds holder { d with kind }⟩ }

/-- The diagnostic of a name that is not the name of a type. -/
def notAType (r : Reference ρ) : Diagnostic :=
  .of .unresolvedType r.span s!"{r.text} is not a type"

/-- The diagnostic of a reference whose declaration is missing. -/
def noHolder (r : Reference ρ) : Diagnostic :=
  .internal r.span s!"No declaration holds the reference to {r.text}"

def bindUse (r : Reference TypeUse) (found : Option TypeId) (l : Library) :
    Option Diagnostic × Library :=
  match found with
  | none => (some (notAType r), l)
  | some id =>
    match setUse? l r.referrer id with
    | some l => (none, l)
    | none => (some (noHolder r), l)

-- ---------------------------------------------------------------------------
-- Checks
-- ---------------------------------------------------------------------------

/-- The initial value of an alias is a value of the parent type. -/
def checkAlias (types : TypeTable) (span : Span) (parent : TypeRef) (initial : Option Value) :
    Except Diagnostic Unit := do
  match initial with
  | none => pure ()
  | some v =>
    let parent ← atSpan span parent.id
    atSpan span (types.canHold parent v)

def invalidSubrange (d : TypeDecl) (message : String) : Diagnostic :=
  (Diagnostic.of .invalidSubrange d.span message).withContext "type" d.name.text

/-- A subrange narrows an integer type and contains its initial value. -/
def checkSubrange (types : TypeTable) (id : TypeId) (d : TypeDecl) (base : TypeRef) (min max : Int)
    (initial : Option Value) : Except Diagnostic Unit := do
  let base ← atSpan d.span base.id
  let baseClass ← atSpan d.span (types.classOf base)
  let baseName := types.nameOf base
  if !baseClass.category.isInteger then
    throw (invalidSubrange d s!"Subrange base {baseName} is not an integer type")
  if min > max then
    throw (invalidSubrange d s!"Lower limit {min} is above upper limit {max}")
  match [min, max].find? fun limit => !(types.canHold base (.integer limit)).isOk with
  | some limit => throw (invalidSubrange d s!"Limit {limit} is outside of {baseName}")
  | none =>
    match initial with
    | none => pure ()
    | some v => atSpan d.span (types.canHold id v)

/-- No dimension of an array is empty. -/
def checkBounds (d : TypeDecl) (dimensions : List Dimension) : Except Diagnostic Unit :=
  match dimensions.find? fun dim => dim.min > dim.max with
  | some dim =>
    .error ((Diagnostic.of .invalidArrayBounds d.span
      s!"Bounds {dim.min}..{dim.max} are empty").withContext "type" d.name.text)
  | none => .ok ()

/-- Checks the declaration that refers to another type. -/
def checkUse (r : Reference TypeUse) (types : TypeTable) : Except Diagnostic Unit := do
  let holder := r.referrer.holder
  match types.lookup? holder with
  | none => throw (.internal r.span s!"{holder.text} is not declared")
  | some id =>
    let d ← atSpan r.span (types.get id)
    match r.referrer.slot, d.kind with
    | .parent, .alias parent initial => checkAlias types r.span parent initial
    | .base, .subrange base min max initial => checkSubrange types id d base min max initial
    | .element, .array _ dimensions _ => checkBounds d dimensions
    | _, _ => pure ()

/-- The uses of types as a pool. Members of structures have no check. -/
def usePool (uses : List TypeUse) : RefPool TypeUse TypeId :=
  uses.foldl (fun pool use =>
    let checked := match use.slot with
      | .member _ => false
      | _ => true
    pool.add use.target use use.span checked) {}

/-- The diagnostic of a check, which changes nothing. -/
def refusal (check : Except Diagnostic Unit) (state : τ) : Option Diagnostic × τ :=
  match check with
  | .ok _ => (none, state)
  | .error d => (some d, state)

/-- Links the uses of types and runs their checks. -/
def linkUses (uses : List TypeUse) (l : Library) : Except (List Diagnostic) Library :=
  let pool := (usePool uses).resolve l.types.lookup?
  let (errors, l) := pool.trigger
    { resolved := bindUse, check := fun r l => refusal (checkUse r l.types) l } l
  finish errors l

-- ---------------------------------------------------------------------------
-- Whole types
-- ---------------------------------------------------------------------------

/-- The types with the types that they are directly made of. -/
def containment (types : TypeTable) : Graph := .ofEdges types.ids types.contained

/-- The types of a component contain themselves: there are several of them, or the only one contains itself. -/
def isCyclic (g : Graph) (component : List TypeId) : Bool :=
  component.length > 1 || component.head?.any fun id => (g.next id).contains id

/-- Adds the types of a component in increasing order, except for those that were reported before. -/
def reportAll (reported component : List TypeId) : List TypeId :=
  (component.mergeSort (· ≤ ·)).foldl
    (fun reported id => if reported.contains id then reported else reported ++ [id]) reported

/-- The types of the components that contain themselves. -/
def recursiveIds (g : Graph) (components : List (List TypeId)) : List TypeId :=
  components.foldl
    (fun reported component => if isCyclic g component then reportAll reported component else reported) []

/-- Reports the types that contain themselves, from the strongly connected components of their containment. -/
def recursiveTypes (components : Graph → List (List TypeId)) (types : TypeTable) : List Diagnostic :=
  let g := containment types
  (recursiveIds g (components g)).filterMap fun id => (types.get? id).map fun d =>
    (Diagnostic.of .recursiveCycle d.span s!"{d.name.text} contains itself").withContext
      "type" d.name.text

/-- The default value of a declared type has to exist. -/
def checkDefault (types : TypeTable) (id : TypeId) : Option Diagnostic :=
  match types.get? id with
  | none => none
  | some d =>
    match d.kind with
    | .elementary _ | .block _ => none
    | _ =>
      match types.create id none with
      | .ok _ => none
      | .error e => some ((e.at d.span).withContext "type" d.name.text)

def linkTypes (uses : List TypeUse) (l : Library) : Except (List Diagnostic) Library := do
  let l ← linkUses uses l
  finish (recursiveTypes Graph.components l.types) ()
  finish (l.types.ids.filterMap (checkDefault l.types)) l

end StructuredText.Link
