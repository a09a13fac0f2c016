-- SUMMARY: The storage of a program: instances, places of values, and reading and writing them.
import StructuredText.Library
import StructuredText.TypeTable.Assign

/-!
# Storage

The storage of a program holds the values of the global variables, the variables of every instance, and the
direct memory. A place is a variable together with the positions that lead to a part of its value. Variables
located in direct memory are read through it and written through it.
-/

namespace StructuredText

/-- The variables of one program, function or function block. -/
structure Instance where
  pou : Nat
  /-- The values in the order of declaration. -/
  vars : Array Value := #[]
  deriving Inhabited

/-- The variable that holds a value. -/
inductive Slot where
  | global (position : Nat)
  | own (i : InstanceId) (position : Nat)
  deriving DecidableEq, Repr, Inhabited

namespace Slot

def text : Slot → String
  | global position => s!"global {position}"
  | own i position => s!"variable {position} of instance {i}"

end Slot

/-- A value in a variable, by the positions of the elements and members that lead to it. -/
structure Place where
  slot : Slot
  path : List Nat := []
  deriving DecidableEq, Repr, Inhabited

structure Storage where
  globals : Array Value := #[]
  instances : Array Instance := #[]
  /-- The only instance of each program and function. -/
  units : List (Nat × InstanceId) := []
  memory : DirectMemory := {}
  deriving Inhabited

/-- An operation on the storage. What it has changed stays when it fails. -/
abbrev Storing := EStateM ValueError Storage

namespace Storage

-- ---------------------------------------------------------------------------
-- Instances
-- ---------------------------------------------------------------------------

def instance? (s : Storage) (i : InstanceId) : Except ValueError Instance :=
  match s.instances[i]? with
  | some found => .ok found
  | none => .error (.internal s!"no instance {i}")

/-- The instance of a program or a function. -/
def unitInstance (s : Storage) (pou : Nat) : Except ValueError InstanceId :=
  match s.units.lookup pou with
  | some i => .ok i
  | none => .error (.internal s!"no instance of unit {pou}")

/-- The declaration of the unit that an instance belongs to. -/
def pouOf (l : Library) (s : Storage) (i : InstanceId) : Except ValueError Pou := do
  let found ← s.instance? i
  match l.pous[found.pou]? with
  | some p => pure p
  | none => throw (.internal s!"no unit {found.pou}")

/-- The declaration of a variable. -/
def declOf (l : Library) (s : Storage) (slot : Slot) : Except ValueError VarDecl := do
  let decl? ← match slot with
    | .global g => pure l.globals[g]?
    | .own i position => do pure (← s.pouOf l i).vars[position]?
  match decl? with
  | some v => pure v
  | none => throw (.internal s!"no declaration of {slot.text}")

-- ---------------------------------------------------------------------------
-- Values
-- ---------------------------------------------------------------------------

/-- The value of a variable. -/
def slotValue (s : Storage) (slot : Slot) : Except ValueError Value := do
  let value? ← match slot with
    | .global g => pure s.globals[g]?
    | .own i position => do pure (← s.instance? i).vars[position]?
  match value? with
  | some v => pure v
  | none => throw (.internal s!"no storage for {slot.text}")

def setSlot (s : Storage) (slot : Slot) (v : Value) : Storage :=
  match slot with
  | .global g => { s with globals := s.globals.setIfInBounds g v }
  | .own i position =>
    let change (found : Instance) : Instance :=
      { found with vars := found.vars.setIfInBounds position v }
    { s with instances := s.instances.modify i change }

def value (s : Storage) (p : Place) : Except ValueError Value := do
  (← s.slotValue p.slot).descend p.path

-- ---------------------------------------------------------------------------
-- Places
-- ---------------------------------------------------------------------------

/-- The place of a variable of an instance. An external variable is in the global that it stands for. -/
def placeOf (l : Library) (s : Storage) (i : InstanceId) (position : Nat) :
    Except ValueError Place := do
  let decl ← s.declOf l (.own i position)
  match decl.kind with
  | .external (some g) => pure ⟨.global g, []⟩
  | .external none => throw (.internal s!"external {decl.name.text} is not linked")
  | _ => pure ⟨.own i position, []⟩

/-- The instance that the function block at a place is bound to. -/
def blockAt (s : Storage) (p : Place) : Except ValueError InstanceId := do
  match ← s.value p with
  | .block ⟨_, some i⟩ => pure i
  | v => throw (.internal s!"{v.kindText} value is not a bound function block")

/-- The place after one more hop. -/
def follow (l : Library) (s : Storage) (p : Place) : Hop → Except ValueError Place
  | .child position => .ok { p with path := p.path ++ [position] }
  | .var position => do s.placeOf l (← s.blockAt p) position

/-- The place of a reference in the body of an instance, or in a query. -/
def locate (l : Library) (s : Storage) (current : Option InstanceId) (root : Root)
    (hops : List Hop) : Except ValueError Place :=
  match root, hops with
  | .own position, hops => do
    match current with
    | some i => hops.foldlM (s.follow l) (← s.placeOf l i position)
    | none => throw (.internal "local variable outside of an instance")
  | .global g, hops => hops.foldlM (s.follow l) ⟨.global g, []⟩
  | .program pou, .var position :: hops => do
    hops.foldlM (s.follow l) (← s.placeOf l (← s.unitInstance pou) position)
  | .program _, .child _ :: _ => .error (.internal "element of a program instance")
  | .program _, [] => .error (.internal "program instance is not a value")

-- ---------------------------------------------------------------------------
-- Reading and writing
-- ---------------------------------------------------------------------------

/-- The type and the address of a variable that is located in direct memory. -/
def located? (l : Library) (s : Storage) (slot : Slot) :
    Except ValueError (Option (TypeId × Address)) := do
  let decl ← s.declOf l slot
  match decl.kind with
  | .direct address => pure (some (← decl.type.id, address))
  | _ => pure none

/-- Reads the value at a place. A variable located in direct memory takes its value from there first. -/
def load (l : Library) (p : Place) : Storing Value := do
  if p.path.isEmpty then
    match ← ofExcept ((← get).located? l p.slot) with
    | some (type, address) =>
      let v ← ofExcept ((← get).memory.load l.types type address)
      modify (·.setSlot p.slot v)
    | none => pure ()
  ofExcept ((← get).value p)

/--
Assigns to a place, under the type and the class that are known where the assignment is written. A variable
located in direct memory is copied there.
-/
def store (l : Library) (p : Place) (type : Option TypeId) (storage : StorageClass) (name : String)
    (source : Value) : Storing Unit := do
  let whole ← ofExcept ((← get).slotValue p.slot)
  let changed ← ofExcept (whole.modifyAt (l.types.assign type storage name · source) p.path)
  modify (·.setSlot p.slot changed)
  if p.path.isEmpty then
    match ← ofExcept ((← get).located? l p.slot) with
    | some (type, address) =>
      let v ← ofExcept ((← get).slotValue p.slot)
      let memory ← ofExcept ((← get).memory.store l.types type address v)
      modify ({ · with memory })
    | none => pure ()

/--
Sets the variables of an instance to their defaults. Function block variables keep their instances.
-/
def resetFrame (l : Library) (i : InstanceId) : Storing Unit := do
  let s ← get
  let found ← ofExcept (s.instance? i)
  let p ← ofExcept (s.pouOf l i)
  let fresh := (p.vars.zip found.vars.toList).map fun (decl, v) =>
    if decl.default.holdsBlock then keepInstances v decl.default else decl.default
  set { s with instances := s.instances.setIfInBounds i { found with vars := fresh.toArray } }

end Storage

end StructuredText
