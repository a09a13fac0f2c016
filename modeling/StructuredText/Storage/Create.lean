-- SUMMARY: Creating the storage of a linked program, with an instance for every function block value.
import StructuredText.Storage

/-!
# Creating storage

Every variable starts with its default value. A program or a function has one instance, and every function
block value in a variable has an instance of its own, except in an external variable, whose value is in the
global that it stands for. Instances are numbered so that those in the variables of an instance come before
it.
-/

namespace StructuredText

/-- Function blocks are nested at most this deep. -/
def maxBlockDepth : Nat := 64

/-- Creates instances, which are numbered in the order of creation. -/
abbrev Instantiating := StateT (Array Instance) (Except ValueError)

mutual

/-- Gives an instance to every function block in the value that has none. -/
def bindBlocks (create : Nat → Instantiating InstanceId) : Value → Instantiating Value
  | .block ⟨block, none⟩ => do pure (.block ⟨block, some (← create block)⟩)
  | .array elements => do pure (.array (← bindAll create elements))
  | .struct members => do pure (.struct (← bindMembers create members))
  | v => pure v

def bindAll (create : Nat → Instantiating InstanceId) : List Value → Instantiating (List Value)
  | [] => pure []
  | v :: vs => do
    let v ← bindBlocks create v
    pure (v :: (← bindAll create vs))

def bindMembers (create : Nat → Instantiating InstanceId) :
    List (Ident × Value) → Instantiating (List (Ident × Value))
  | [] => pure []
  | (name, v) :: rest => do
    let v ← bindBlocks create v
    pure ((name, v) :: (← bindMembers create rest))

end

/-- The initial value of a variable. A value without function blocks is the default itself. -/
def initialValue (create : Nat → Instantiating InstanceId) (v : VarDecl) : Instantiating Value :=
  if v.isExternal || !v.default.holdsBlock then pure v.default else bindBlocks create v.default

/-- Creates an instance whose function blocks are nested at most `depth - 1` deep. -/
def instantiate (l : Library) : (depth : Nat) → (pou : Nat) → Instantiating InstanceId
  | depth, pou => do
    match l.pous[pou]? with
    | none => throw (.internal s!"no unit {pou}")
    | some p =>
      match depth with
      | 0 => throw (.recursive p.name.text)
      | depth + 1 => do
        let vars ← p.vars.mapM (initialValue (instantiate l depth))
        let instances ← get
        set (instances.push ⟨pou, vars.toArray⟩)
        pure instances.size

/-- The storage of a linked program before its first cycle. -/
def Storage.ofLibrary (l : Library) (memory : DirectMemory) : Except ValueError Storage := do
  let build : Instantiating (List Value × List (Nat × InstanceId)) := do
    let globals ← l.globals.mapM (initialValue (instantiate l maxBlockDepth))
    let units ← (l.pousOf (· ≠ .functionBlock)).mapM fun pou => do
      pure (pou, ← instantiate l (maxBlockDepth + 1) pou)
    pure (globals, units)
  let ((globals, units), instances) ← build.run #[]
  pure { globals := globals.toArray, instances, units, memory }

end StructuredText
