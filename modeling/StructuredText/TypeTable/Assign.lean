-- SUMMARY: The rules for assigning to variables, when it happens and ahead of it.
import StructuredText.StorageClass
import StructuredText.TypeTable.Create

/-!
# Assignment

A value assigned to a variable is converted to the type of the variable. Whether an assignment can succeed
is decided ahead by the types alone, except that a constant has to be a value of the target type.
-/

namespace StructuredText.TypeTable

/--
The value of a target after an assignment. A target without a type or a temporary one takes the source as
it is.
-/
def assign (t : TypeTable) (type : Option TypeId) (storage : StorageClass) (name : String)
    (target source : Value) : Except ValueError Value := do
  if storage.constant then throw (.constantTarget name)
  target.require .assign
  match type with
  | some id => if storage.temporary then pure source else t.coerce id source
  | none => pure source

/-- A value of the source type and class may be assigned to the target type. -/
def assignable (t : TypeTable) (target source : Option TypeId) (storage : StorageClass)
    (value : Value) : Except ValueError Unit := do
  match target with
  | none => pure ()
  | some target =>
    match source with
    | some source =>
      if !t.compatible target source then
        throw (.incompatibleTypes (t.nameOf target) (t.nameOf source))
    | none => pure ()
    if storage.constant then t.canHold target value

end StructuredText.TypeTable
