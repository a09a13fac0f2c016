-- SUMMARY: How values are shown, with the variables of function block instances.
import StructuredText.Storage

/-!
# Showing values

A value is shown as it is written, except that a function block shows the inputs and outputs of its
instance, as in `(IN:1,Q:true)`.
-/

namespace StructuredText.Storage

/-- Values are shown nested at most this deep. -/
def maxDisplayDepth : Nat := 64

/-- The named parts of a structure or an instance. -/
def showParts (parts : List (String × String)) : String :=
  "(" ++ ",".intercalate (parts.map fun (name, text) => name ++ ":" ++ text) ++ ")"

/-- The interface variables of an instance with their values. -/
def interface (l : Library) (s : Storage) (block : Nat) (i : InstanceId) :
    Except ValueError (List (VarDecl × Value)) :=
  match l.pous[block]? with
  | none => .error (.internal s!"no unit {block}")
  | some p => do
    let vars := (← s.instance? i).vars.toList
    pure ((p.vars.zip vars).filter (·.1.section.isInterface))

/-- The text of a value whose parts are nested less deep than `depth`. -/
def displayWithin (l : Library) (s : Storage) : (depth : Nat) → Value → Except ValueError String
  | 0, v => .error (.recursive v.kindText)
  | depth + 1, v =>
    match v with
    | .array elements => do
      pure ("[" ++ ",".intercalate (← elements.mapM (displayWithin l s depth)) ++ "]")
    | .struct members => do
      let parts ← members.mapM fun (name, m) => do
        pure (name.text, ← displayWithin l s depth m)
      pure (showParts parts)
    | .block ⟨block, some i⟩ => do
      let parts ← (← s.interface l block i).mapM fun (decl, m) => do
        pure (decl.name.text, ← displayWithin l s depth m)
      pure (showParts parts)
    | v => v.display

/-- The text of a value. -/
def display (l : Library) (s : Storage) (v : Value) : Except ValueError String :=
  s.displayWithin l (maxDisplayDepth + 1) v

end StructuredText.Storage
