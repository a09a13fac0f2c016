-- SUMMARY: Values of a type: defaults, conversion of initial and assigned values, and resetting.
import StructuredText.TypeTable

/-!
# Creating values

One function creates every value of a type, from an initial value or from none. It decides which values a
type can hold and how an assigned value is converted: a value is acceptable when a value of the type can
be created from it.
-/

namespace StructuredText

/-- Arrays with more elements cannot be stored. -/
def maxElements : Nat := 2 ^ 24

namespace TypeTable

/-- The enumerated value that is chosen, in the spelling of its declaration. -/
def chooseValue (type : Ident) (values : List Ident) (chosen : Ident) : Except ValueError Value :=
  match values.find? (· == chosen) with
  | some v => .ok (.enumeration v)
  | none => .error (.unknownEnumValue chosen.text type.text)

def mismatch (type : Ident) (found : Value) : ValueError :=
  .incompatibleTypes type.text found.kindText

/--
A value of the type from an initial value, or the default value of the type. Structure initializers set
every member; the members of the default value have their own initial values.
-/
def createWithin (t : TypeTable) :
    (depth : Nat) → TypeId → Option Value → Except ValueError Value
  | 0, id, _ => .error (.recursive (t.nameOf id))
  | depth + 1, id, init => do
    let decl ← t.get id
    match decl.kind with
    | .elementary e =>
      match init with
      | some v =>
        e.canHold v
        pure (e.coerce v)
      | none => pure e.defaultValue
    | .alias parent initial => t.createWithin depth (← parent.id) (init <|> initial)
    | .subrange base min max initial =>
      let start := ((init <|> initial).getD (.integer min))
      let v ← t.createWithin depth (← base.id) (some start)
      let i ← v.toInteger
      if i < min || i > max then throw (.outOfRange v.text decl.name.text)
      pure v
    | .enumeration values initial =>
      match init, initial with
      | some (.enumeration chosen), _ => chooseValue decl.name values chosen
      | some other, _ => throw (mismatch decl.name other)
      | none, some chosen => chooseValue decl.name values chosen
      | none, none =>
        match values.head? with
        | some first => chooseValue decl.name values first
        | none => throw (.internal s!"enumeration {decl.name.text} has no values")
    | .array element dimensions initial =>
      let element ← element.id
      let total := Dimension.totalEntries dimensions
      if total > maxElements then throw (.storageTooLarge decl.name.text)
      let create (vs : List Value) : Except ValueError Value := do
        pure (.array (← vs.mapM fun v => t.createWithin depth element (some v)))
      match init <|> initial with
      | none => pure (.array (List.replicate total (← t.createWithin depth element none)))
      | some (.arrayInit items) => create (← Dimension.expand dimensions items)
      | some (.array vs) =>
        if vs.length ≠ total then throw (.initializerCount total vs.length)
        create vs
      | some other => throw (mismatch decl.name other)
    | .struct members =>
      match init with
      | none =>
        pure (.struct (← members.mapM fun m => do
          pure (m.name, ← t.createWithin depth (← m.type.id) m.initial)))
      | some (.struct supplied) =>
        match supplied.find? fun (name, _) => !members.any (·.name == name) with
        | some (unknown, _) => throw (.unknownMember decl.name.text unknown.text)
        | none =>
          pure (.struct (← members.mapM fun m => do
            match supplied.find? (·.1 == m.name) with
            | some (_, v) => pure (m.name, ← t.createWithin depth (← m.type.id) (some v))
            | none => throw (.missingMember m.name.text)))
      | some other => throw (mismatch decl.name other)
    | .block pou =>
      match init with
      | none => pure (.block ⟨pou, none⟩)
      | some (.block ref) =>
        if ref.block = pou then pure (.block ref) else throw ((Value.block ref).notSupported .assign)
      | some other => throw (other.notSupported .assign)

/-- What is nested too deep has no value. -/
theorem createWithin_zero (t : TypeTable) (id : TypeId) (init : Option Value) :
    t.createWithin 0 id init = .error (.recursive (t.nameOf id)) := by
  rw [createWithin]

/-- A value of the type from an initial value, or the default value of the type. -/
def create (t : TypeTable) (id : TypeId) (init : Option Value) : Except ValueError Value :=
  t.createWithin (maxNesting + 1) id init

/-- The value converted to the form that the type stores. -/
def coerce (t : TypeTable) (id : TypeId) (v : Value) : Except ValueError Value :=
  t.create id (some v)

/-- The value is acceptable for the type. -/
def canHold (t : TypeTable) (id : TypeId) (v : Value) : Except ValueError Unit :=
  (t.coerce id v).map fun _ => ()

end TypeTable

-- ---------------------------------------------------------------------------
-- Resetting
-- ---------------------------------------------------------------------------

mutual

/-- A fresh value with the instances that an old value is bound to, where both hold the same block. -/
def keepInstances (old : Value) : Value → Value
  | .block fresh =>
    match old with
    | .block ref => .block (if ref.block = fresh.block then ref else fresh)
    | _ => .block fresh
  | .array fresh =>
    match old with
    | .array elements => .array (keepAll elements fresh)
    | _ => .array fresh
  | .struct fresh =>
    match old with
    | .struct members => .struct (keepMembers members fresh)
    | _ => .struct fresh
  | fresh => fresh

def keepAll : List Value → List Value → List Value
  | old :: olds, fresh :: rest => keepInstances old fresh :: keepAll olds rest
  | _, rest => rest

def keepMembers : List (Ident × Value) → List (Ident × Value) → List (Ident × Value)
  | (_, old) :: olds, (name, fresh) :: rest =>
    (name, keepInstances old fresh) :: keepMembers olds rest
  | _, rest => rest

end

/-- The default value of the type, bound to the instances of the value it replaces. -/
def TypeTable.reset (t : TypeTable) (id : TypeId) (old : Value) : Except ValueError Value := do
  pure (keepInstances old (← t.create id none))

end StructuredText
