-- SUMMARY: The standard functions: how they are called, what they result in, and how they are evaluated.
import StructuredText.TypeTable
import StructuredText.Value.Arithmetic

/-!
# Standard functions

Standard functions are part of the language. Their arguments are given by position.
-/

namespace StructuredText

inductive StandardFunction where
  | abs | sqrt | min | max | limit | sel
  deriving DecidableEq, Repr, Inhabited

namespace StandardFunction

def all : List StandardFunction := [.abs, .sqrt, .min, .max, .limit, .sel]

def text : StandardFunction → String
  | .abs => "ABS"
  | .sqrt => "SQRT"
  | .min => "MIN"
  | .max => "MAX"
  | .limit => "LIMIT"
  | .sel => "SEL"

def find? (name : Ident) : Option StandardFunction :=
  all.find? fun f => f.text.map Char.toLower == name.key

/-- The function takes this number of arguments. -/
def accepts (f : StandardFunction) (count : Nat) : Bool :=
  match f with
  | .abs | .sqrt => count = 1
  | .min | .max => count ≥ 2
  | .limit | .sel => count = 3

/-- The type of the result, as far as it follows from the types of the arguments. -/
def resultType (f : StandardFunction) (types : List (Option TypeId)) : Option TypeId :=
  match f with
  | .sqrt => types.head?.join <|> some (TypeTable.elementaryId .lreal)
  | .sel => (types.drop 1).findSome? id
  | _ => types.findSome? id

def absolute (v : Value) : Except ValueError Value :=
  match v with
  | .integer i => .integer <$> fitInteger .negate i.natAbs
  | .real x => .ok (.real x.abs)
  | other => .error (.invalidArgument s!"ABS requires a number but found {other.kindText}")

def squareRoot (v : Value) : Except ValueError Value := do
  let x ← v.toReal
  if x < 0 then throw (.invalidArgument s!"SQRT of negative value {Binary64.text x}")
  pure (.real x.sqrt)

/-- The result of the function for the arguments. -/
def evaluate (f : StandardFunction) (args : List Value) : Except ValueError Value :=
  match f, args with
  | .abs, [v] => absolute v
  | .sqrt, [v] => squareRoot v
  | .min, first :: second :: rest =>
    (second :: rest).foldlM (fun best v => do pure (if ← v.lesser best then v else best)) first
  | .max, first :: second :: rest =>
    (second :: rest).foldlM (fun best v => do pure (if ← v.greater best then v else best)) first
  | .limit, [low, v, high] => do
    if ← v.lesser low then pure low
    else if ← v.greater high then pure high
    else pure v
  | .sel, [chosen, first, second] => do
    pure (if ← chosen.toBool then second else first)
  | _, _ => .error (.invalidArgument s!"{f.text} does not take {args.length} arguments")

end StandardFunction

end StructuredText
