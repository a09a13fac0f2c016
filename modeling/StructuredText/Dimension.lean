-- SUMMARY: Array dimensions: element counts, positions of elements, and fitting of initial values.
import StructuredText.Value

/-!
# Array dimensions

An array keeps its elements in row-major order: the last index runs fastest. Counts and positions are
64 bit numbers, and a product that does not fit stays at the largest one.

An initializer is flat or nested. A flat one lists the elements in their order. A nested one, whose items
are initializers themselves, lists the rows of the outermost dimension.
-/

namespace StructuredText

/-- One declared dimension of an array, such as `1..3`. -/
structure Dimension where
  min : Int
  max : Int
  deriving DecidableEq, Repr, Inhabited

/-- The largest count. -/
def maxCount : Nat := 2 ^ 64 - 1

namespace Dimension

/-- The number of indexes of the dimension. -/
def entries (d : Dimension) : Nat := Nat.min (d.max - d.min + 1).toNat maxCount

/-- The number of elements of an array. -/
def totalEntries (ds : List Dimension) : Nat :=
  ds.foldl (fun n d => Nat.min (n * d.entries) maxCount) 1

/-- The number of elements that one step of each index passes over. -/
def strides : List Dimension → List Nat
  | [] => []
  | [_] => [1]
  | _ :: d :: ds =>
    match strides (d :: ds) with
    | [] => []
    | s :: ss => Nat.min (s * d.entries) maxCount :: s :: ss

/-- The position of an element, given each index with its dimension and stride. -/
def offset : List (Dimension × Int × Nat) → Except ValueError Nat
  | [] => .ok 0
  | (d, index, stride) :: rest =>
    if index < d.min ∨ d.max < index then .error (.indexOutOfRange index d.min d.max)
    else do
      let inner ← offset rest
      pure (((index - d.min).toNat * stride + inner) % 2 ^ 64)

/-- The row-major position of the element at the indexes. -/
def flatIndex (ds : List Dimension) (indexes : List Int) : Except ValueError Nat :=
  if ds.length ≠ indexes.length then .error (.indexCount ds.length indexes.length)
  else offset (ds.zip (indexes.zip (strides ds)))

-- ---------------------------------------------------------------------------
-- Initial values
-- ---------------------------------------------------------------------------

/-- The number of values that the items stand for. -/
def suppliedCount (items : List (Nat × Value)) : Nat :=
  Nat.min ((items.map (·.1)).foldl (· + ·) 0) maxCount

def isInitializer : Value → Bool
  | .arrayInit _ => true
  | _ => false

/-- The items describe the rows of an array with more than one dimension. -/
def isNested (ds : List Dimension) (items : List (Nat × Value)) : Bool :=
  ds.length > 1 && suppliedCount items > 0 &&
    (items.filter (·.1 > 0)).all fun (_, v) => isInitializer v

/--
The initial values of the elements in row-major order. Counts are compared before anything is expanded,
so that a large repeat count costs nothing.
-/
def expand (ds : List Dimension) (items : List (Nat × Value)) : Except ValueError (List Value) :=
  let nested := isNested ds items
  let expected := if nested then (ds.head?.map entries).getD 0 else totalEntries ds
  let supplied := suppliedCount items
  if supplied ≠ expected then .error (.initializerCount expected supplied)
  else
    match ds with
    | _ :: rest@(_ :: _) =>
      items.foldlM (fun out (count, value) =>
        match nested, value with
        | true, .arrayInit inner =>
          if count = 0 then pure out
          else do
            let row ← expand rest inner
            pure (out ++ (List.replicate count row).flatten)
        | _, value => pure (out ++ List.replicate count value)) []
    | _ => pure (items.flatMap fun (count, value) => List.replicate count value)

end Dimension

end StructuredText
