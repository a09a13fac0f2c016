-- SUMMARY: Splitting a text at a separator, and reading numbers from their digits.

/-!
# Numerals

The value of a text of digits in a base up to sixteen, and numbers that must not pass a limit. Where a text holds several
numbers, its fields are the pieces between its separators. There is always one more field than there are separators, and
joining the fields gives the text back.
-/

namespace StructuredText.Text

/-- The pieces of a text between the separators. -/
def fields (separator : Char) : List Char → List (List Char)
  | [] => [[]]
  | c :: cs =>
    if c = separator then [] :: fields separator cs
    else
      match fields separator cs with
      | first :: rest => (c :: first) :: rest
      | [] => [[c]]

/-- The value of a digit. The letters from A to F are the digits from ten on. -/
def digit? (base : Nat) (c : Char) : Option Nat :=
  let value? :=
    if c.isDigit then some (c.toNat - '0'.toNat)
    else if 'a' ≤ c && c ≤ 'f' then some (10 + (c.toNat - 'a'.toNat))
    else if 'A' ≤ c && c ≤ 'F' then some (10 + (c.toNat - 'A'.toNat))
    else none
  value?.filter (· < base)

/-- The value of a text of digits, of which there must be one. -/
def digits? (base : Nat) (cs : List Char) : Option Nat :=
  if cs.isEmpty then none
  else cs.foldlM (fun n c => (digit? base c).map (base * n + ·)) 0

/-- A decimal number that is no larger than the limit. A plus sign may stand before it. -/
def number? (limit : Nat) (cs : List Char) : Option Nat :=
  let digits :=
    match cs with
    | '+' :: rest => rest
    | cs => cs
  (digits? 10 digits).filter (· ≤ limit)

end StructuredText.Text
