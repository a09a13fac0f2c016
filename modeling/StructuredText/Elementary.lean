-- SUMMARY: The elementary types: names, categories, ranges, default values and conversions into them.
import StructuredText.Value

/-!
# Elementary types

The types that the language provides. Each has a category, by which types are compatible, a kind of value
and, for some, a size in bits. `canHold` says which values are acceptable for a type and `coerce` turns an
acceptable value into the form that the type stores.
-/

namespace StructuredText

-- ---------------------------------------------------------------------------
-- Classes of types
-- ---------------------------------------------------------------------------

/-- The category of a type. -/
inductive Category where
  | bool | signed | unsigned | real | bitString | string | duration | date | timeOfDay | dateAndTime
  | enumeration | array | struct | block
  deriving DecidableEq, Repr, Inhabited

/-- Integers with or without a sign. -/
def Category.isInteger : Category → Bool
  | .signed | .unsigned => true
  | _ => false

/-- Types of such a category differ although their categories are the same. -/
def Category.isNominal : Category → Bool
  | .enumeration | .array | .struct | .block => true
  | _ => false

/-- The category of a type, and whether the type is declared in terms of another one. -/
structure TypeClass where
  category : Category
  derived : Bool := false
  deriving DecidableEq, Repr, Inhabited

def TypeClass.derive (c : TypeClass) : TypeClass := { c with derived := true }

/-- Classes are compatible when their categories are the same. -/
def TypeClass.compatible (a b : TypeClass) : Bool := a.category = b.category

-- ---------------------------------------------------------------------------
-- Elementary types
-- ---------------------------------------------------------------------------

/-- A type that the language provides. -/
inductive Elementary where
  | bool | sint | int | dint | lint | usint | uint | udint | ulint | byte | word | dword | lword
  | real | lreal | string | wstring | time | date | timeOfDay | dateAndTime
  deriving DecidableEq, Repr, Inhabited

/-- The values that an elementary type stores. -/
inductive ElementaryKind where
  | bool
  | integer (min max : Int)
  | bits
  | real
  | string
  | duration
  | date
  | timeOfDay
  | dateAndTime
  deriving DecidableEq, Repr, Inhabited

namespace Elementary

/-- Every elementary type, in the order of their identifiers in a table of types. -/
def all : List Elementary :=
  [.bool, .sint, .int, .dint, .lint, .usint, .uint, .udint, .ulint, .byte, .word, .dword, .lword,
   .real, .lreal, .string, .wstring, .time, .date, .timeOfDay, .dateAndTime]

def text : Elementary → String
  | .bool => "BOOL"
  | .sint => "SINT"
  | .int => "INT"
  | .dint => "DINT"
  | .lint => "LINT"
  | .usint => "USINT"
  | .uint => "UINT"
  | .udint => "UDINT"
  | .ulint => "ULINT"
  | .byte => "BYTE"
  | .word => "WORD"
  | .dword => "DWORD"
  | .lword => "LWORD"
  | .real => "REAL"
  | .lreal => "LREAL"
  | .string => "STRING"
  | .wstring => "WSTRING"
  | .time => "TIME"
  | .date => "DATE"
  | .timeOfDay => "TIME_OF_DAY"
  | .dateAndTime => "DATE_AND_TIME"

/-- The names of the type, among them its short form. -/
def names (e : Elementary) : List String :=
  match e with
  | .timeOfDay => ["time_of_day", "tod"]
  | .dateAndTime => ["date_and_time", "dt"]
  | e => [e.text.map Char.toLower]

/-- The position in `all` of the elementary type with the name. -/
def find? (name : Ident) : Option Nat := all.findIdx? (·.names.contains name.key)

def category : Elementary → Category
  | .bool => .bool
  | .sint | .int | .dint | .lint => .signed
  | .usint | .uint | .udint | .ulint => .unsigned
  | .byte | .word | .dword | .lword => .bitString
  | .real | .lreal => .real
  | .string | .wstring => .string
  | .time => .duration
  | .date => .date
  | .timeOfDay => .timeOfDay
  | .dateAndTime => .dateAndTime

/-- The size of a type that has a fixed one, else zero. -/
def bits : Elementary → Nat
  | .bool => 1
  | .sint | .usint | .byte => 8
  | .int | .uint | .word => 16
  | .dint | .udint | .dword | .real => 32
  | .lint | .ulint | .lword | .lreal => 64
  | .string | .wstring | .time | .date | .timeOfDay | .dateAndTime => 0

def kind (e : Elementary) : ElementaryKind :=
  match e with
  | .bool => .bool
  | .sint | .int | .dint | .lint => .integer (-2 ^ (e.bits - 1)) (2 ^ (e.bits - 1) - 1)
  | .usint | .uint | .udint | .ulint => .integer 0 (2 ^ e.bits - 1)
  | .byte | .word | .dword | .lword => .bits
  | .real | .lreal => .real
  | .string | .wstring => .string
  | .time => .duration
  | .date => .date
  | .timeOfDay => .timeOfDay
  | .dateAndTime => .dateAndTime

/-- The value of a variable that has no initial value. -/
def defaultValue (e : Elementary) : Value :=
  match e.kind with
  | .bool => .bool false
  | .integer .. => .integer 0
  | .bits => .bits (.ofNat e.bits 0)
  | .real => .real 0
  | .string => .string ""
  | .duration => .duration .zero
  | .date => .date .epoch
  | .timeOfDay => .timeOfDay .midnight
  | .dateAndTime => .dateAndTime .epoch

/-- The largest finite number in 32 bits. -/
def largestReal : Float := 340282346638528859811704183484516925440.0

/-- The value is acceptable for the type. -/
def canHold (e : Elementary) (v : Value) : Except ValueError Unit :=
  let within (ok : Bool) : Except ValueError Unit :=
    if ok then .ok () else .error (.outOfRange v.text e.text)
  match e.kind, v with
  | .bool, .bool _ => .ok ()
  | .integer min max, .integer i => within (min ≤ i && i ≤ max)
  | .bits, .bits b => within (b.value ≤ BitString.maxValue e.bits)
  | .bits, .integer i => within (0 ≤ i && i ≤ BitString.maxValue e.bits)
  | .real, .real x => within !(e.bits == 32 && x.isFinite && x.abs > largestReal)
  | .real, .integer _ => .ok ()
  | .string, .string _ => .ok ()
  | .duration, .duration _ => .ok ()
  | .date, .date _ => .ok ()
  | .timeOfDay, .timeOfDay _ => .ok ()
  | .dateAndTime, .dateAndTime _ => .ok ()
  | _, _ => .error (.incompatibleTypes e.text v.kindText)

/-- An acceptable value in the form that the type stores. -/
def coerce (e : Elementary) (v : Value) : Value :=
  match e.kind, v with
  | .real, .integer i => .real (Binary64.ofInt i)
  | .bits, .integer i => .bits (.ofNat e.bits i.toNat)
  | .bits, .bits b => .bits (.ofNat e.bits b.value)
  | _, v => v

end Elementary

end StructuredText
