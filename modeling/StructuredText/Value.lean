-- SUMMARY: The values of the language, their kinds, and how they are written.
import StructuredText.Calendar
import StructuredText.Value.Error

/-!
# Values

A value is one of fifteen kinds, and the kind decides which operations it has. Arrays hold their
elements in row-major order, structures their members in the order of declaration.
-/

namespace StructuredText

-- ---------------------------------------------------------------------------
-- Bit strings
-- ---------------------------------------------------------------------------

/-- A bit string of a width. No more than 64 bits count. -/
structure BitString where
  width : Nat
  value : Nat
  fits : value < 2 ^ min width 64
  deriving DecidableEq

namespace BitString

/-- The low bits of a number as a bit string. -/
def ofNat (width value : Nat) : BitString :=
  ⟨width, value % 2 ^ min width 64, Nat.mod_lt _ (Nat.two_pow_pos _)⟩

/-- The largest value of a bit string of the width. -/
def maxValue (width : Nat) : Nat := 2 ^ min width 64 - 1

def complement (b : BitString) : BitString := ofNat b.width (maxValue b.width - b.value)

instance : Inhabited BitString := ⟨ofNat 0 0⟩

end BitString

-- ---------------------------------------------------------------------------
-- Values
-- ---------------------------------------------------------------------------

/-- Refers to a function block, and to one of its instances once it is bound to storage. -/
structure BlockRef where
  block : Nat
  instance? : Option Nat
  deriving DecidableEq, Repr, Inhabited

/-- What a variable holds and an expression yields. -/
inductive Value where
  /-- No value, such as the result of a function block. -/
  | void
  | bool (b : Bool)
  | integer (i : Int)
  | bits (b : BitString)
  | real (x : Float)
  | string (s : String)
  | duration (d : Duration)
  | date (d : Date)
  | timeOfDay (t : TimeOfDay)
  | dateAndTime (t : DateAndTime)
  | enumeration (name : Ident)
  /-- The elements in row-major order. -/
  | array (elements : List Value)
  /-- The members in order. An initial value of a structure names only some members. -/
  | struct (members : List (Ident × Value))
  /-- Initial values with repeat counts that are not yet fitted to an array. -/
  | arrayInit (items : List (Nat × Value))
  | block (ref : BlockRef)
  deriving Inhabited

/-- The kinds of values. -/
inductive ValueKind where
  | void | bool | integer | bits | real | string | duration | date | timeOfDay | dateAndTime
  | enumeration | array | struct | arrayInit | block
  deriving DecidableEq, Repr, Inhabited

namespace ValueKind

/-- The name of the kind in messages. -/
def text : ValueKind → String
  | .void => "VOID"
  | .bool => "BOOL"
  | .integer => "integer"
  | .bits => "bit string"
  | .real => "real"
  | .string => "STRING"
  | .duration => "TIME"
  | .date => "DATE"
  | .timeOfDay => "TIME_OF_DAY"
  | .dateAndTime => "DATE_AND_TIME"
  | .enumeration => "enumerated"
  | .array => "array"
  | .struct => "structure"
  | .arrayInit => "array initializer"
  | .block => "function block"

/-- The operations that every value of the kind has. -/
def operations : ValueKind → List Operation
  | .void => []
  | .bool => [.display, .assign, .equals, .not, .and, .or, .xor, .bool]
  | .integer =>
    [.display, .assign, .equals, .greater, .lesser, .negate, .plus, .minus, .multiply, .divide,
     .modulus, .power, .integer, .real]
  | .bits =>
    [.display, .assign, .equals, .greater, .lesser, .not, .and, .or, .xor, .integer]
  | .real =>
    [.display, .assign, .equals, .greater, .lesser, .negate, .plus, .minus, .multiply, .divide,
     .power, .real]
  | .string => [.display, .assign, .equals, .greater, .lesser, .string]
  | .duration =>
    [.display, .assign, .equals, .greater, .lesser, .negate, .plus, .minus, .multiply, .divide,
     .duration]
  | .date => [.display, .assign, .equals, .greater, .lesser, .minus, .date]
  | .timeOfDay => [.display, .assign, .equals, .greater, .lesser, .plus, .minus, .timeOfDay]
  | .dateAndTime => [.display, .assign, .equals, .greater, .lesser, .plus, .minus, .dateAndTime]
  | .enumeration => [.display, .assign, .equals, .enumeration]
  | .array => [.display, .assign, .index]
  | .struct => [.display, .assign, .subVariable]
  | .arrayInit => [.display, .assign]
  | .block => [.display, .subVariable]

end ValueKind

namespace Value

def kind : Value → ValueKind
  | .void => .void
  | .bool _ => .bool
  | .integer _ => .integer
  | .bits _ => .bits
  | .real _ => .real
  | .string _ => .string
  | .duration _ => .duration
  | .date _ => .date
  | .timeOfDay _ => .timeOfDay
  | .dateAndTime _ => .dateAndTime
  | .enumeration _ => .enumeration
  | .array _ => .array
  | .struct _ => .struct
  | .arrayInit _ => .arrayInit
  | .block _ => .block

/-- The name of the kind of the value in messages. -/
def kindText (v : Value) : String := v.kind.text

def supports (v : Value) (operation : Operation) : Bool := v.kind.operations.contains operation

def notSupported (v : Value) (operation : Operation) : ValueError :=
  .notSupported operation v.kindText

/-- The value has the operation. -/
def require (v : Value) (operation : Operation) : Except ValueError Unit :=
  if v.supports operation then .ok () else .error (v.notSupported operation)

def incompatible (v : Value) (operation : Operation) (other : Value) : ValueError :=
  .incompatibleOperands operation v.kindText other.kindText

-- ---------------------------------------------------------------------------
-- Text
-- ---------------------------------------------------------------------------

mutual

/-- How the value is written. A function block instance stands for its variables, which are elsewhere. -/
def text : Value → String
  | .void => ""
  | .bool b => if b then "true" else "false"
  | .integer i => toString i
  | .bits b => toString b.value
  | .real x => Binary64.text x
  | .string s => "'" ++ s ++ "'"
  | .duration d => d.text
  | .date d => "D#" ++ d.text
  | .timeOfDay t => "TOD#" ++ t.text
  | .dateAndTime t => "DT#" ++ t.text
  | .enumeration name => name.text
  | .array elements => "[" ++ ",".intercalate (textAll elements) ++ "]"
  | .struct members => "(" ++ ",".intercalate (textMembers members) ++ ")"
  | .arrayInit items => "[" ++ ",".intercalate (textItems items) ++ "]"
  | .block _ => "<instance>"

def textAll : List Value → List String
  | [] => []
  | v :: vs => v.text :: textAll vs

def textMembers : List (Ident × Value) → List String
  | [] => []
  | (name, v) :: rest => (name.text ++ ":" ++ v.text) :: textMembers rest

def textItems : List (Nat × Value) → List String
  | [] => []
  | (count, v) :: rest =>
    (if count = 1 then v.text else toString count ++ "(" ++ v.text ++ ")") :: textItems rest

end

/-- How the value is shown. There is nothing to show for no value. -/
def display (v : Value) : Except ValueError String := do
  v.require .display
  pure v.text

-- ---------------------------------------------------------------------------
-- Contents
-- ---------------------------------------------------------------------------

def toInteger : Value → Except ValueError Int
  | .integer i => .ok i
  | .bits b => .ok b.value
  | v => .error (v.notSupported .integer)

def toReal : Value → Except ValueError Float
  | .real x => .ok x
  | .integer i => .ok (Binary64.ofInt i)
  | v => .error (v.notSupported .real)

def toBool : Value → Except ValueError Bool
  | .bool b => .ok b
  | v => .error (v.notSupported .bool)

def toText : Value → Except ValueError String
  | .string s => .ok s
  | v => .error (v.notSupported .string)

def toDuration : Value → Except ValueError Duration
  | .duration d => .ok d
  | v => .error (v.notSupported .duration)

def toDate : Value → Except ValueError Date
  | .date d => .ok d
  | v => .error (v.notSupported .date)

def toTimeOfDay : Value → Except ValueError TimeOfDay
  | .timeOfDay t => .ok t
  | v => .error (v.notSupported .timeOfDay)

def toDateAndTime : Value → Except ValueError DateAndTime
  | .dateAndTime t => .ok t
  | v => .error (v.notSupported .dateAndTime)

def toEnumeration : Value → Except ValueError Ident
  | .enumeration name => .ok name
  | v => .error (v.notSupported .enumeration)

-- ---------------------------------------------------------------------------
-- Parts
-- ---------------------------------------------------------------------------

mutual

/-- There is a function block in the value. -/
def holdsBlock : Value → Bool
  | .block _ => true
  | .array elements => anyHoldsBlock elements
  | .struct members => anyMemberHoldsBlock members
  | _ => false

def anyHoldsBlock : List Value → Bool
  | [] => false
  | v :: vs => v.holdsBlock || anyHoldsBlock vs

def anyMemberHoldsBlock : List (Ident × Value) → Bool
  | [] => false
  | (_, v) :: rest => v.holdsBlock || anyMemberHoldsBlock rest

end

/-- The position of the structure member with the name. -/
def memberIndex? (v : Value) (name : Ident) : Option Nat :=
  match v with
  | .struct members => members.findIdx? (·.1 == name)
  | _ => none

/-- The structure member with the name. -/
def subVariable (v : Value) (name : Ident) : Except ValueError Value := do
  v.require .subVariable
  match v with
  | .struct members =>
    match members.find? (·.1 == name) with
    | some (_, member) => pure member
    | none => throw (.unknownMember v.kindText name.text)
  | _ => throw (v.notSupported .subVariable)

def noElement (position : Nat) : ValueError := .internal s!"no element at {position}"

/-- The array element or structure member at a position. -/
def child (v : Value) (position : Nat) : Except ValueError Value :=
  match v with
  | .array elements =>
    match elements[position]? with
    | some e => .ok e
    | none => .error (noElement position)
  | .struct members =>
    match members[position]? with
    | some (_, m) => .ok m
    | none => .error (noElement position)
  | _ => .error (v.notSupported .index)

/-- The array element at a position. -/
def element (v : Value) (position : Nat) : Except ValueError Value := do
  v.require .index
  v.child position

/-- The value at the end of a path of positions. -/
def descend (v : Value) : List Nat → Except ValueError Value
  | [] => .ok v
  | p :: path => do (← v.child p).descend path

/-- The value with the part at the end of a path replaced by a function of it. -/
def modifyAt (f : Value → Except ValueError Value) (v : Value) : List Nat → Except ValueError Value
  | [] => f v
  | p :: path => do
    let part ← (← v.child p).modifyAt f path
    match v with
    | .array elements => pure (.array (elements.set p part))
    | .struct members => pure (.struct (members.modify p fun (name, _) => (name, part)))
    | _ => throw (v.notSupported .index)

end Value

end StructuredText
