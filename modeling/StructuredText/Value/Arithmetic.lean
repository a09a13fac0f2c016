-- SUMMARY: Comparison, arithmetic and logic on values.
import StructuredText.Value

/-!
# Operations on values

Integers are exact within 128 bits and fail where the result does not fit. Reals follow binary floating
point and are equal when they lie closer than a tolerance. Durations are scaled by numbers and added to
times; subtracting two points in time yields a duration. Bit strings combine bit by bit.

An operation first asks whether the left operand has it at all (`notSupported`), then whether the kinds
of both operands go together (`incompatibleOperands`). Only then may the values themselves fail.
-/

namespace StructuredText

-- ---------------------------------------------------------------------------
-- Integers
-- ---------------------------------------------------------------------------

/-- The integer fits 128 bits with a sign. -/
def FitsInteger (i : Int) : Prop := -2 ^ 127 ≤ i ∧ i < 2 ^ 127

instance (i : Int) : Decidable (FitsInteger i) := inferInstanceAs (Decidable (_ ∧ _))

/-- The integer that 128 bits with a sign keep of another one. -/
def wrapInteger (i : Int) : Int := i.bmod (2 ^ 128)

theorem wrapInteger_of_fits {i : Int} (h : FitsInteger i) : wrapInteger i = i :=
  Int.bmod_eq_of_le (by simpa using h.1) (by simpa using h.2)

/-- An exact result, or an overflow of the operation when it does not fit. -/
def fitInteger (operation : Operation) (i : Int) : Except ValueError Int :=
  if FitsInteger i then .ok i else .error (.overflow operation)

/--
The power of an integer that may be huge. An exponent of 128 or more overflows unless the base is too
small for it to matter, so the power is never computed further than that.
-/
def integerPower (base : Int) (exponent : Nat) : Except ValueError Int :=
  if exponent ≥ 2 ^ 32 then .error (.overflow .power)
  else if exponent < 128 then fitInteger .power (base ^ exponent)
  else if base = 0 || base = 1 then .ok base
  else if base = -1 then .ok (if exponent % 2 = 0 then 1 else -1)
  else .error (.overflow .power)

def integerArithmetic (operation : Operation) (a b : Int) : Except ValueError Int :=
  match operation with
  | .plus => fitInteger operation (a + b)
  | .minus => fitInteger operation (a - b)
  | .multiply => fitInteger operation (a * b)
  | .divide => if b = 0 then .error .divisionByZero else fitInteger operation (a.tdiv b)
  | .modulus =>
    if b = 0 then .error .divisionByZero
    -- The quotient has to fit too.
    else do
      let _ ← fitInteger operation (a.tdiv b)
      pure (a.tmod b)
  | .power =>
    if b < 0 then .error (.invalidArgument "integer power requires a non-negative exponent")
    else integerPower a b.toNat
  | _ => .error (.internal s!"{operation.text} is not arithmetic")

-- ---------------------------------------------------------------------------
-- Reals
-- ---------------------------------------------------------------------------

def realArithmetic (operation : Operation) (a b : Float) : Except ValueError Float :=
  match operation with
  | .plus => .ok (a + b)
  | .minus => .ok (a - b)
  | .multiply => .ok (a * b)
  | .divide => if b == 0 then .error .divisionByZero else .ok (a / b)
  | .power =>
    let result := a.pow b
    if result.isNaN then
      .error (.invalidArgument s!"{Binary64.text a} ** {Binary64.text b} is not a number")
    else if result.isInf then .error (.overflow operation)
    else .ok result
  | _ => .error (.internal s!"{operation.text} is not real arithmetic")

-- ---------------------------------------------------------------------------
-- Durations
-- ---------------------------------------------------------------------------

/-- A result that is missing when the operation overflows. -/
def orOverflow (operation : Operation) (result : Option α) : Except ValueError α :=
  match result with
  | some a => .ok a
  | none => .error (.overflow operation)

def fitDuration (operation : Operation) (nanos : Int) : Except ValueError Duration :=
  orOverflow operation (Duration.ofNanos? nanos)

/-- A count of nanoseconds from a real number, when it is not far out of range. -/
def realNanos? (x : Float) : Option Int :=
  if x.isFinite && x.abs < 9223372036854775808.0 * 1e9 then some (Binary64.roundAway x) else none

/-- A duration multiplied or divided by a number. -/
def scaleDuration (operation : Operation) (d : Duration) (factor : Value) :
    Except ValueError Duration :=
  let scaled (nanos : Float) := do
    fitDuration operation (← orOverflow operation (realNanos? nanos))
  match operation, factor with
  | .multiply, .integer b => fitDuration operation (d.nanos * b)
  | .divide, .integer b =>
    if b = 0 then .error .divisionByZero else fitDuration operation (d.nanos.tdiv b)
  | .multiply, .real b => scaled (Binary64.ofInt d.nanos * b)
  | .divide, .real b =>
    if b == 0 then .error .divisionByZero
    else scaled (Binary64.ofInt d.nanos / b)
  | _, _ => .error (.incompatibleOperands operation ValueKind.duration.text factor.kindText)

namespace Value

-- ---------------------------------------------------------------------------
-- Comparison
-- ---------------------------------------------------------------------------

/-- The values are numbers of which at least one is real. -/
def isRealPair : Value → Value → Bool
  | .real _, .real _ | .real _, .integer _ | .integer _, .real _ => true
  | _, _ => false

/-- Equality, where reals are equal when they differ by less than `epsilon`. -/
def equals (a b : Value) (epsilon : Float) : Except ValueError Bool := do
  a.require .equals
  match a, b with
  | .bool a, .bool b => pure (a == b)
  | .integer a, .integer b => pure (a == b)
  | .bits a, .bits b => pure (a.value == b.value)
  | .bits a, .integer b | .integer b, .bits a => pure ((a.value : Int) == b)
  | .string a, .string b => pure (a == b)
  | .duration a, .duration b => pure (a == b)
  | .date a, .date b => pure (a == b)
  | .timeOfDay a, .timeOfDay b => pure (a == b)
  | .dateAndTime a, .dateAndTime b => pure (a == b)
  | .enumeration a, .enumeration b => pure (a == b)
  | a, b =>
    if a.isRealPair b then pure (((← a.toReal) - (← b.toReal)).abs < epsilon)
    else throw (a.incompatible .equals b)

def compareReals (a b : Float) : Except ValueError Ordering :=
  if a < b then .ok .lt
  else if a > b then .ok .gt
  else if a == b then .ok .eq
  else .error (.invalidArgument "values are not ordered")

/-- The order of two values. Text is ordered by code points. -/
def ordering (a b : Value) : Except ValueError Ordering := do
  a.require .greater
  match a, b with
  | .integer a, .integer b => pure (compare a b)
  | .bits a, .bits b => pure (compare a.value b.value)
  | .string a, .string b => pure (compareOfLessAndEq a b)
  | .duration a, .duration b => pure (compare a.nanos b.nanos)
  | .date a, .date b => pure (compare a.dayNumber b.dayNumber)
  | .timeOfDay a, .timeOfDay b => pure (compare a.nanos b.nanos)
  | .dateAndTime a, .dateAndTime b => pure (compare a.instant b.instant)
  | a, b =>
    if a.isRealPair b then compareReals (← a.toReal) (← b.toReal)
    else throw (a.incompatible .greater b)

def greater (a b : Value) : Except ValueError Bool := do pure ((← a.ordering b) == .gt)

def lesser (a b : Value) : Except ValueError Bool := do pure ((← a.ordering b) == .lt)

/-- The values can be tested for equality. -/
def comparableTo (a b : Value) : Bool := (a.equals b 0).isOk

-- ---------------------------------------------------------------------------
-- Arithmetic
-- ---------------------------------------------------------------------------

def negate (v : Value) : Except ValueError Value := do
  v.require .negate
  match v with
  | .integer i => .integer <$> fitInteger .negate (-i)
  | .real x => pure (.real (-x))
  | .duration d => .duration <$> fitDuration .negate (-d.nanos)
  | v => throw (v.notSupported .negate)

/-- The duration between two counts of nanoseconds. -/
def elapsed (a b : Int) : Except ValueError Value :=
  .duration <$> fitDuration .minus (a - b)

def arithmetic (operation : Operation) (a b : Value) : Except ValueError Value := do
  a.require operation
  match a, b with
  | .integer a, .integer b => .integer <$> integerArithmetic operation a b
  | .duration x, .duration y =>
    match operation with
    | .plus => .duration <$> orOverflow operation (x.add? y)
    | .minus => .duration <$> orOverflow operation (x.sub? y)
    | _ => throw (a.incompatible operation b)
  | .duration d, .integer _ | .duration d, .real _ => .duration <$> scaleDuration operation d b
  | .timeOfDay t, .duration d =>
    match operation with
    | .plus => pure (.timeOfDay (t.add d))
    | .minus => pure (.timeOfDay (t.sub d))
    | _ => throw (a.incompatible operation b)
  | .dateAndTime t, .duration d =>
    match operation with
    | .plus => .dateAndTime <$> orOverflow operation (t.add? d)
    | .minus => .dateAndTime <$> orOverflow operation (t.sub? d)
    | _ => throw (a.incompatible operation b)
  | .date x, .date y =>
    if operation = .minus then elapsed (x.dayNumber * nanosPerDay) (y.dayNumber * nanosPerDay)
    else throw (a.incompatible operation b)
  | .timeOfDay x, .timeOfDay y =>
    if operation = .minus then elapsed x.nanos y.nanos else throw (a.incompatible operation b)
  | .dateAndTime x, .dateAndTime y =>
    if operation = .minus then elapsed x.instant y.instant else throw (a.incompatible operation b)
  | a, b =>
    if a.isRealPair b && operation ≠ .modulus then
      .real <$> realArithmetic operation (← a.toReal) (← b.toReal)
    else throw (a.incompatible operation b)

-- ---------------------------------------------------------------------------
-- Logic
-- ---------------------------------------------------------------------------

def complement (v : Value) : Except ValueError Value := do
  v.require .not
  match v with
  | .bool b => pure (.bool !b)
  | .bits b => pure (.bits b.complement)
  | v => throw (v.notSupported .not)

/-- Combines the bits of two numbers. -/
def combineBits (operation : Operation) (a b : Nat) : Except ValueError Nat :=
  match operation with
  | .and => .ok (a &&& b)
  | .or => .ok (a ||| b)
  | .xor => .ok (a ^^^ b)
  | _ => .error (.internal s!"{operation.text} is not logical")

/-- Joins booleans, or bit strings bit by bit. An integer joins with a bit string unless it is negative. -/
def logical (operation : Operation) (a b : Value) : Except ValueError Value := do
  a.require operation
  match a, b with
  | .bool a, .bool b => pure (.bool ((← combineBits operation a.toNat b.toNat) ≠ 0))
  | .bits a, .bits b =>
    pure (.bits (.ofNat (max a.width b.width) (← combineBits operation a.value b.value)))
  | .bits x, .integer i =>
    if i < 0 then throw (a.incompatible operation b)
    else pure (.bits (.ofNat x.width (← combineBits operation x.value (i.toNat % 2 ^ 64))))
  | a, b => throw (a.incompatible operation b)

-- ---------------------------------------------------------------------------
-- Checking kinds ahead
-- ---------------------------------------------------------------------------

/-- The error comes from the kinds of the operands and not from their values. -/
def isKindError : ValueError → Bool
  | .notSupported .. | .incompatibleOperands .. | .internal _ => true
  | _ => false

/--
The operation joins values of these kinds. It is tried out; an error that only these values cause, such
as a division by zero, does not count.
-/
def operatesWith (operation : Operation) (a b : Value) : Bool :=
  let joins (r : Except ValueError Value) : Bool :=
    match r with
    | .ok _ => true
    | .error e => !isKindError e
  match operation with
  | .equals => a.comparableTo b
  | .greater | .lesser => (a.ordering b).isOk
  | .and | .or | .xor => joins (logical operation a b)
  | _ => joins (arithmetic operation a b)

end Value

end StructuredText
