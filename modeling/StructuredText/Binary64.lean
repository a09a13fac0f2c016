-- SUMMARY: Exact conversions between binary floating point numbers, integers and decimal text.

/-!
# Binary floating point numbers

A finite number is a mantissa times a power of two, so each conversion is exact arithmetic on natural
numbers followed by one rounding. `ofRatio` rounds to the nearest number, a tie going to the even
mantissa; reading a decimal and converting an integer are instances of it. `text` writes the fewest
digits that read back as the same number, always in positional notation.
-/

-- A power is the core one, also in a module that imports the powers of a monoid.
attribute [instance (20000), default_instance 20000] instPowNat

namespace StructuredText.Binary64

/-- A finite number as a sign, a mantissa and a power of two. -/
structure Parts where
  negative : Bool
  mantissa : Nat
  exponent : Int
  deriving Repr

/-- The sign bit of a number, which is also set for negative zero. -/
def isNegative (x : Float) : Bool := x.toBits.toNat / 2 ^ 63 = 1

/-- The parts of a finite number. -/
def parts (x : Float) : Parts :=
  let bits := x.toBits.toNat
  let field : Nat := bits / 2 ^ 52 % 2 ^ 11
  let fraction := bits % 2 ^ 52
  { negative := isNegative x
    mantissa := if field = 0 then fraction else 2 ^ 52 + fraction
    exponent := max field 1 - 1075 }

-- ---------------------------------------------------------------------------
-- Rounding
-- ---------------------------------------------------------------------------

/-- `n / d` rounded to the nearest natural number, a tie going to the even one. -/
def roundDiv (n d : Nat) : Nat :=
  let q := n / d
  let r := n % d
  if 2 * r < d then q
  else if 2 * r > d then q + 1
  else if q % 2 = 0 then q else q + 1

/-- The numbers with the quotient `n / d` over a power of two. -/
def scaled (n d : Nat) (e : Int) : Nat × Nat :=
  if e < 0 then (n * 2 ^ (-e).toNat, d) else (n, d * 2 ^ e.toNat)

/-- The quotient `n / d` has 53 bits or more at the exponent. -/
def fills (n d : Nat) (e : Int) : Bool := (scaled n d e).2 * 2 ^ 52 ≤ (scaled n d e).1

/-- The exponent at which the quotient `n / d` has 53 bits, but not less than the least one. -/
def ratioExponent (n d : Nat) : Int :=
  -- The quotient has 53 bits at the estimate or at the exponent below.
  let estimate : Int := (n.log2 : Int) - d.log2 - 52
  max (if fills n d estimate then estimate else estimate - 1) (-1074)

/-- The bits of the number nearest to `n / d`, for positive `n` and `d`. -/
def ratioBits (n d : Nat) : Nat :=
  let e := ratioExponent n d
  min ((e + 1074).toNat * 2 ^ 52 + roundDiv (scaled n d e).1 (scaled n d e).2) (0x7FF * 2 ^ 52)

/-- The number nearest to `n / d`, with a sign. -/
def ofRatio (negative : Bool) (n d : Nat) : Float :=
  let bits := if n = 0 then 0 else ratioBits n d
  Float.ofBits (UInt64.ofNat (bits + if negative then 2 ^ 63 else 0))

/-- The number nearest to an integer. -/
def ofInt (i : Int) : Float := ofRatio (i < 0) i.natAbs 1

/-- The integer part of a finite number, toward zero. -/
def truncate (x : Float) : Int :=
  let p := parts x
  let size := if p.exponent < 0 then p.mantissa / 2 ^ (-p.exponent).toNat
    else p.mantissa * 2 ^ p.exponent.toNat
  if p.negative then -size else size

/-- A finite number rounded to the nearest integer, a tie going away from zero. -/
def roundAway (x : Float) : Int :=
  let p := parts x
  let size :=
    if p.exponent < 0 then
      let unit := 2 ^ (-p.exponent).toNat
      (2 * p.mantissa + unit) / (2 * unit)
    else p.mantissa * 2 ^ p.exponent.toNat
  if p.negative then -size else size

/-- What is left of a finite number without its integer part. -/
def fraction (x : Float) : Float := x - ofInt (truncate x)

-- ---------------------------------------------------------------------------
-- Reading decimals
-- ---------------------------------------------------------------------------

/-- The number nearest to `digits · 10 ^ exponent`. -/
def ofDecimal (negative : Bool) (digits : Nat) (exponent : Int) : Float :=
  let size : Int := (Nat.toDigits 10 digits).length
  if digits = 0 || size + exponent < -400 then ofRatio negative 0 1
  else if size + exponent > 400 then ofRatio negative (2 ^ 1024) 1
  else if exponent < 0 then ofRatio negative digits (10 ^ (-exponent).toNat)
  else ofRatio negative (digits * 10 ^ exponent.toNat) 1

/-- The value of a text of decimal digits. -/
def digitsValue (cs : List Char) : Nat :=
  cs.foldl (fun n c => 10 * n + (c.toNat - '0'.toNat)) 0

/-- An optional sign in front of a text. -/
def splitSign : List Char → Bool × List Char
  | '-' :: rest => (true, rest)
  | '+' :: rest => (false, rest)
  | cs => (false, cs)

/-- An exponent such as `e-5`, which may be missing. -/
def readExponent? (cs : List Char) : Option Int :=
  match cs with
  | [] => some 0
  | e :: rest =>
    if e = 'e' || e = 'E' then
      let (negative, digits) := splitSign rest
      if digits.isEmpty || !digits.all Char.isDigit then none
      else some (if negative then -(digitsValue digits : Int) else digitsValue digits)
    else none

/--
Reads a decimal: an optional sign, digits with at most one point among or around them, and an optional
exponent. `inf` and `NaN` are read too, in any case.
-/
def read? (text : String) : Option Float :=
  let (negative, cs) := splitSign text.toList
  let word := String.ofList (cs.map Char.toLower)
  if word = "inf" || word = "infinity" then some (ofRatio negative (2 ^ 1024) 1)
  else if word = "nan" then some (0.0 / 0.0)
  else
    let whole := cs.takeWhile Char.isDigit
    let (places, tail) :=
      match cs.dropWhile Char.isDigit with
      | '.' :: rest => (rest.takeWhile Char.isDigit, rest.dropWhile Char.isDigit)
      | rest => ([], rest)
    if whole.isEmpty && places.isEmpty then none
    else do
      let exponent ← readExponent? tail
      some (ofDecimal negative (digitsValue (whole ++ places)) (exponent - places.length))

-- ---------------------------------------------------------------------------
-- Writing decimals
-- ---------------------------------------------------------------------------

/-- The positive reals that round to a number, as multiples of a common unit. -/
structure Interval where
  low : Nat
  value : Nat
  high : Nat
  /-- The ends round to the number too. -/
  closed : Bool

/--
The interval of a number with the given mantissa, in quarters of its last place. Below a power of two
the numbers lie twice as close.
-/
def interval (mantissa : Nat) (exponent : Int) : Interval :=
  let value := 4 * mantissa
  let gap := if mantissa = 2 ^ 52 && exponent > -1074 then 1 else 2
  ⟨value - gap, value, value + 2, mantissa % 2 = 0⟩

/-- `digits · 10 ^ power` lies in the interval whose unit is `2 ^ unit`. -/
def Interval.contains (i : Interval) (unit : Int) (digits : Nat) (power : Int) : Bool :=
  -- Both sides are multiplied until they are whole.
  let point := digits * 10 ^ power.toNat * 2 ^ (-unit).toNat
  let scale := 10 ^ (-power).toNat * 2 ^ unit.toNat
  if i.closed then i.low * scale ≤ point && point ≤ i.high * scale
  else i.low * scale < point && point < i.high * scale

/-- The largest `k` with `10 ^ k ≤ value · 2 ^ unit`, for a positive value. -/
def decimalExponent (value : Nat) (unit : Int) : Int :=
  let reaches (k : Int) : Bool :=
    10 ^ k.toNat * 2 ^ (-unit).toNat ≤ value * 2 ^ unit.toNat * 10 ^ (-k).toNat
  let estimate := ((value.log2 : Int) + unit) * 30103 / 100000
  if reaches (estimate + 1) then estimate + 1
  else if reaches estimate then estimate
  else estimate - 1

/--
The digits and the power of ten of the nearest decimal with `count` digits that lies in the interval,
when there is one.
-/
def nearest? (i : Interval) (unit top : Int) (count : Nat) : Option (Nat × Int) :=
  let power := top + 1 - count
  let n := i.value * 2 ^ unit.toNat * 10 ^ (-power).toNat
  let d := 2 ^ (-unit).toNat * 10 ^ power.toNat
  let below := n / d
  let order := if 2 * (n % d) < d || (2 * (n % d) = d && below % 2 = 0)
    then [below, below + 1] else [below + 1, below]
  (order.find? fun digits => i.contains unit digits power).map (·, power)

/-- The shortest decimal in the interval of a positive number, as digits and a power of ten. -/
def shortest (mantissa : Nat) (exponent : Int) : Nat × Int :=
  let i := interval mantissa exponent
  let unit := exponent - 2
  let top := decimalExponent i.value unit
  ((List.range 17).findSome? fun n => nearest? i unit top (n + 1)).getD (mantissa, 0)

/-- `digits · 10 ^ power` in positional notation, without a point when the number is whole. -/
def positional (digits : Nat) (power : Int) : String :=
  let cs := Nat.toDigits 10 digits
  if power ≥ 0 then String.ofList (cs ++ List.replicate power.toNat '0')
  else
    let places := (-power).toNat
    let padded := List.replicate (places + 1 - cs.length) '0' ++ cs
    let whole := padded.take (padded.length - places)
    let decimals := padded.drop (padded.length - places)
    let kept := (decimals.reverse.dropWhile (· = '0')).reverse
    String.ofList (whole ++ if kept.isEmpty then [] else '.' :: kept)

/-- The text of a number. -/
def text (x : Float) : String :=
  if x.isNaN then "NaN"
  else
    let sign := if isNegative x then "-" else ""
    if x.isInf then sign ++ "inf"
    else
      let p := parts x
      if p.mantissa = 0 then sign ++ "0"
      else
        let (digits, power) := shortest p.mantissa p.exponent
        sign ++ positional digits power

end StructuredText.Binary64
