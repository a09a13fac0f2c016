-- SUMMARY: The values of literal tokens, and the report of literals that have none.
import StructuredText.Text.Numeral
import StructuredText.Token
import StructuredText.Value

/-!
# Literals

The shape of a literal is settled when the source is split into tokens; its value is computed here. A
literal may still have no value, such as a date that the calendar does not have. `Literal.check` reports
those before the grammar is looked at.
-/

namespace StructuredText

/-- The part of a literal that is not valid. -/
inductive LiteralError where
  | integer | basedInteger | real | string | stringEscape
  | duration | durationUnit | durationValue
  /-- The duration is longer than any that can be stored. -/
  | durationRange
  | year | month | day | date
  | hour | minute | second | timeOfDay
  | dateAndTime
  deriving DecidableEq, Repr, Inhabited

/-- What was expected in place of the part. -/
def LiteralError.expected : LiteralError → String
  | .integer => "integer"
  | .basedInteger => "based integer"
  | .real => "real"
  | .string => "string"
  | .stringEscape => "string escape"
  | .duration => "duration"
  | .durationUnit => "duration unit"
  | .durationValue => "duration value"
  | .durationRange => "duration in range"
  | .year => "year"
  | .month => "month"
  | .day => "day"
  | .date => "date"
  | .hour => "hour"
  | .minute => "minute"
  | .second => "second"
  | .timeOfDay => "time of day"
  | .dateAndTime => "date and time"

namespace Literal

/-- A result, or the error when there is none. -/
def orError (e : LiteralError) : Option α → Except LiteralError α
  | some a => .ok a
  | none => .error e

/-- The characters that count in a number. -/
def significant (cs : List Char) : List Char := cs.filter (· ≠ '_')

/-- What follows the tag of a literal such as `D#2024-01-31`. -/
def afterTag (cs : List Char) : List Char := (cs.dropWhile (· ≠ '#')).drop 1

-- ---------------------------------------------------------------------------
-- Numbers
-- ---------------------------------------------------------------------------

/-- Integers are below this limit. -/
def integerLimit : Nat := 2 ^ 127

def integerInBase (base : Nat) (cs : List Char) : Option Int :=
  ((Text.digits? base (significant cs)).filter (· < integerLimit)).map Int.ofNat

def integer (cs : List Char) : Except LiteralError Int :=
  orError .integer (integerInBase 10 cs)

/-- An integer with its base, such as `16#FF`. -/
def basedInteger (cs : List Char) : Except LiteralError Int :=
  orError .basedInteger do
    let base ← Text.digits? 10 (cs.takeWhile (· ≠ '#'))
    integerInBase base (afterTag cs)

def real (cs : List Char) : Except LiteralError Float :=
  orError .real (Binary64.read? (String.ofList (significant cs)))

-- ---------------------------------------------------------------------------
-- Strings
-- ---------------------------------------------------------------------------

/-- The character that a letter after a dollar sign stands for. -/
def escaped? (c : Char) : Option Char :=
  match c.toUpper with
  | '$' => some '$'
  | '\'' => some '\''
  | 'L' | 'N' => some '\n'
  | 'R' => some '\r'
  | 'T' => some '\t'
  | _ => none

/-- The characters up to the closing quote, which has to be the last one. -/
def unquoted : List Char → Except LiteralError (List Char)
  | [] => .error .string
  | ['\''] => .ok []
  | '$' :: c :: rest => do
    let e ← orError .stringEscape (escaped? c)
    pure (e :: (← unquoted rest))
  | c :: rest => do pure (c :: (← unquoted rest))

def string (cs : List Char) : Except LiteralError String :=
  match cs with
  | '\'' :: rest => do pure (String.ofList (← unquoted rest))
  | _ => .error .string

-- ---------------------------------------------------------------------------
-- Durations
-- ---------------------------------------------------------------------------

/-- The seconds that a unit at the front of a text has, and the text after it. -/
def unit? : List Char → Option (Float × List Char)
  | 'm' :: 's' :: rest => some (0.001, rest)
  | 'd' :: rest => some (86400, rest)
  | 'h' :: rest => some (3600, rest)
  | 'm' :: rest => some (60, rest)
  | 's' :: rest => some (1, rest)
  | _ => none

theorem length_of_unit? {cs rest : List Char} {u : Float} (h : unit? cs = some (u, rest)) :
    rest.length < cs.length := by
  unfold unit? at h
  split at h <;> simp_all <;> omega

/-- Seconds beyond this number do not count. -/
def secondsLimit : Int := 2 ^ 63 - 1

/-- A number of seconds that is not negative, rounded to nanoseconds. -/
def ofSeconds? (seconds : Float) : Option Duration :=
  if seconds.isFinite then
    let nanos := Binary64.roundAway (Binary64.fraction seconds * 1000000000)
    Duration.ofNanos? (min (Binary64.truncate seconds) secondsLimit * 10 ^ 9 + nanos)
  else Duration.ofNanos? (secondsLimit * 10 ^ 9)

/-- A character of the number in front of a unit. -/
def isNumberChar (c : Char) : Bool := c.isDigit || c = '.'

/-- The number and the unit at the front of a text, as seconds, and the text after them. -/
def quantity (cs : List Char) : Except LiteralError (Float × List Char) :=
  let part := cs.dropWhile (· = '_')
  let tail := part.dropWhile isNumberChar
  if tail.isEmpty then .error .durationUnit
  else do
    let value ← orError .durationValue
      (Binary64.read? (String.ofList (part.takeWhile isNumberChar)))
    let (unit, rest) ← orError .durationUnit (unit? tail)
    pure (value * unit, rest)

theorem length_of_quantity {cs rest : List Char} {x : Float} (h : quantity cs = .ok (x, rest)) :
    rest.length < cs.length := by
  have h2 : ((cs.dropWhile (· = '_')).dropWhile isNumberChar).length
      ≤ (cs.dropWhile (· = '_')).length := (List.dropWhile_sublist _).length_le
  have h3 : (cs.dropWhile (· = '_')).length ≤ cs.length := (List.dropWhile_sublist _).length_le
  unfold quantity at h
  simp only at h
  split at h
  · cases h
  · cases hv : Binary64.read?
      (String.ofList ((cs.dropWhile (· = '_')).takeWhile isNumberChar)) with
    | none => rw [hv] at h; cases h
    | some v =>
      rw [hv] at h
      cases hu : unit? ((cs.dropWhile (· = '_')).dropWhile isNumberChar) with
      | none => rw [hu] at h; cases h
      | some p =>
        rw [hu] at h
        obtain ⟨u, r⟩ := p
        cases h
        exact Nat.lt_of_lt_of_le (length_of_unit? hu) (Nat.le_trans h2 h3)

/-- The sum of the parts of a duration, each of which is a number with a unit. -/
def durationParts (total : Duration) (cs : List Char) : Except LiteralError Duration :=
  if cs.isEmpty then .ok total
  else
    match _h : quantity cs with
    | .error e => .error e
    | .ok (seconds, rest) => do
      let total ← orError .durationRange ((ofSeconds? seconds).bind total.add?)
      durationParts total rest
termination_by cs.length
decreasing_by exact length_of_quantity _h

/-- A duration such as `T#1h_30m` or `TIME#-1.5s`. -/
def duration (cs : List Char) : Except LiteralError Duration := do
  let cs := (afterTag cs).map Char.toLower
  let (negative, parts) :=
    match cs with
    | '-' :: rest => (true, rest)
    | cs => (false, cs)
  if parts.isEmpty then throw .duration
  let total ← durationParts .zero parts
  if negative then orError .durationRange (Duration.ofNanos? (-total.nanos)) else pure total

-- ---------------------------------------------------------------------------
-- Dates and times
-- ---------------------------------------------------------------------------

/-- A date such as `2024-01-31`. -/
def civilDate : List (List Char) → Except LiteralError Date
  | [year, month, day] => do
    let year ← orError .year (Text.number? (2 ^ 31 - 1) year)
    let month ← orError .month (Text.number? 255 month)
    let day ← orError .day (Text.number? 255 day)
    if month < 1 || month > 12 then throw .month
    orError .date (Date.ofCivil? year month day)
  | _ => .error .date

/-- A time such as `12:30:00.5`, rounded to nanoseconds. -/
def clockTime (cs : List Char) : Except LiteralError TimeOfDay :=
  match Text.fields ':' cs with
  | [hour, minute, second] => do
    let hour ← orError .hour (Text.number? 255 hour)
    let minute ← orError .minute (Text.number? 255 minute)
    let second ← orError .second (Binary64.read? (String.ofList second))
    if !second.isFinite then throw .timeOfDay
    let nanos := Binary64.roundAway (Binary64.fraction second * 1000000000)
    orError .timeOfDay
      (TimeOfDay.ofClock? hour minute (Binary64.truncate second).toNat nanos.toNat)
  | _ => .error .timeOfDay

def date (cs : List Char) : Except LiteralError Date :=
  civilDate (Text.fields '-' (afterTag cs))

def timeOfDay (cs : List Char) : Except LiteralError TimeOfDay := clockTime (afterTag cs)

def dateAndTime (cs : List Char) : Except LiteralError DateAndTime :=
  match Text.fields '-' (afterTag cs) with
  | [year, month, day, clock] => do pure ⟨← civilDate [year, month, day], ← clockTime clock⟩
  | _ => .error .dateAndTime

-- ---------------------------------------------------------------------------
-- Tokens
-- ---------------------------------------------------------------------------

/-- The value of a token, if it is a literal. -/
def value? (t : Token) : Option (Except LiteralError Value) :=
  let cs := t.text.toList
  match t.kind with
  | .integer => some ((integer cs).map .integer)
  | .basedInteger => some ((basedInteger cs).map .integer)
  | .real => some ((real cs).map .real)
  | .string => some ((string cs).map .string)
  | .duration => some ((duration cs).map .duration)
  | .date => some ((date cs).map .date)
  | .timeOfDay => some ((timeOfDay cs).map .timeOfDay)
  | .dateAndTime => some ((dateAndTime cs).map .dateAndTime)
  | _ => none

/-- The reason why a token is a literal without a value. -/
def error? (t : Token) : Option LiteralError :=
  match value? t with
  | some (.error e) => some e
  | _ => none

/-- Reports every literal without a value. -/
def check (tokens : List Token) : List Diagnostic :=
  tokens.filterMap fun t => (error? t).map fun e =>
    .of .invalidLiteral t.span s!"Expected a valid {e.expected}. Found {t.text}"

end Literal

end StructuredText
