-- SUMMARY: Dates, times of day and their combination, with the arithmetic on them.
import StructuredText.Duration

/-!
# Calendar

Dates of the Gregorian calendar from the year -9999 to the year 9999, times of day to the nanosecond,
and points in time that combine both. A date is counted by its distance in days from 1970-01-01; adding
to a time of day wraps around at midnight.
-/

namespace StructuredText

-- ---------------------------------------------------------------------------
-- Dates
-- ---------------------------------------------------------------------------

def isLeapYear (year : Int) : Bool :=
  year % 4 = 0 && (year % 100 ≠ 0 || year % 400 = 0)

def daysInMonth (year : Int) (month : Nat) : Nat :=
  if month = 2 then (if isLeapYear year then 29 else 28)
  else if [4, 6, 9, 11].contains month then 30
  else 31

/-- The calendar has a day with this year, month and day of the month. -/
def IsDate (year : Int) (month day : Nat) : Prop :=
  -9999 ≤ year ∧ year ≤ 9999 ∧ 1 ≤ month ∧ month ≤ 12 ∧ 1 ≤ day ∧ day ≤ daysInMonth year month

instance (year : Int) (month day : Nat) : Decidable (IsDate year month day) :=
  inferInstanceAs (Decidable (_ ∧ _))

/-- A day of the calendar. -/
structure Date where
  year : Int
  month : Nat
  day : Nat
  valid : IsDate year month day
  deriving DecidableEq

namespace Date

def ofCivil? (year : Int) (month day : Nat) : Option Date :=
  if h : IsDate year month day then some ⟨year, month, day, h⟩ else none

/-- The first of January 1970. -/
def epoch : Date := ⟨1970, 1, 1, by decide⟩

instance : Inhabited Date := ⟨epoch⟩

/--
The number of days from 1970-01-01. Years are counted from March, so that the leap day is the last day
of a year, and in periods of 400 years, which are all equally long.
-/
def dayNumber (d : Date) : Int :=
  let year := if d.month ≤ 2 then d.year - 1 else d.year
  let era := year / 400
  let yearOfEra := year % 400
  let month : Int := (d.month + 9) % 12
  let dayOfYear := (153 * month + 2) / 5 + d.day - 1
  let dayOfEra := yearOfEra * 365 + yearOfEra / 4 - yearOfEra / 100 + dayOfYear
  era * 146097 + dayOfEra - 719468

/-- The date with a day number, when the calendar reaches it. -/
def ofDayNumber? (days : Int) : Option Date :=
  let shifted := days + 719468
  let era := shifted / 146097
  let dayOfEra := shifted % 146097
  let yearOfEra := (dayOfEra - dayOfEra / 1460 + dayOfEra / 36524 - dayOfEra / 146096) / 365
  let dayOfYear := dayOfEra - (365 * yearOfEra + yearOfEra / 4 - yearOfEra / 100)
  let fromMarch := (5 * dayOfYear + 2) / 153
  let day := dayOfYear - (153 * fromMarch + 2) / 5 + 1
  let month := if fromMarch < 10 then fromMarch + 3 else fromMarch - 9
  let year := yearOfEra + era * 400 + (if month ≤ 2 then 1 else 0)
  ofCivil? year month.toNat day.toNat

end Date

-- ---------------------------------------------------------------------------
-- Times of day
-- ---------------------------------------------------------------------------

/-- The nanoseconds of a day. -/
def nanosPerDay : Nat := 86400 * 10 ^ 9

/-- A time of day as the nanoseconds since midnight. -/
structure TimeOfDay where
  nanos : Nat
  inDay : nanos < nanosPerDay
  deriving DecidableEq

namespace TimeOfDay

def midnight : TimeOfDay := ⟨0, by decide⟩

instance : Inhabited TimeOfDay := ⟨midnight⟩

/-- The time of day at a distance from some midnight. -/
def ofNanos (nanos : Int) : TimeOfDay :=
  ⟨(nanos % nanosPerDay).toNat, by
    have : (0 : Int) < nanosPerDay := by decide
    have := Int.emod_lt_of_pos nanos this
    have := Int.emod_nonneg nanos (b := nanosPerDay) (by decide)
    omega⟩

def ofClock? (hour minute second nano : Nat) : Option TimeOfDay :=
  if h : hour < 24 ∧ minute < 60 ∧ second < 60 ∧ nano < 10 ^ 9 then
    some ⟨((hour * 60 + minute) * 60 + second) * 10 ^ 9 + nano, by unfold nanosPerDay; omega⟩
  else none

def hour (t : TimeOfDay) : Nat := t.nanos / (3600 * 10 ^ 9)

def minute (t : TimeOfDay) : Nat := t.nanos / (60 * 10 ^ 9) % 60

def second (t : TimeOfDay) : Nat := t.nanos / 10 ^ 9 % 60

/-- The nanoseconds within the second. -/
def nano (t : TimeOfDay) : Nat := t.nanos % 10 ^ 9

def add (t : TimeOfDay) (d : Duration) : TimeOfDay := ofNanos (t.nanos + d.nanos)

def sub (t : TimeOfDay) (d : Duration) : TimeOfDay := ofNanos (t.nanos - d.nanos)

end TimeOfDay

-- ---------------------------------------------------------------------------
-- Points in time
-- ---------------------------------------------------------------------------

/-- A date and a time of day. -/
structure DateAndTime where
  date : Date
  time : TimeOfDay
  deriving DecidableEq, Inhabited

namespace DateAndTime

def epoch : DateAndTime := ⟨.epoch, .midnight⟩

/-- The nanoseconds since the start of 1970. -/
def instant (t : DateAndTime) : Int := t.date.dayNumber * nanosPerDay + t.time.nanos

def ofInstant? (nanos : Int) : Option DateAndTime :=
  (Date.ofDayNumber? (nanos / nanosPerDay)).map (⟨·, TimeOfDay.ofNanos nanos⟩)

def add? (t : DateAndTime) (d : Duration) : Option DateAndTime := ofInstant? (t.instant + d.nanos)

def sub? (t : DateAndTime) (d : Duration) : Option DateAndTime := ofInstant? (t.instant - d.nanos)

end DateAndTime

-- ---------------------------------------------------------------------------
-- Text
-- ---------------------------------------------------------------------------

/-- A number with zeros in front up to a width. -/
def padded (width n : Nat) : String :=
  let digits := toString n
  "".pushn '0' (width - digits.length) ++ digits

/-- A date as year, month and day. A sign counts as one of the four places of the year. -/
def Date.text (d : Date) : String :=
  let year := if d.year < 0 then "-" ++ padded 3 d.year.natAbs else padded 4 d.year.natAbs
  year ++ "-" ++ padded 2 d.month ++ "-" ++ padded 2 d.day

/-- A time of day to the second, or to the millisecond when it has one. -/
def TimeOfDay.text (t : TimeOfDay) : String :=
  let millis := t.nano / 10 ^ 6
  padded 2 t.hour ++ ":" ++ padded 2 t.minute ++ ":" ++ padded 2 t.second ++
    if millis = 0 then "" else "." ++ padded 3 millis

def DateAndTime.text (t : DateAndTime) : String := t.date.text ++ "-" ++ t.time.text

end StructuredText
