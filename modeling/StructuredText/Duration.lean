-- SUMMARY: Durations as whole nanoseconds within a fixed range, and how they are written.

/-!
# Durations

A duration is a count of nanoseconds whose whole seconds fit a signed 64 bit integer. Operations whose
result leaves that range have no result.
-/

namespace StructuredText

/-- The whole seconds of a count of nanoseconds, cut off toward zero, fit a signed 64 bit integer. -/
def IsDuration (nanos : Int) : Prop :=
  -(2 ^ 63 * 10 ^ 9 + 999999999) ≤ nanos ∧ nanos ≤ (2 ^ 63 - 1) * 10 ^ 9 + 999999999

instance (nanos : Int) : Decidable (IsDuration nanos) :=
  inferInstanceAs (Decidable (_ ∧ _))

/-- A length of time, forward or backward. -/
structure Duration where
  nanos : Int
  inRange : IsDuration nanos
  deriving DecidableEq

namespace Duration

def zero : Duration := ⟨0, by unfold IsDuration; omega⟩

instance : Inhabited Duration := ⟨zero⟩

def ofNanos? (nanos : Int) : Option Duration :=
  if h : IsDuration nanos then some ⟨nanos, h⟩ else none

@[simp] theorem ofNanos?_nanos (d : Duration) : ofNanos? d.nanos = some d := by
  simp [ofNanos?, d.inRange]

theorem ofNanos?_eq_some {n : Int} {d : Duration} (h : ofNanos? n = some d) : d.nanos = n := by
  unfold ofNanos? at h
  split at h
  · exact congrArg Duration.nanos (Option.some.inj h).symm
  · cases h

def add? (a b : Duration) : Option Duration := ofNanos? (a.nanos + b.nanos)

/-- The whole seconds, cut off toward zero. -/
def wholeSeconds (d : Duration) : Int := d.nanos.tdiv (10 ^ 9)

/-- The difference. That of the whole seconds has to be in range as well. -/
def sub? (a b : Duration) : Option Duration :=
  if IsDuration ((a.wholeSeconds - b.wholeSeconds) * 10 ^ 9) then ofNanos? (a.nanos - b.nanos)
  else none

/--
The parts that a duration is written with, each a count and its unit. Only the days are unbounded.
Nanoseconds below a whole microsecond are not written.
-/
def units (nanos : Nat) : List (Nat × String) :=
  [(nanos / (86400 * 10 ^ 9), "d"), (nanos / (3600 * 10 ^ 9) % 24, "h"),
   (nanos / (60 * 10 ^ 9) % 60, "m"), (nanos / 10 ^ 9 % 60, "s"),
   (nanos / 10 ^ 6 % 1000, "ms"), (nanos / 1000 % 1000, "us")]

/-- The literal of a duration, such as `T#-1h30m`. -/
def text (d : Duration) : String :=
  let sign := if d.nanos < 0 then "-" else ""
  -- The duration that is furthest back has no opposite and is written like the longest one.
  let size := min d.nanos.natAbs ((2 ^ 63 - 1) * 10 ^ 9 + 999999999)
  let parts :=
    if size = 0 then "0s"
    else String.join ((units size).map fun (n, unit) => if n = 0 then "" else s!"{n}{unit}")
  "T#" ++ sign ++ parts

end Duration

end StructuredText
