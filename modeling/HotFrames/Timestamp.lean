import HotFrames.Text.Numeral

/-!
# Timestamps

A moment in coordinated universal time, and its text in the form of RFC 3339: the date, the letter
`T`, the time of the day, and the offset `+00:00`. The fraction of a second is left out if it is
zero, and otherwise has three, six or nine places, the fewest that show it in full.
-/

namespace HotFrames

/-- A moment, counted from the start of the year 1970. -/
structure Timestamp where
  /-- The whole seconds. -/
  seconds : Nat
  /-- The nanoseconds of the second under way. -/
  nanoseconds : Nat
  deriving DecidableEq, Repr

namespace Timestamp

/-- The moment after a number of nanoseconds. -/
def ofNanoseconds (n : Nat) : Timestamp := ⟨n / 1000000000, n % 1000000000⟩

/-! ### Dates -/

/-- Whether a year has a leap day. -/
def isLeapYear (year : Nat) : Bool := year % 4 = 0 && (year % 100 ≠ 0 || year % 400 = 0)

/-- The lengths of the months of a year. -/
def monthLengths (year : Nat) : List Nat :=
  [31, if isLeapYear year then 29 else 28, 31, 30, 31, 30, 31, 31, 30, 31, 30, 31]

/-- The length of a year. -/
def yearLength (year : Nat) : Nat := if isLeapYear year then 366 else 365

theorem yearLength_pos (year : Nat) : 0 < yearLength year := by
  unfold yearLength
  split <;> decide

/-- The year of a day counted from the start of a year, and the day counted from the start of that
year. -/
def splitYears (year day : Nat) : Nat × Nat :=
  if day < yearLength year then (year, day) else splitYears (year + 1) (day - yearLength year)
termination_by day
decreasing_by have := yearLength_pos year; omega

/-- The month of a day counted from the start of some months, and the day counted from the start of
that month. -/
def splitMonths : List Nat → Nat → Nat × Nat
  | [], day => (0, day)
  | length :: months, day =>
    if day < length then (0, day)
    else
      let (month, day) := splitMonths months (day - length)
      (month + 1, day)

/-! ### Text -/

/-- The text of the date, from the days since the start of 1970. -/
def dateText (days : Nat) : String :=
  let (year, day) := splitYears 1970 days
  let (month, day) := splitMonths (monthLengths year) day
  Padded.zeros 4 year ++ "-" ++ Padded.zeros 2 (month + 1) ++ "-" ++ Padded.zeros 2 (day + 1)

/-- The text of the time of the day, from the seconds since midnight. -/
def clockText (seconds : Nat) : String :=
  Padded.zeros 2 (seconds / 3600) ++ ":" ++ Padded.zeros 2 (seconds / 60 % 60) ++ ":" ++
    Padded.zeros 2 (seconds % 60)

/-- The text of the fraction of a second. -/
def fractionText (nanoseconds : Nat) : String :=
  if nanoseconds = 0 then ""
  else if nanoseconds % 1000000 = 0 then "." ++ Padded.zeros 3 (nanoseconds / 1000000)
  else if nanoseconds % 1000 = 0 then "." ++ Padded.zeros 6 (nanoseconds / 1000)
  else "." ++ Padded.zeros 9 nanoseconds

/-- The text of a moment. -/
def text (t : Timestamp) : String :=
  dateText (t.seconds / 86400) ++ "T" ++ clockText (t.seconds % 86400) ++
    fractionText t.nanoseconds ++ "+00:00"

end Timestamp

end HotFrames
