/-!
# The calendar

Dates of the proleptic Gregorian calendar and their numbers, counted in days from 1 January 1970.
Year 0 is the year before year 1. A year is found by an estimate that is off by at most one, and
the date within the year by taking away the lengths of whole months.
-/

namespace LayeredMachines

/-- A day of the calendar. Months and days are counted from one. -/
structure Date where
  year : Int
  month : Nat
  day : Nat
  deriving DecidableEq

namespace Date

/-- Every fourth year is a leap year, of the full centuries only every fourth. -/
def isLeap (year : Int) : Bool :=
  year % 4 == 0 && (year % 100 != 0 || year % 400 == 0)

/-- The lengths of the months of a common year or of a leap year. -/
def monthLengths (leap : Bool) : List Nat :=
  [31, if leap then 29 else 28, 31, 30, 31, 30, 31, 31, 30, 31, 30, 31]

/-- The number of 1 January of a year. -/
def yearStart (year : Int) : Int :=
  let before := year - 1
  365 * before + before / 4 - before / 100 + before / 400 - 719162

/-- The date exists in the calendar. -/
def isValid (date : Date) : Bool :=
  match (monthLengths (isLeap date.year))[date.month - 1]? with
  | some length => 1 ≤ date.month && 1 ≤ date.day && date.day ≤ length
  | none => false

/-- The number of a date. -/
def dayNumber (date : Date) : Int :=
  let passed := (monthLengths (isLeap date.year)).take (date.month - 1)
  yearStart date.year + (passed.foldl Nat.add 0 : Nat) + (date.day : Int) - 1

/-- The year of a day, from its number. -/
def yearOf (number : Int) : Int :=
  let estimate := (400 * number) / 146097 + 1970
  if number < yearStart estimate then estimate - 1
  else if yearStart (estimate + 1) ≤ number then estimate + 1
  else estimate

/-- The month and the day in it, of a day of the year counted from zero, with `month` the number of
the first of the months whose lengths are given. -/
def monthOf (month : Nat) : List Nat → Nat → Nat × Nat
  | [], offset => (month, offset + 1)
  | length :: rest, offset =>
    if offset < length then (month, offset + 1) else monthOf (month + 1) rest (offset - length)

/-- The date of a day, from its number. -/
def ofDayNumber (number : Int) : Date :=
  let year := yearOf number
  let (month, day) := monthOf 1 (monthLengths (isLeap year)) (number - yearStart year).toNat
  ⟨year, month, day⟩

end Date

end LayeredMachines
