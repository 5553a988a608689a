import LayeredMachines.Instant.Calendar

/-!
# Instants

A point in time, counted from the beginning of 1970 in universal time. A leap second is the second
after the one it is counted as: its fraction is a whole second too large.
-/

namespace LayeredMachines

/-- Seconds since the beginning of 1970 and a fraction in nanoseconds, which is below two
thousand million, and below one thousand million outside leap seconds. -/
structure Instant where
  seconds : Int
  nanos : Nat
  deriving DecidableEq

namespace Instant

/-- The number of seconds of a day. -/
def daySeconds : Int := 86400

/-- The number of nanoseconds of a second. -/
def secondNanos : Nat := 1000000000

/-- The instant a number of milliseconds after the beginning of 1970. -/
def ofMillis (millis : Int) : Instant :=
  ⟨millis / 1000, (millis % 1000).toNat * 1000000⟩

/-- The whole milliseconds since the beginning of 1970. -/
def toMillis (time : Instant) : Int :=
  time.seconds * 1000 + (time.nanos / 1000000 : Nat)

/-- The instant lies within a leap second. -/
def inLeapSecond (time : Instant) : Bool :=
  secondNanos ≤ time.nanos

/-- The second of the day. -/
def secondOfDay (time : Instant) : Int :=
  time.seconds % daySeconds

/-- The nanoseconds from `earlier` to `later`, negative if they are in the other order. A leap
second is counted only between times of day on both of its sides. -/
def nanosBetween (earlier later : Instant) : Int :=
  let leap : Int :=
    if earlier.secondOfDay < later.secondOfDay && earlier.inLeapSecond then 1
    else if later.secondOfDay < earlier.secondOfDay && later.inLeapSecond then -1
    else 0
  (later.seconds - earlier.seconds + leap) * secondNanos + later.nanos - earlier.nanos

end Instant

end LayeredMachines
