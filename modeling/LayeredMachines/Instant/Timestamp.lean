import LayeredMachines.Instant.Basic
import LayeredMachines.Text.Blank
import LayeredMachines.Text.Decimal

/-!
# Timestamps

The text of an instant in the form of RFC 3339. It is written in universal time with a `Z`, with
no more digits of the fraction than three, six or nine as needed, and with a sign before years
outside four digits. It is read more freely: numbers may lack their leading zeros, blank characters
may stand before numbers and signs, and any offset from universal time is taken into account.
-/

namespace LayeredMachines

namespace Instant

/-- A year has four digits, with a sign if that is not enough or if it is negative. -/
def renderYear (year : Int) : List Char :=
  if 0 ≤ year && year ≤ 9999 then Decimal.padded 4 year.toNat
  else (if year < 0 then '-' else '+') :: Decimal.padded 4 year.natAbs

/-- The fraction of a second, in as many groups of three digits as it takes. -/
def renderFraction (nanos : Nat) : List Char :=
  if nanos == 0 then []
  else if nanos % 1000000 == 0 then '.' :: Decimal.padded 3 (nanos / 1000000)
  else if nanos % 1000 == 0 then '.' :: Decimal.padded 6 (nanos / 1000)
  else '.' :: Decimal.padded 9 nanos

/-- The text of an instant. A leap second is written as the second after the one it is counted
as. -/
def render (time : Instant) : List Char :=
  let date := Date.ofDayNumber (time.seconds / daySeconds)
  let second := time.secondOfDay.toNat
  let leap := if time.inLeapSecond then 1 else 0
  renderYear date.year ++ '-' :: Decimal.padded 2 date.month ++ '-' :: Decimal.padded 2 date.day ++
    'T' :: Decimal.padded 2 (second / 3600) ++ ':' :: Decimal.padded 2 (second / 60 % 60) ++
    ':' :: Decimal.padded 2 (second % 60 + leap) ++ renderFraction (time.nanos % secondNanos) ++
    ['Z']

/-- A reader takes a value from the start of a text and leaves the rest. -/
abbrev Reader (α : Type) := List Char → Option (α × List Char)

/-- One to `most` ASCII digits, after blank characters. -/
def readNumber (most : Nat) : Reader Nat := fun text =>
  let text := trimStart text
  let written := (text.take most).takeWhile Char.isDigit
  if written.isEmpty then none else some (Decimal.value written, text.drop written.length)

/-- The given character, after blank ones. -/
def readMark (mark : Char) : Reader Unit := fun text =>
  match trimStart text with
  | c :: rest => if c = mark then some ((), rest) else none
  | [] => none

/-- Any number of digits, which do not follow blank characters. -/
def readLongNumber : Reader Nat := fun text =>
  match text.takeWhile Char.isDigit with
  | [] => none
  | written => some (Decimal.value written, text.drop written.length)

/-- A year: up to four digits, or any number of them after a sign. -/
def readYear : Reader Int := fun text =>
  match trimStart text with
  | '+' :: rest => (readLongNumber rest).map fun (year, rest) => ((year : Int), rest)
  | '-' :: rest => (readLongNumber rest).map fun (year, rest) => (-(year : Int), rest)
  | text => (readNumber 4 text).map fun (year, rest) => ((year : Int), rest)

/-- The fraction of a second in nanoseconds, from a point and at least one digit. Digits after the
ninth are passed over. No fraction is a fraction of zero. -/
def readFraction : Reader Nat
  | '.' :: rest =>
    let written := rest.takeWhile Char.isDigit
    if written.isEmpty then none
    else
      let kept := written.take 9
      some (Decimal.value kept * Nat.pow 10 (9 - kept.length), rest.drop written.length)
  | text => some (0, text)

/-- Exactly two digits. -/
def readPair : Reader Nat
  | a :: b :: rest =>
    if a.isDigit && b.isDigit then some (Decimal.value [a, b], rest) else none
  | _ => none

/-- The minus sign of typography. -/
def minusSign : Char := '\u2212'

/-- Hours and minutes of an offset in seconds, without its sign. Colons and blank characters may
stand between them. -/
def readOffsetSize : Reader Nat := fun text => do
  let (hours, text) ← readPair text
  let (minutes, text) ← readPair (text.dropWhile fun c => c == ':' || isBlank c)
  if minutes < 60 then some (hours * 3600 + minutes * 60, text) else none

/-- The offset from universal time in seconds: the letter `Z`, the letters `UTC`, or a sign with
hours and minutes, after blank characters. -/
def readOffset : Reader Int := fun text =>
  let text := trimStart text
  if (text.take 3).map Char.toLower == ['u', 't', 'c'] then some (0, text.drop 3)
  else
    match text with
    | c :: rest =>
      if c == 'Z' || c == 'z' then some (0, rest)
      else if c == '+' then
        (readOffsetSize rest).map fun (size, rest) => ((size : Int), rest)
      else if c == '-' || c == minusSign then
        (readOffsetSize rest).map fun (size, rest) => (-(size : Int), rest)
      else none
    | [] => none

/-- The years that an instant can lie in. -/
def yearInRange (year : Int) : Bool :=
  -262143 ≤ year && year ≤ 262142

/-- The instant of a date, a time of day and an offset from universal time. A sixtieth second is a
leap second. -/
def ofParts? (date : Date) (hour minute second nanos : Nat) (offset : Int) : Option Instant :=
  let (second, nanos) := if second == 60 then (59, secondNanos + nanos) else (second, nanos)
  if date.isValid && yearInRange date.year && hour < 24 && minute < 60 && second < 60 &&
      offset.natAbs < 86400 then
    let seconds := date.dayNumber * daySeconds + hour * 3600 + minute * 60 + second - offset
    if yearInRange (Date.yearOf (seconds / daySeconds)) then some ⟨seconds, nanos⟩ else none
  else none

/-- The instant that a timestamp stands for. -/
def read? (text : List Char) : Option Instant := do
  let (year, text) ← readYear text
  let (_, text) ← readMark '-' text
  let (month, text) ← readNumber 2 text
  let (_, text) ← readMark '-' text
  let (day, text) ← readNumber 2 text
  match text with
  | [] => none
  | separator :: text =>
    if separator == 'T' || separator == 't' || separator == ' ' then do
      let (hour, text) ← readNumber 2 text
      let (_, text) ← readMark ':' text
      let (minute, text) ← readNumber 2 text
      let (_, text) ← readMark ':' text
      let (second, text) ← readNumber 2 text
      let (nanos, text) ← readFraction text
      let (offset, text) ← readOffset text
      if (trimStart text).isEmpty then
        ofParts? ⟨year, month, day⟩ hour minute second nanos offset
      else none
    else none

end Instant

end LayeredMachines
