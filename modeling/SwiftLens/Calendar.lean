import SwiftLens.Fault

/-!
# Points in time

A point in time is a number of milliseconds since the beginning of 1970. It is written in the
Gregorian calendar, extended in both directions, with the year in four digits from 0000 to 9999 and
with a sign and six digits outside that span. The calendar covers a hundred million days on either
side; a point beyond it has no date.

Days are counted from the first of March of the year 0, so that the leap day is the last day of a
year; 400 years have 146097 days.
-/

namespace SwiftLens.Calendar

/-- A day of the calendar. -/
structure Date where
  year : Int
  month : Nat
  day : Nat
  deriving DecidableEq, Repr

/-- The number of days in 400 years. -/
def daysPerEra : Int := 146097

/-- The number of days from the first of March of the year 0 to the first of January 1970. -/
def epochDay : Int := 719468

/-- The date of the day with the given number, where day 0 is the first of January 1970. -/
def dateOfDay (day : Int) : Date :=
  let n := day + epochDay
  let era := n.fdiv daysPerEra
  let dayOfEra := (n.fmod daysPerEra).toNat
  let yearOfEra := (dayOfEra - dayOfEra / 1460 + dayOfEra / 36524 - dayOfEra / 146096) / 365
  let dayOfYear := dayOfEra - (365 * yearOfEra + yearOfEra / 4 - yearOfEra / 100)
  let m := (5 * dayOfYear + 2) / 153
  let month := if m < 10 then m + 3 else m - 9
  ⟨era * 400 + yearOfEra + (if month ≤ 2 then 1 else 0), month, dayOfYear - (153 * m + 2) / 5 + 1⟩

/-- The number of milliseconds in a day. -/
def dayLength : Int := 86400000

/-- The greatest distance from the beginning of 1970 that the calendar covers. -/
def maxDistance : Nat := 8640000000000000

/-- A number in at least the given number of digits. -/
def pad (width n : Nat) : Text :=
  let digits := Text.ofNat n
  List.replicate (width - digits.length) CodeUnit.zero ++ digits

/-- A year as it is written. -/
def yearText (year : Int) : Text :=
  if 0 ≤ year ∧ year ≤ 9999 then pad 4 year.natAbs
  else (if year < 0 then "-" else "+") ++ pad 6 year.natAbs

/-- A point in time as it is written, with the given marks between hours, minutes and seconds and
before the milliseconds. -/
def write (colon dot : Text) (ms : Int) : Text :=
  let date := dateOfDay (ms.fdiv dayLength)
  let rest := (ms.fmod dayLength).toNat
  yearText date.year ++ "-" ++ pad 2 date.month ++ "-" ++ pad 2 date.day ++ "T"
    ++ pad 2 (rest / 3600000) ++ colon ++ pad 2 (rest / 60000 % 60) ++ colon
    ++ pad 2 (rest / 1000 % 60) ++ dot ++ pad 3 (rest % 1000) ++ "Z"

/-- Whether the calendar covers a point in time. -/
def covers (ms : Int) : Bool := ms.natAbs ≤ maxDistance

/-- A point in time as it stands in the journal. -/
def stamp (ms : Int) : Text := write ":" "." ms

/-- A point in time as the name of a session: a stamp that can stand in a file name. -/
def sessionId (ms : Int) : Except Fault Text :=
  if covers ms then .ok (write "-" "-" ms) else .error .invalidTime

end SwiftLens.Calendar
