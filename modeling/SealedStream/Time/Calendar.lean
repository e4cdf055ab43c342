/-!
The proleptic Gregorian calendar.

A day is counted from 1970-01-01. Years are reckoned from March, so that the leap day is the last
of its year; four hundred of them make an era of 146097 days.
-/

namespace SealedStream

structure Date where
  year : Int
  month : Nat
  day : Nat
  deriving DecidableEq, Repr

namespace Date

/-- Days in an era of 400 years. -/
def eraDays : Int := 146097

/-- Days from 0000-03-01 to 1970-01-01. -/
def epochDay : Int := 719468

/-- The year of an era, counted from March, that holds the era's day `doe`. -/
def yearOfEra (doe : Nat) : Nat := (doe - doe / 1460 + doe / 36524 - doe / 146096) / 365

/-- The day of an era on which its year `yoe` begins. -/
def yearStart (yoe : Nat) : Nat := 365 * yoe + yoe / 4 - yoe / 100

/-- The day of a year, counted from March, on which its month `m` begins. -/
def monthStart (m : Nat) : Nat := (153 * m + 2) / 5

/-- The date of a day. -/
def ofDays (days : Int) : Date :=
  let shifted := days + epochDay
  let era := shifted / eraDays
  let doe := (shifted % eraDays).toNat
  let yoe := yearOfEra doe
  let doy := doe - yearStart yoe
  let m := (5 * doy + 2) / 153
  let year := (yoe : Int) + 400 * era
  if m < 10 then ⟨year, m + 3, doy - monthStart m + 1⟩
  else ⟨year + 1, m - 9, doy - monthStart m + 1⟩

/-- The day of a date. -/
def days (d : Date) : Int :=
  let year := if d.month ≤ 2 then d.year - 1 else d.year
  let m := if d.month ≤ 2 then d.month + 9 else d.month - 3
  let era := year / 400
  let yoe := (year % 400).toNat
  era * eraDays + (yearStart yoe + monthStart m + d.day - 1 : Nat) - epochDay

/-- A year is a leap year when it is divisible by four, unless it is a century not divisible by
four hundred. -/
def isLeap (year : Int) : Bool := year % 4 = 0 && (year % 100 ≠ 0 || year % 400 = 0)

/-- How many days a month has. -/
def monthLength (year : Int) (month : Nat) : Nat :=
  if month = 2 then (if isLeap year then 29 else 28)
  else if month = 4 ∨ month = 6 ∨ month = 9 ∨ month = 11 then 30
  else 31

end Date

end SealedStream
