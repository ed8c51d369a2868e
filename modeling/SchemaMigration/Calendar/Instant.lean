import SchemaMigration.Number.Integer

/-! # Instants and calendar dates

An instant is a number of seconds since the start of 1970 in universal time, and a number of
nanoseconds. A leap second is counted with the second before it, so its nanoseconds are one thousand
million or more. Dates are those of the Gregorian calendar, extended to all years; the year before
year 1 is year 0.
-/

namespace SchemaMigration.Calendar

/-- A moment in universal time. -/
structure Instant where
  seconds : Int
  nanos : Nat
  deriving DecidableEq, Repr

/-- A date of the Gregorian calendar. -/
structure Date where
  year : Int
  month : Nat
  day : Nat
  deriving DecidableEq, Repr

/-- A time of day. In a leap second the second is sixty. -/
structure TimeOfDay where
  hour : Nat
  minute : Nat
  second : Nat
  deriving DecidableEq, Repr

/-- Leap years: every fourth, but of the centuries only every fourth. -/
def isLeapYear (year : Int) : Bool :=
  year % 4 == 0 && (year % 100 != 0 || year % 400 == 0)

/-- The number of days in a month of a year. -/
def daysInMonth (year : Int) (month : Nat) : Nat :=
  match month with
  | 2 => if isLeapYear year then 29 else 28
  | 4 | 6 | 9 | 11 => 30
  | _ => 31

namespace Date

/-- Dates that exist. -/
def Valid (d : Date) : Prop :=
  1 ≤ d.month ∧ d.month ≤ 12 ∧ 1 ≤ d.day ∧ d.day ≤ daysInMonth d.year d.month

instance (d : Date) : Decidable d.Valid :=
  inferInstanceAs (Decidable (_ ∧ _))

/-- The number of days from the first of January of year 0 to the first of January of a year. -/
def daysBeforeYear (year : Int) : Int :=
  365 * year + (year + 3) / 4 - (year + 99) / 100 + (year + 399) / 400

/-- The number of days in a year before its month, given as a number from one. -/
def daysBeforeMonth (year : Int) (month : Nat) : Nat :=
  (List.range (month - 1)).foldl (fun days m => days + daysInMonth year (m + 1)) 0

/-- The day on which the count of days starts, the first of January 1970, counted from year 0. -/
def epochDay : Int := 719528

/-- The number of days since the first of January 1970. -/
def toDays (d : Date) : Int :=
  daysBeforeYear d.year + daysBeforeMonth d.year d.month + (d.day - 1) - epochDay

/-- The year that holds a day counted from year 0: four centuries have 146097 days, so the quotient
is at most one year off, and the start of the next year decides. -/
def yearOfDay (day : Int) : Int :=
  let guess := day * 400 / 146097
  if daysBeforeYear (guess + 1) ≤ day then guess + 1
  else if day < daysBeforeYear guess then guess - 1
  else guess

/-- The month and the day of the month of a day counted from zero within a year, looked for from a
month on, of which `fuel` more follow. -/
def monthOfDay (year : Int) : Nat → Nat → Nat → Nat × Nat
  | 0, month, day => (month, day + 1)
  | fuel + 1, month, day =>
    let length := daysInMonth year month
    if day < length then (month, day + 1) else monthOfDay year fuel (month + 1) (day - length)

/-- The date a number of days after the first of January 1970. -/
def ofDays (days : Int) : Date :=
  let day := days + epochDay
  let year := yearOfDay day
  let (month, dayOfMonth) := monthOfDay year 11 1 (day - daysBeforeYear year).toNat
  ⟨year, month, dayOfMonth⟩

/-- A year as written: four digits from year 0 to 9999, and beyond them at least four digits after
a sign. -/
def yearText (year : Int) : String :=
  match year with
  | .ofNat n => if n ≤ 9999 then Number.paddedText 4 n else "+" ++ Number.paddedText 4 n
  | .negSucc n => "-" ++ Number.paddedText 4 (n + 1)

end Date

namespace Instant

def date (t : Instant) : Date :=
  Date.ofDays (t.seconds / 86400)

/-- The time of day of an instant, leap seconds counted with the second before them. -/
def timeOfDay (t : Instant) : TimeOfDay :=
  let s := (t.seconds % 86400).toNat
  ⟨s / 3600, s / 60 % 60, s % 60⟩

/-- The instant of a date, a time of day and a number of nanoseconds. Second sixty is the leap
second, counted with second fifty-nine. -/
def ofCalendar (d : Date) (time : TimeOfDay) (nanos : Nat) : Instant :=
  let leap := 59 < time.second
  let second := if leap then 59 else time.second
  ⟨d.toDays * 86400 + time.hour * 3600 + time.minute * 60 + second,
    if leap then nanos + 1000000000 else nanos⟩

/-- The same instant without what is finer than a microsecond. -/
def truncateMicros (t : Instant) : Instant :=
  ⟨t.seconds, t.nanos / 1000 * 1000⟩

end Instant

end SchemaMigration.Calendar
