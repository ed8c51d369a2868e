import SchemaMigration.Calendar.Instant

/-! # Stamps

A migration is stamped with a number whose decimal digits are the date and the time of day: the
year, and two digits each of the month, the day, the hour, the minute and the second. Stamps order
migrations, so a new one is always above the latest.
-/

namespace SchemaMigration

open Calendar (Instant)

namespace Stamp

/-- The two-digit fields of an instant below the year, as one number of ten digits. -/
def withinYear (t : Instant) : Nat :=
  let d := t.date
  let time := t.timeOfDay
  let second := time.second + t.nanos / 1000000000
  (((d.month * 100 + d.day) * 100 + time.hour) * 100 + time.minute) * 100 + second

/-- The number whose digits are the date and time of an instant. Before year 0 it is negative, with
the digits of the year's distance from year 0. -/
def digits (t : Instant) : Int :=
  let year := t.date.year
  let magnitude : Nat := year.natAbs * 10000000000 + withinYear t
  if year < 0 then -magnitude else magnitude

/-- The stamp of an instant: its date and time as a 64-bit number, or zero where they do not fit. -/
def ofInstant (t : Instant) : Int64 :=
  (Number.toInt64? (digits t)).getD 0

/-- The stamp of the next migration: that of the instant, or one more than the latest stamp where
this is not less. The sum is taken in 64 bits. -/
def next (now : Instant) (latest : Option Int64) : Int64 :=
  match latest with
  | some latest => if ofInstant now ≤ latest then latest + 1 else ofInstant now
  | none => ofInstant now

end Stamp

end SchemaMigration
