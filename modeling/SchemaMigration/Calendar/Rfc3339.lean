import SchemaMigration.Calendar.Instant
import SchemaMigration.Text.Scan

/-! # Instants as text

The text form of RFC 3339: a date, the letter `T`, a time of day and an offset from universal time.
Instants are written in universal time with six digits of a second and the letter `Z`. Read are also
a lower case `t`, one space in its place, a lower case `z`, offsets of hours and minutes after a
plus sign or a minus sign, which may be a hyphen, and fractions of any length, of which nine digits
count.
-/

namespace SchemaMigration.Calendar

open Text (isDigit)

/-- The number that exactly `count` digits at the front of a text denote, and the rest. -/
def digits? (count : Nat) (cs : List Char) : Option (Nat × List Char) :=
  let front := cs.take count
  if front.length = count ∧ front.all isDigit then some (Number.ofDigits front, cs.drop count)
  else none

def char? (p : Char → Bool) : List Char → Option (List Char)
  | c :: cs => if p c then some cs else none
  | [] => none

/-- A fraction of a second in nanoseconds, zero when there is none. -/
def fraction? (cs : List Char) : Option (Nat × List Char) :=
  match cs with
  | '.' :: rest =>
    match Text.run isDigit rest with
    | some (ds, rest) =>
      let nine := ds.take 9
      some (Number.ofDigits nine * Number.powerOfTen (9 - nine.length), rest)
    | none => none
  | _ => some (0, cs)

/-- A minus sign: the hyphen, or the sign of its own. -/
def isMinus (c : Char) : Bool :=
  c == '-' || c.toNat == 0x2212

/-- An offset from universal time in seconds, up to the end of the text. -/
def offset? : List Char → Option Int
  | ['Z'] => some 0
  | ['z'] => some 0
  | sign :: rest => do
    guard (sign = '+' ∨ isMinus sign)
    let (hours, rest) ← digits? 2 rest
    let rest ← char? (· == ':') rest
    let (minutes, rest) ← digits? 2 rest
    guard (rest = [] ∧ hours ≤ 23 ∧ minutes ≤ 59)
    let seconds : Int := hours * 3600 + minutes * 60
    return if sign = '+' then seconds else -seconds
  | [] => none

/-- A date at the front of a text: four digits of a year, two of a month and two of a day. -/
def date? (cs : List Char) : Option (Date × List Char) := do
  let (year, cs) ← digits? 4 cs
  let cs ← char? (· == '-') cs
  let (month, cs) ← digits? 2 cs
  let cs ← char? (· == '-') cs
  let (day, cs) ← digits? 2 cs
  let date : Date := ⟨year, month, day⟩
  guard date.Valid
  return (date, cs)

/-- A time of day at the front of a text, up to second sixty. -/
def time? (cs : List Char) : Option (TimeOfDay × List Char) := do
  let (hour, cs) ← digits? 2 cs
  let cs ← char? (· == ':') cs
  let (minute, cs) ← digits? 2 cs
  let cs ← char? (· == ':') cs
  let (second, cs) ← digits? 2 cs
  guard (hour ≤ 23 ∧ minute ≤ 59 ∧ second ≤ 60)
  return (⟨hour, minute, second⟩, cs)

namespace Instant

def ofText? (s : String) : Option Instant := do
  let (date, cs) ← date? s.toList
  let cs ← char? (fun c => c == 'T' || c == 't' || c == ' ') cs
  let (time, cs) ← time? cs
  let (nanos, cs) ← fraction? cs
  let offset ← offset? cs
  let t := ofCalendar date time nanos
  return { t with seconds := t.seconds - offset }

/-- An instant in universal time, cut to microseconds. A leap second is written as second sixty. -/
def toText (t : Instant) : String :=
  let d := t.date
  let time := t.timeOfDay
  Date.yearText d.year ++ "-" ++ Number.paddedText 2 d.month ++ "-" ++ Number.paddedText 2 d.day ++
    "T" ++ Number.paddedText 2 time.hour ++ ":" ++ Number.paddedText 2 time.minute ++ ":" ++
    Number.paddedText 2 (time.second + t.nanos / 1000000000) ++ "." ++
    Number.paddedText 6 (t.nanos % 1000000000 / 1000) ++ "Z"

end Instant

end SchemaMigration.Calendar
