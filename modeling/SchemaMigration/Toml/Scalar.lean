import SchemaMigration.Calendar.Rfc3339
import SchemaMigration.Number.Binary64

/-! # Numbers and times of TOML

What a number, a truth value or a time looks like, up to where it ends. Their values are not kept,
but they must be such: integers have 64 bits, decimals are not beyond the finite ones, dates exist.
-/

namespace SchemaMigration.Toml

open Calendar (Date digits? char?)
open Number (Binary64 sign)
open Text (after? isDigit)

/-- What follows a scalar. -/
abbrev Skipper := List Char → Option (List Char)

/-- Digits of a class with single underscores between them: the digits, and what follows. An
underscore must be followed by a digit. -/
def digitRun (isDigit : Char → Bool) : List Char → Option (List Char × List Char)
  | [] => none
  | [c] => if isDigit c then some ([c], []) else none
  | c :: '_' :: cs =>
    if isDigit c then (digitRun isDigit cs).map fun (ds, rest) => (c :: ds, rest) else none
  | c :: d :: cs =>
    if !isDigit c then none
    else if isDigit d then (digitRun isDigit (d :: cs)).map fun (ds, rest) => (c :: ds, rest)
    else some ([c], d :: cs)

/-- Decimal digits without zeros in front: the digits, and what follows. -/
def wholeNumber : List Char → Option (List Char × List Char)
  | '0' :: cs => some (['0'], cs)
  | cs => digitRun isDigit cs

/-- An exponent, if there is one, and what follows. -/
def exponentPart (cs : List Char) : Option (Option Int × List Char) :=
  match cs with
  | c :: rest =>
    if c = 'e' ∨ c = 'E' then
      let (negative, rest) := sign rest
      (digitRun isDigit rest).map fun (ds, rest) =>
        let n : Int := Number.ofDigits ds
        (some (if negative then -n else n), rest)
    else some (none, cs)
  | [] => some (none, cs)

def number (cs : List Char) : Option (List Char) := do
  let (negative, rest) := sign cs
  let (whole, rest) ← wholeNumber rest
  let (fraction, rest) ←
    match rest with
    | '.' :: rest => (digitRun isDigit rest).map fun (ds, rest) => (some ds, rest)
    | rest => some (none, rest)
  let (exponent, rest) ← exponentPart rest
  if fraction.isNone && exponent.isNone then
    guard (Number.readInt64 negative whole).isSome
  else
    let value := Binary64.ofScientific negative whole (fraction.getD []) (exponent.getD 0)
    guard (value ≠ .infinite false)
  return rest

/-- The value of a digit in a base up to sixteen. -/
def baseDigit (c : Char) : Nat :=
  if isDigit c then c.toNat - '0'.toNat else (Text.lowerAscii c).toNat - 'a'.toNat + 10

/-- Whether a character is a digit of a base up to sixteen. -/
def isBaseDigit (base : Nat) (c : Char) : Bool :=
  (isDigit c || ('a' ≤ c && c ≤ 'f') || ('A' ≤ c && c ≤ 'F')) && baseDigit c < base

def basedInteger (base : Nat) (cs : List Char) : Option (List Char) := do
  let (ds, rest) ← digitRun (isBaseDigit base) cs
  guard (Number.toInt64? (ds.foldl (fun n c => n * base + baseDigit c) 0 : Nat)).isSome
  return rest

/-- What follows a time of day without an offset. -/
def timeOfDay (cs : List Char) : Option (List Char) := do
  let (_, rest) ← Calendar.time? cs
  let (_, rest) ← Calendar.fraction? rest
  return rest

/-- What follows an offset from universal time, if there is one. -/
def offset (cs : List Char) : Option (List Char) :=
  match cs with
  | c :: rest =>
    if c = 'Z' ∨ c = 'z' then some rest
    else if c = '+' ∨ c = '-' then do
      let (hours, rest) ← digits? 2 rest
      let rest ← char? (· == ':') rest
      let (minutes, rest) ← digits? 2 rest
      guard (hours ≤ 23 ∧ minutes ≤ 59)
      return rest
    else some cs
  | [] => some cs

/-- Whether a time of day begins: two digits and a colon. -/
def startsTime (cs : List Char) : Bool :=
  ((digits? 2 cs).bind fun (_, rest) => char? (· == ':') rest).isSome

/-- Whether a date begins: four digits and a hyphen. -/
def startsDate (cs : List Char) : Bool :=
  ((digits? 4 cs).bind fun (_, rest) => char? (· == '-') rest).isSome

/-- What follows a date, or a date with a time of day. -/
def dateTime (cs : List Char) : Option (List Char) := do
  let (_, rest) ← Calendar.date? cs
  match rest with
  | c :: time =>
    if (c = 'T' ∨ c = 't' ∨ c = ' ') ∧ startsTime time then offset (← timeOfDay time)
    else return rest
  | [] => return rest

/-- What follows an infinity or a value that is no number. -/
def special (cs : List Char) : Option (List Char) :=
  let (_, rest) := sign cs
  (after? ['i', 'n', 'f'] rest).or (after? ['n', 'a', 'n'] rest)

/-- What follows a number, a truth value or a time. -/
def scalar : Skipper
  | '0' :: 'x' :: cs => basedInteger 16 cs
  | '0' :: 'o' :: cs => basedInteger 8 cs
  | '0' :: 'b' :: cs => basedInteger 2 cs
  | cs =>
    if startsDate cs then dateTime cs
    else if startsTime cs then timeOfDay cs
    else
      (after? "true".toList cs).or <| (after? "false".toList cs).or <| (special cs).or (number cs)

end SchemaMigration.Toml
