import SchemaMigration.Number.Integer
import SchemaMigration.Text.Scan

/-! # Binary floating point

Numbers of the 64-bit binary format, infinities included: a sign and a magnitude of 53 significant
bits. Reading a decimal rounds it to the nearest such number, ties to the even mantissa. Writing
gives the fewest decimal digits that read back as the same number, and of those the nearest, the
upper one of two as near; the decimal point is always written out, never an exponent.

All arithmetic is exact, on quotients of natural numbers.
-/

namespace SchemaMigration.Number

open Text (isDigit)

/-- A number of the 64-bit binary format. A finite number has the magnitude `mantissa * 2 ^
exponent`; the mantissa has 53 bits unless the exponent is the least one, -1074. -/
inductive Binary64
  | finite (negative : Bool) (mantissa : Nat) (exponent : Int)
  | infinite (negative : Bool)
  deriving DecidableEq, Repr

namespace Binary64

/-- Numerical equality: the two zeros are equal, and otherwise equal numbers are the same. -/
def same : Binary64 → Binary64 → Bool
  | .finite _ 0 _, .finite _ 0 _ => true
  | x, y => x == y

/-- The quotient of two numbers, rounded to the nearest integer, a half to the even one. -/
def roundQuotient (num den : Nat) : Nat :=
  let q := num / den
  let r := num % den
  if 2 * r > den ∨ (2 * r = den ∧ q % 2 = 1) then q + 1 else q

/-- The quotient `num / den` as a quotient whose value is `2 ^ exponent` times less. -/
def scaledDown (num den : Nat) (exponent : Int) : Nat × Nat :=
  if 0 ≤ exponent then (num, den * powerOfTwo exponent.toNat)
  else (num * powerOfTwo (-exponent).toNat, den)

/-- The integer `e` with `2 ^ e ≤ num / den < 2 ^ (e + 1)`. -/
def binaryOrder (num den : Nat) : Int :=
  let guess : Int := (num.log2 : Int) - den.log2
  let (n, d) := scaledDown num den guess
  if d ≤ n then guess else guess - 1

/-- The number nearest to a quotient. Quotients beyond the largest finite number give an
infinity. -/
def ofQuotient (negative : Bool) (num den : Nat) : Binary64 :=
  if num = 0 then .finite negative 0 (-1074)
  else
    let exponent := max (binaryOrder num den - 52) (-1074)
    let (n, d) := scaledDown num den exponent
    let mantissa := roundQuotient n d
    let (mantissa, exponent) :=
      if mantissa = powerOfTwo 53 then (powerOfTwo 52, exponent + 1) else (mantissa, exponent)
    if 971 < exponent then .infinite negative else .finite negative mantissa exponent

/-- The number nearest to a decimal with the given digits before and after the point. -/
def ofDecimal (negative : Bool) (whole fraction : List Char) : Binary64 :=
  ofQuotient negative (ofDigits (whole ++ fraction)) (powerOfTen fraction.length)

/-- The number nearest to a decimal with the given digits, times a power of ten. Powers so far out
that the digits cannot matter are not computed. -/
def ofScientific (negative : Bool) (whole fraction : List Char) (exponent : Int) : Binary64 :=
  let num := ofDigits (whole ++ fraction)
  let reach : Int := 400 + whole.length + fraction.length
  let place := max (-reach) (min reach exponent) - fraction.length
  ofQuotient negative (num * powerOfTen place.toNat) (powerOfTen (-place).toNat)

/-- The ends of the interval that rounds to a finite number, in quarters of a unit of the mantissa.
Below a power of two the numbers lie twice as close. -/
def interval (mantissa : Nat) (exponent : Int) : Nat × Nat :=
  let below := if mantissa = powerOfTwo 52 ∧ -1074 < exponent then 1 else 2
  (4 * mantissa - below, 4 * mantissa + 2)

/-- Whether a decimal `digits * 10 ^ place` lies in the interval that rounds to a finite number. The
ends belong to it when the mantissa is even. -/
def roundsTo (mantissa : Nat) (exponent : Int) (digits : Nat) (place : Int) : Bool :=
  let (low, high) := interval mantissa exponent
  let decimal := digits * powerOfTen place.toNat * powerOfTwo (2 - exponent).toNat
  let scale := powerOfTen (-place).toNat * powerOfTwo (exponent - 2).toNat
  if mantissa % 2 = 0 then low * scale ≤ decimal ∧ decimal ≤ high * scale
  else low * scale < decimal ∧ decimal < high * scale

/-- The magnitude of a finite number as a quotient. -/
def magnitude (mantissa : Nat) (exponent : Int) : Nat × Nat :=
  (mantissa * powerOfTwo exponent.toNat, powerOfTwo (-exponent).toNat)

/-- The integer `p` with `10 ^ p ≤ num / den < 10 ^ (p + 1)`. -/
def decimalOrder (num den : Nat) : Int :=
  let guess : Int := ((Nat.toDigits 10 num).length : Int) - (Nat.toDigits 10 den).length
  if den * powerOfTen guess.toNat ≤ num * powerOfTen (-guess).toNat then guess else guess - 1

/-- The decimal on a grid of powers of ten nearest to a finite number, the upper of two as near, if
it reads back. Failing that, the other neighbour on the grid is tried. -/
def onGrid? (mantissa : Nat) (exponent : Int) (place : Int) : Option Nat :=
  let (num, den) := magnitude mantissa exponent
  let n := num * powerOfTen (-place).toNat
  let d := den * powerOfTen place.toNat
  let down := n / d
  let nearest := if d ≤ 2 * (n % d) then down + 1 else down
  let other := if nearest = down then down + 1 else down
  if roundsTo mantissa exponent nearest place then some nearest
  else if roundsTo mantissa exponent other place then some other
  else none

/-- The first grid, from the given one to finer ones, with a decimal that reads back. -/
def shortestFrom (mantissa : Nat) (exponent : Int) : Nat → Int → Nat × Int
  | 0, place => (0, place)
  | tries + 1, place =>
    match onGrid? mantissa exponent place with
    | some digits => (digits, place)
    | none => shortestFrom mantissa exponent tries (place - 1)

/-- The fewest digits that read back as a finite number other than zero, and the power of ten of
the last of them. Seventeen digits always suffice. -/
def shortest (mantissa : Nat) (exponent : Int) : Nat × Int :=
  let (num, den) := magnitude mantissa exponent
  shortestFrom mantissa exponent 20 (decimalOrder num den + 1)

/-- A decimal `digits * 10 ^ place` written out, with a point only where digits follow it. -/
def plainText (digits : Nat) (place : Int) : String :=
  if 0 ≤ place then natText (digits * powerOfTen place.toNat)
  else
    let places := (-place).toNat
    natText (digits / powerOfTen places) ++ "." ++ paddedText places (digits % powerOfTen places)

def text : Binary64 → String
  | .infinite negative => if negative then "-inf" else "inf"
  | .finite negative mantissa exponent =>
    let magnitude :=
      if mantissa = 0 then "0"
      else
        let (digits, place) := shortest mantissa exponent
        plainText digits place
    if negative then "-" ++ magnitude else magnitude

/-- The power of ten that is written behind a decimal: the letter `e` with a sign and digits, or
nothing. -/
def exponent? : List Char → Option Int
  | [] => some 0
  | c :: cs =>
    let (negative, digits) := sign cs
    if (c = 'e' ∨ c = 'E') ∧ digits ≠ [] ∧ digits.all isDigit then
      some (if negative then -(ofDigits digits : Int) else ofDigits digits)
    else none

/-- The number that a text denotes: `inf` or a decimal, with or without a sign, a point and a power
of ten. -/
def ofText? (s : String) : Option Binary64 :=
  let (negative, cs) := sign s.toList
  if cs = ['i', 'n', 'f'] then some (.infinite negative)
  else
    let whole := cs.takeWhile isDigit
    let (fraction, rest) :=
      match cs.dropWhile isDigit with
      | '.' :: rest => (rest.takeWhile isDigit, rest.dropWhile isDigit)
      | rest => ([], rest)
    if whole ++ fraction = [] then none
    else (exponent? rest).map (ofScientific negative whole fraction)

end Binary64

end SchemaMigration.Number
