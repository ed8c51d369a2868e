import SchemaMigration.Text.Extender
import SchemaMigration.Text.Printable

/-! # Quoted form for messages

A text inside a message stands in double quotes so that its ends are visible. Quotes, backslashes
and the common control characters are escaped by name; every other unprintable character, and every
mark that would be drawn on the character before it, by its number.
-/

namespace SchemaMigration.Text

/-- The hexadecimal digits of a number, in lower case. -/
def hexadecimal (n : Nat) : List Char :=
  Nat.toDigits 16 n

/-- The two half-width sound marks of Katakana. They extend the character before them, but have a
shape of their own. -/
def isSoundMark (c : Char) : Bool :=
  c.toNat == 0xFF9E || c.toNat == 0xFF9F

/-- A mark that is drawn on the character before it. -/
def isDrawnOver (c : Char) : Bool :=
  isExtender c && !isSoundMark c

def quotedChar (c : Char) : List Char :=
  if c = '\t' then ['\\', 't']
  else if c = '\r' then ['\\', 'r']
  else if c = '\n' then ['\\', 'n']
  else if c.toNat = 0 then ['\\', '0']
  else if c = '"' ∨ c = '\\' then ['\\', c]
  else if isDrawnOver c || !isPrintable c then
    ['\\', 'u', Char.ofNat 0x7B] ++ hexadecimal c.toNat ++ [Char.ofNat 0x7D]
  else [c]

def quoted (s : String) : String :=
  "\"" ++ String.ofList (s.toList.flatMap quotedChar) ++ "\""

end SchemaMigration.Text
