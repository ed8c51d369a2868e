/-! # JSON strings

A text as a string of JSON: in double quotes, with quotes, backslashes and the control characters
below the space escaped, five of them by a letter and the others by their number.
-/

namespace SchemaMigration.Text

def fourHexadecimal (n : Nat) : List Char :=
  let digits := Nat.toDigits 16 n
  List.replicate (4 - digits.length) '0' ++ digits

def jsonChar (c : Char) : List Char :=
  if c = '"' ∨ c = '\\' then ['\\', c]
  else if c.toNat = 0x8 then ['\\', 'b']
  else if c.toNat = 0x9 then ['\\', 't']
  else if c.toNat = 0xA then ['\\', 'n']
  else if c.toNat = 0xC then ['\\', 'f']
  else if c.toNat = 0xD then ['\\', 'r']
  else if c.toNat < 0x20 then '\\' :: 'u' :: fourHexadecimal c.toNat
  else [c]

def jsonString (s : String) : String :=
  "\"" ++ String.ofList (s.toList.flatMap jsonChar) ++ "\""

end SchemaMigration.Text
