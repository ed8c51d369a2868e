/-! # Scanning ASCII words

The words of the schema language are ASCII: letters, digits and the underscore. The scanners here
cut a list of characters in two, what was recognised and what is left, and fail where nothing is
recognised.
-/

namespace SchemaMigration.Text

/-- An ASCII letter. -/
def isLetter (c : Char) : Bool :=
  ('a' ≤ c && c ≤ 'z') || ('A' ≤ c && c ≤ 'Z')

/-- A decimal digit of ASCII. -/
def isDigit (c : Char) : Bool :=
  '0' ≤ c && c ≤ '9'

/-- A character that may start a word. -/
def isWordStart (c : Char) : Bool :=
  isLetter c || c == '_'

/-- A character that may continue a word. -/
def isWordChar (c : Char) : Bool :=
  isLetter c || isDigit c || c == '_'

/-- White space of ASCII: the space and the five format characters from tab to carriage return. -/
def isSpace (c : Char) : Bool :=
  let n := c.toNat
  (0x9 ≤ n && n ≤ 0xD) || n == 0x20

/-- The lower case form of an ASCII letter; every other character is left as it is. -/
def lowerAscii (c : Char) : Char :=
  if 'A' ≤ c && c ≤ 'Z' then Char.ofNat (c.toNat + 32) else c

/-- A scanner gives what it recognised at the front of a text, and the rest. -/
abbrev Scanner := List Char → Option (List Char × List Char)

/-- The longest run of characters in a class, when it is not empty. -/
def run (p : Char → Bool) : Scanner
  | [] => none
  | c :: cs => if p c then some (c :: cs.takeWhile p, cs.dropWhile p) else none

/-- A word: a letter or underscore, then letters, digits and underscores. -/
def word : Scanner
  | [] => none
  | c :: cs =>
    if isWordStart c then some (c :: cs.takeWhile isWordChar, cs.dropWhile isWordChar) else none

/-- Whether a whole text is one word. -/
def isWord (cs : List Char) : Bool :=
  match word cs with
  | some (_, []) => true
  | _ => false

/-- What is left of a text after an expected beginning. -/
def after? : List Char → List Char → Option (List Char)
  | [], cs => some cs
  | _ :: _, [] => none
  | e :: es, c :: cs => if e = c then after? es cs else none

/-- What is left of a text after an expected beginning, with ASCII letters of either case. The
beginning is given in lower case. -/
def afterAnyCase? : List Char → List Char → Option (List Char)
  | [], cs => some cs
  | _ :: _, [] => none
  | e :: es, c :: cs => if e = lowerAscii c then afterAnyCase? es cs else none

end SchemaMigration.Text
