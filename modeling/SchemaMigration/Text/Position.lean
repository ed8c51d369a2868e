/-! # Lines and columns

A place in a text is named in two ways: by its byte offset, and by a line and a column. The line is
one more than the number of line feeds before the place, and the column is one more than the number
of characters since the last of them. A carriage return is a character like any other, so a line
that ends in a carriage return and a line feed counts as one line.
-/

namespace SchemaMigration.Text

/-- The number of bytes a list of characters takes in UTF-8. -/
def byteLength : List Char → Nat
  | [] => 0
  | c :: cs => c.utf8Size + byteLength cs

/-- The longest initial part of a text that takes at most `bytes` bytes. -/
def takeBytes : Nat → List Char → List Char
  | _, [] => []
  | bytes, c :: cs => if c.utf8Size ≤ bytes then c :: takeBytes (bytes - c.utf8Size) cs else []

/-- A line and a column, both counted from one. -/
structure Position where
  line : Nat
  column : Nat
  deriving DecidableEq, Repr

namespace Position

def start : Position := ⟨1, 1⟩

def next (p : Position) (c : Char) : Position :=
  if c = '\n' then ⟨p.line + 1, 1⟩ else ⟨p.line, p.column + 1⟩

def after (cs : List Char) : Position :=
  cs.foldl next start

/-- The place at a byte offset of a text. -/
def atOffset (text : List Char) (offset : Nat) : Position :=
  after (takeBytes offset text)

end Position

end SchemaMigration.Text
