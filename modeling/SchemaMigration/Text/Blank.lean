/-! # Blank and control characters

Two character classes of Unicode, and trimming by the first of them. Blank characters are those with
the property `White_Space`; control characters are those of the general category `Cc`. Both classes
are closed: no later version of the standard adds to them.
-/

namespace SchemaMigration.Text

/-- White space in the sense of the Unicode property `White_Space`. -/
def isBlank (c : Char) : Bool :=
  let n := c.toNat
  (0x9 ≤ n && n ≤ 0xD) || n == 0x20 || n == 0x85 || n == 0xA0 || n == 0x1680 ||
    (0x2000 ≤ n && n ≤ 0x200A) || n == 0x2028 || n == 0x2029 || n == 0x202F || n == 0x205F ||
    n == 0x3000

/-- A control character: the general category `Cc`. -/
def isControl (c : Char) : Bool :=
  let n := c.toNat
  n < 0x20 || (0x7F ≤ n && n ≤ 0x9F)

/-- A list without the longest run at its end whose members satisfy `p`. -/
def dropTrailing (p : Char → Bool) (cs : List Char) : List Char :=
  (cs.reverse.dropWhile p).reverse

/-- A list without the runs at both its ends whose members satisfy `p`. -/
def stripBy (p : Char → Bool) (cs : List Char) : List Char :=
  dropTrailing p (cs.dropWhile p)

/-- A list without the blanks at both its ends. -/
def strip (cs : List Char) : List Char :=
  stripBy isBlank cs

end SchemaMigration.Text
