/-! # Character classes as ranges

A class of characters is given by a list of ranges, each named by its first and its last code point.
-/

namespace SchemaMigration.Text

/-- Whether a character lies in one of the ranges. -/
def within (ranges : List (Nat × Nat)) (c : Char) : Bool :=
  ranges.any fun r => r.1 ≤ c.toNat && c.toNat ≤ r.2

end SchemaMigration.Text
