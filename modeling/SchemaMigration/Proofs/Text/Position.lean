import Mathlib.Data.List.DropRight
import SchemaMigration.Text.Position

/-! # Lengths in bytes

The length of a text in bytes is the sum of the lengths of its parts, and only the empty text has
none. So the length of what stands before a place tells the place, and its line and its column.
-/

namespace SchemaMigration.Text

theorem byteLength_append (cs ds : List Char) :
    byteLength (cs ++ ds) = byteLength cs + byteLength ds := by
  induction cs with
  | nil => simp [byteLength]
  | cons c cs ih => rw [List.cons_append, byteLength, byteLength, ih, Nat.add_assoc]

theorem byteLength_pos {cs : List Char} (h : cs ≠ []) : 0 < byteLength cs := by
  cases cs with
  | nil => exact absurd rfl h
  | cons c cs => exact Nat.lt_of_lt_of_le c.utf8Size_pos (Nat.le_add_right _ _)

/-- What stands before a place in a text is known by its length. -/
theorem eq_of_byteLength_eq {before before' after after' : List Char}
    (h : before ++ after = before' ++ after') (hlength : byteLength before = byteLength before') :
    before = before' := by
  induction before generalizing before' with
  | nil =>
      cases before' with
      | nil => rfl
      | cons c cs => exact absurd hlength (Nat.ne_of_lt (byteLength_pos (List.cons_ne_nil c cs)))
  | cons c cs ih =>
      cases before' with
      | nil => exact absurd hlength.symm (Nat.ne_of_lt (byteLength_pos (List.cons_ne_nil c cs)))
      | cons d ds =>
          obtain ⟨rfl, hrest⟩ := List.cons.inj h
          rw [ih hrest (Nat.add_left_cancel hlength)]

/-! ## Lines and columns -/

theorem takeBytes_byteLength (before after : List Char) :
    takeBytes (byteLength before) (before ++ after) = before := by
  induction before with
  | nil =>
      cases after with
      | nil => rfl
      | cons c cs => exact if_neg (Nat.not_le_of_gt c.utf8Size_pos)
  | cons c cs ih =>
      rw [byteLength, List.cons_append, takeBytes, if_pos (Nat.le_add_right _ _),
        Nat.add_sub_cancel_left, ih]

/-- The line of a place counts the line feeds before it, and its column the characters since the last
one. -/
theorem Position.after_eq (cs : List Char) :
    after cs = ⟨1 + cs.count '\n', 1 + (cs.rtakeWhile (· ≠ '\n')).length⟩ := by
  induction cs using List.reverseRecOn with
  | nil => rfl
  | append_singleton cs c ih =>
      rw [after, List.foldl_concat, ← after, ih, next, List.count_append, List.rtakeWhile_concat]
      by_cases hc : c = '\n'
      · simp [hc, Nat.add_assoc]
      · simp [hc, Nat.add_assoc]

theorem Position.atOffset_byteLength (before after : List Char) :
    atOffset (before ++ after) (byteLength before) =
      ⟨1 + before.count '\n', 1 + (before.rtakeWhile (· ≠ '\n')).length⟩ := by
  rw [atOffset, takeBytes_byteLength, after_eq]

end SchemaMigration.Text
