import SchemaMigration.Proofs.Schema.ArgumentText.Balance

/-! # Constituents of raw arguments

The grammar reads a raw argument as a row of constituents: quoted strings, groups in brackets, which
are read in the same way inside, and single characters. The rules leave no choice, so that a text
has one reading, and it is the one that the scanner of raw arguments finds.
-/

namespace SchemaMigration.ArgumentText

open Grammar.Lexeme (afterPieces closeQuote closing? rawArgument)

/-- A constituent of a raw argument. Quotes and brackets belong to what they enclose. -/
inductive Constituent
  | character (c : Char)
  | quoted (quote : Char) (inside : List Char)
  | group (left : Char) (inside : List Char) (right : Char)
  deriving DecidableEq, Repr

namespace Constituent

def text : Constituent → List Char
  | .character c => [c]
  | .quoted quote inside => quote :: (inside ++ [quote])
  | .group left inside right => left :: (inside ++ [right])

/-- Whether a constituent is a comma. A comma in quotes or brackets is a part of one only. -/
def isComma : Constituent → Bool
  | .character c => c == ','
  | _ => false

theorem isComma_eq_true {p : Constituent} (h : p.isComma = true) : p = .character ',' := by
  cases p with
  | character c => rw [beq_iff_eq.mp h]
  | quoted | group => cases h

/-- The text of constituents in a row. -/
def rowText (parts : List Constituent) : List Char :=
  parts.flatMap text

end Constituent

open Constituent (rowText)

/-- The constituents that the grammar reads from the front of a text, and the rest before which it
stops. It takes as many as there are, and stops at the end of the text, before a closing bracket, or
before a quote or bracket that is not closed. -/
inductive Reads : List Char → List Constituent → List Char → Prop
  | nil : Reads [] [] []
  | character {c : Char} {cs rest : List Char} {parts : List Constituent} (hc : isBare c = true)
      (hcs : Reads cs parts rest) : Reads (c :: cs) (.character c :: parts) rest
  | quoted {quote : Char} {inside text cs rest : List Char} {parts : List Constituent}
      (hquote : quote = '"' ∨ quote = '\'') (hclose : closeQuote quote text = some cs)
      (hinside : text = inside ++ quote :: cs) (hcs : Reads cs parts rest) :
      Reads (quote :: text) (.quoted quote inside :: parts) rest
  | group {left right : Char} {text cs rest : List Char} {inner parts : List Constituent}
      (hclosing : closing? left = some right) (hinside : Reads text inner (right :: cs))
      (hcs : Reads cs parts rest) :
      Reads (left :: text) (.group left (rowText inner) right :: parts) rest
  | closed {c : Char} {cs : List Char} (hc : c = ')' ∨ c = ']') : Reads (c :: cs) [] (c :: cs)
  | openQuote {quote : Char} {cs : List Char} (hquote : quote = '"' ∨ quote = '\'')
      (hclose : closeQuote quote cs = none) : Reads (quote :: cs) [] (quote :: cs)
  | openGroup {left right : Char} {cs rest : List Char} {inner : List Constituent}
      (hclosing : closing? left = some right) (hinside : Reads cs inner rest)
      (hrest : rest.head? ≠ some right) : Reads (left :: cs) [] (left :: cs)

section Reading

variable {cs rest : List Char} {parts : List Constituent} {bound : Nat}

/-- The constituents and the rest make up the text. -/
theorem Reads.eq_append (h : Reads cs parts rest) : cs = rowText parts ++ rest := by
  induction h with
  | nil | closed _ | openQuote _ _ | openGroup _ _ _ _ => rfl
  | character _ _ ih =>
      rw [ih]
      rfl
  | quoted _ _ hinside _ ih => simp [rowText, Constituent.text, hinside, ih]
  | group _ _ _ ihinside ih => simp [rowText, Constituent.text, ihinside, ih]

theorem balanced_rowText (h : ∀ p ∈ parts, Balanced p.isComma p.text) :
    Balanced true (rowText parts) := by
  induction parts with
  | nil => exact .nil
  | cons p parts ih =>
      obtain ⟨hp, hparts⟩ := List.forall_mem_cons.mp h
      exact hp.allow.append (ih hparts)

/-- Every constituent is balanced, and only a comma has a comma outside of quotes and brackets. -/
theorem Reads.balanced (h : Reads cs parts rest) : ∀ p ∈ parts, Balanced p.isComma p.text := by
  induction h with
  | nil | closed _ | openQuote _ _ | openGroup _ _ _ _ => exact List.forall_mem_nil _
  | character hc _ ih =>
      refine List.forall_mem_cons.mpr ⟨.char hc ?_ .nil, ih⟩
      rintro rfl
      rfl
  | quoted hquote hclose hinside _ ih =>
      rw [hinside, closeQuote_append_iff hquote] at hclose
      exact List.forall_mem_cons.mpr ⟨.quoted hquote hclose .nil, ih⟩
  | group hclosing _ _ ihinside ih =>
      exact List.forall_mem_cons.mpr ⟨.group hclosing (balanced_rowText ihinside) .nil, ih⟩

/-- The scanner of raw arguments stops where the grammar does. -/
theorem Reads.afterPieces_eq (h : Reads cs parts rest) (hbound : cs.length ≤ bound) :
    afterPieces bound cs = rest := by
  induction h generalizing bound with
  | nil => cases bound <;> rfl
  | character hc _ ih =>
      obtain ⟨bound, rfl, hle⟩ := exists_eq_succ_of_length_le hbound
      rw [afterPieces_of_isBare hc]
      exact ih hle
  | quoted hquote hclose hinside _ ih =>
      obtain ⟨bound, rfl, hle⟩ := exists_eq_succ_of_length_le hbound
      rw [afterPieces, if_pos hquote, hclose]
      exact ih (by simp [hinside] at hle; omega)
  | group hclosing hinside _ ihinside ih =>
      obtain ⟨bound, rfl, hle⟩ := exists_eq_succ_of_length_le hbound
      have hlength := congrArg List.length hinside.eq_append
      rw [afterPieces, if_neg (not_isQuote_of_closing? hclosing), hclosing]
      simp only [ihinside hle, if_true]
      exact ih (by simp at hlength; omega)
  | closed hc => exact afterPieces_of_closes (by rintro d ⟨⟩; exact hc) bound
  | openQuote hquote hclose =>
      obtain ⟨bound, rfl, hle⟩ := exists_eq_succ_of_length_le hbound
      rw [afterPieces, if_pos hquote, hclose]
  | @openGroup _ _ _ rest _ hclosing _ hrest ihinside =>
      obtain ⟨bound, rfl, hle⟩ := exists_eq_succ_of_length_le hbound
      rw [afterPieces, if_neg (not_isQuote_of_closing? hclosing), hclosing]
      simp only [ihinside hle]
      cases rest with
      | nil => rfl
      | cons d rest => exact if_neg fun h => hrest (congrArg some h)

theorem exists_reads (h : cs.length ≤ bound) :
    ∃ parts, Reads cs parts (afterPieces bound cs) := by
  fun_induction afterPieces bound cs with
  | case1 bound c cs hquote rest hclose ih =>
      obtain ⟨inside, hinside, _⟩ := closeQuote_eq_some hclose
      obtain ⟨parts, hparts⟩ := ih (by simp [hinside] at h; omega)
      exact ⟨_, .quoted hquote hclose hinside hparts⟩
  | case2 bound c cs hquote hclose => exact ⟨[], .openQuote hquote hclose⟩
  | case3 bound c cs hquote close rest hafter hclosing ihinside ih =>
      obtain ⟨inner, hinner⟩ := ihinside (by simpa using h)
      rw [hafter] at hinner
      have hlength := congrArg List.length hinner.eq_append
      obtain ⟨parts, hparts⟩ := ih (by simp at h hlength; omega)
      exact ⟨_, .group hclosing hinner hparts⟩
  | case4 bound c cs hquote close hclosing d rest hafter hother ihinside =>
      obtain ⟨inner, hinner⟩ := ihinside (by simpa using h)
      rw [hafter] at hinner
      exact ⟨[], .openGroup hclosing hinner fun heq => hother (Option.some.inj heq)⟩
  | case5 bound c cs hquote close hclosing hafter ihinside =>
      obtain ⟨inner, hinner⟩ := ihinside (by simpa using h)
      rw [hafter] at hinner
      exact ⟨[], .openGroup hclosing hinner (by simp)⟩
  | case6 bound c cs hquote hclosing hc => exact ⟨[], .closed hc⟩
  | case7 bound c cs hquote hclosing hother ih =>
      obtain ⟨parts, hparts⟩ := ih (by simpa using h)
      exact ⟨_, .character (isBare_iff.mpr ⟨hquote, hclosing, hother⟩) hparts⟩
  | case8 bound cs hend =>
      cases cs with
      | nil => exact ⟨[], .nil⟩
      | cons c cs =>
          cases bound with
          | zero => simp at h
          | succ bound => exact (hend bound c cs rfl rfl).elim

/-- The grammar reads a text in one way only. -/
theorem Reads.unique {parts' : List Constituent} {rest' : List Char} (h : Reads cs parts rest)
    (h' : Reads cs parts' rest') : parts = parts' ∧ rest = rest' := by
  -- The first character decides which rules may apply; the rules for one character exclude each
  -- other by what follows it.
  induction h generalizing parts' rest' with
  | nil =>
      cases h'
      exact ⟨rfl, rfl⟩
  | character hc _ ih =>
      cases h' with
      | character _ hcs =>
          obtain ⟨rfl, rfl⟩ := ih hcs
          exact ⟨rfl, rfl⟩
      | _ => grind [isBare_iff]
  | quoted hquote hclose hinside _ ih =>
      cases h' with
      | quoted _ hclose' hinside' hcs =>
          cases hclose.symm.trans hclose'
          obtain ⟨rfl, rfl⟩ := ih hcs
          obtain rfl := List.append_cancel_right (hinside.symm.trans hinside')
          exact ⟨rfl, rfl⟩
      | _ => grind [isBare_iff, closing?_eq_some_iff]
  | group hclosing _ _ ihinside ih =>
      cases h' with
      | group hclosing' hinside' hcs =>
          obtain ⟨rfl, hrest⟩ := ihinside hinside'
          obtain ⟨rfl, rfl⟩ := List.cons.inj hrest
          obtain ⟨rfl, rfl⟩ := ih hcs
          exact ⟨rfl, rfl⟩
      | openGroup hclosing' hinside' hrest' =>
          obtain ⟨-, rfl⟩ := ihinside hinside'
          exact absurd (hclosing.symm.trans hclosing') hrest'
      | _ => grind [isBare_iff, closing?_eq_some_iff]
  | closed hc => cases h' <;> grind [isBare_iff, closing?_eq_some_iff]
  | openQuote hquote hclose => cases h' <;> grind [isBare_iff, closing?_eq_some_iff]
  | openGroup hclosing hinside hrest ihinside =>
      cases h' with
      | group hclosing' hinside' _ =>
          obtain ⟨-, rfl⟩ := ihinside hinside'
          exact absurd (hclosing'.symm.trans hclosing) hrest
      | _ => grind [isBare_iff, closing?_eq_some_iff]

/-- The scanner of raw arguments reads exactly what the grammar does. -/
theorem rawArgument_eq_some_iff {text : List Char} :
    rawArgument cs = some (text, rest) ↔ ∃ parts, Reads cs parts rest ∧ rowText parts = text := by
  have hread : ∀ {parts rest}, Reads cs parts rest →
      rawArgument cs = some (rowText parts, rest) := by
    intro parts rest h
    have htake : cs.take (cs.length - rest.length) = rowText parts := by
      rw [h.eq_append, List.length_append, Nat.add_sub_cancel, List.take_left]
    rw [rawArgument, h.afterPieces_eq (Nat.le_refl _), htake]
  constructor
  · intro h
    obtain ⟨parts, hparts⟩ := exists_reads (Nat.le_refl cs.length)
    rw [hread hparts] at h
    cases h
    exact ⟨parts, hparts, rfl⟩
  · rintro ⟨parts, hparts, rfl⟩
    exact hread hparts

/-- What is read as a raw argument is balanced. -/
theorem rawArgument_eq_some {text : List Char} (h : rawArgument cs = some (text, rest)) :
    Balanced true text ∧ cs = text ++ rest := by
  obtain ⟨parts, hparts, rfl⟩ := rawArgument_eq_some_iff.mp h
  exact ⟨balanced_rowText hparts.balanced, hparts.eq_append⟩

end Reading

end SchemaMigration.ArgumentText
