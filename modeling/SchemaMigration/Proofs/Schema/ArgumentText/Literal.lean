import SchemaMigration.Proofs.Number.Decimal
import SchemaMigration.Proofs.Schema.ArgumentText.Trimming
import SchemaMigration.Schema.ArgumentText.Interpretation

/-! # Written literals

The text of a literal is balanced and trimmed, and is read back as the literal: a string by its
quotes, an integer by its digits, and a truth value or a name as a word that is no number.
-/

namespace SchemaMigration

open ArgumentText
open Grammar (escape isBlank_of_isWordChar isDigits_iff isIdentifier_boolean isQuotable_escape
  isWordChar_of_isDigit isWordChar_of_mem isWordStart_of_isDigit isWord_iff quoted unescape_escape word_append
  word_eq_none)
open Number (int64Text isDigit_of_mem_toDigits natText ofDigits ofDigits_toDigits readInt64)
open Text (isDigit isWord isWordChar word)

/-! ## Identifiers and strings -/

theorem isBare_of_isWordChar {c : Char} (h : isWordChar c = true) :
    isBare c = true ∧ c ≠ ',' := by
  simp only [isBare, List.mem_cons, List.not_mem_nil, or_false, not_or, decide_eq_true_eq]
  refine ⟨⟨?_, ?_, ?_, ?_, ?_, ?_⟩, ?_⟩ <;> (rintro rfl; revert h; decide)

namespace IsIdentifier

variable {s : String}

theorem ne_nil (h : IsIdentifier s) : s.toList ≠ [] := by
  obtain ⟨c, w, heq, _⟩ := isWord_iff.mp h
  simp [heq]

theorem trimmed (h : IsIdentifier s) : Trimmed s.toList :=
  .of_forall h.ne_nil fun _ hc => isBlank_of_isWordChar (isWordChar_of_mem h hc)

theorem balanced (h : IsIdentifier s) (commas : Bool) : Balanced commas s.toList := by
  have hword : ∀ c ∈ s.toList, isWordChar c = true := fun c => isWordChar_of_mem h
  generalize s.toList = cs at hword
  induction cs with
  | nil => exact .nil
  | cons c cs ih =>
      obtain ⟨hbare, hcomma⟩ := isBare_of_isWordChar (hword c List.mem_cons_self)
      exact .char hbare (fun hc => absurd hc hcomma)
        (ih fun c hc => hword c (List.mem_cons_of_mem _ hc))

theorem not_mem (h : IsIdentifier s) {c : Char} (hc : isWordChar c = false) : c ∉ s.toList := by
  intro hmem
  rw [isWordChar_of_mem h hmem] at hc
  cases hc

end IsIdentifier

theorem trimmed_of_quotes (inner : List Char) : Trimmed ('"' :: (inner ++ ['"'])) where
  head := ⟨'"', rfl, by decide⟩
  last := ⟨'"', by rw [← List.cons_append, List.getLast?_concat]; rfl, by decide⟩

theorem trimmed_quoted (s : String) : Trimmed (quoted s) :=
  trimmed_of_quotes _

theorem balanced_quoted (s : String) (commas : Bool) : Balanced commas (quoted s) :=
  .quoted (.inl rfl) (isQuotable_escape s.toList) .nil

/-! ## Integers -/

theorem toInt64?_toInt (i : Int64) : Number.toInt64? i.toInt = some i := by
  rw [Number.toInt64?, if_pos ⟨Int64.minValue_le_toInt i, Int64.toInt_le i⟩, Int64.ofInt_toInt]

/-- An integer is written as a sign and digits that are read back as it. -/
theorem int64Text_toList (i : Int64) : ∃ negative digits,
    (int64Text i).toList = (if negative then ['-'] else []) ++ digits ∧ isDigits digits = true ∧
      readInt64 negative digits = some i := by
  have hdigits (n : Nat) : isDigits (Nat.toDigits 10 n) = true :=
    isDigits_iff.mpr ⟨Nat.toDigits_ne_nil, fun c => isDigit_of_mem_toDigits⟩
  have hread := toInt64?_toInt i
  unfold int64Text
  cases hi : i.toInt with
  | ofNat n =>
      refine ⟨false, Nat.toDigits 10 n, by simp [Number.intText, natText], hdigits n, ?_⟩
      rw [← hread, readInt64, ofDigits_toDigits, hi]
      rfl
  | negSucc n =>
      refine ⟨true, Nat.toDigits 10 (n + 1), by simp [Number.intText, natText], hdigits _, ?_⟩
      rw [← hread, readInt64, ofDigits_toDigits, hi]
      rfl

theorem mem_int64Text {i : Int64} {c : Char} (h : c ∈ (int64Text i).toList) :
    c = '-' ∨ isDigit c = true := by
  obtain ⟨negative, digits, heq, hdigits, _⟩ := int64Text_toList i
  rw [heq, List.mem_append] at h
  rcases h with h | h
  · left
    cases negative with
    | false => cases h
    | true => simpa using h
  · exact .inr ((isDigits_iff.mp hdigits).2 c h)

/-! ## Literals -/

section Unquoted

variable {cs : List Char}

theorem unquote?_eq_none (h : ∀ c ∈ cs.head?, c ≠ '"' ∧ c ≠ '\'') : unquote? cs = none := by
  cases cs with
  | nil => rfl
  | cons c cs =>
      obtain ⟨hdouble, hsingle⟩ := h c rfl
      rw [unquote?, inside?, if_neg fun hquoted => hquoted.1.elim hdouble hsingle, Option.map_none]

/-- What is not quoted is a truth value, a number or a word. -/
theorem literal?_unquoted (h : Trimmed cs) (hquote : ∀ c ∈ cs.head?, c ≠ '"' ∧ c ≠ '\'')
    (htrue : cs ≠ "true".toList) (hfalse : cs ≠ "false".toList) :
    literal? cs =
      (number? cs).getD (if isWord cs then some (.ident (String.ofList cs)) else none) := by
  rw [literal?, h.strip_eq]
  simp only [unquote?_eq_none hquote, if_neg htrue, if_neg hfalse]
  cases number? cs <;> rfl

theorem number?_integer {negative : Bool} {digits : List Char} (h : isDigits digits = true) :
    number? ((if negative then ['-'] else []) ++ digits) =
      some ((readInt64 negative digits).map Literal.int) := by
  obtain ⟨hne, hall⟩ := isDigits_iff.mp h
  have hsign : splitSign ((if negative then ['-'] else []) ++ digits) = (negative, digits) := by
    cases negative with
    | true => rfl
    | false =>
        obtain ⟨d, ds, rfl⟩ := List.exists_cons_of_ne_nil hne
        have hd : d ≠ '-' := by
          rintro rfl
          exact absurd (hall '-' List.mem_cons_self) (by decide)
        rw [if_neg Bool.false_ne_true, List.nil_append, splitSign]
        rintro cs ⟨⟩
        exact hd rfl
  have htake : digits.takeWhile isDigit = digits := List.takeWhile_eq_self_iff.mpr hall
  have hdrop : digits.dropWhile isDigit = [] := List.dropWhile_eq_nil_iff.mpr hall
  simp only [number?, hsign, htake, hdrop, h, if_true]

/-- A word is no number. -/
theorem number?_eq_none (h : isWord cs = true) : number? cs = none := by
  obtain ⟨c, w, rfl, hc, _⟩ := isWord_iff.mp h
  have hminus : c ≠ '-' := by
    rintro rfl
    revert hc
    decide
  have hpoint : c ≠ '.' := by
    rintro rfl
    revert hc
    decide
  have hdigit : isDigit c = false := by
    refine Bool.eq_false_iff.mpr fun hdigit => ?_
    rw [isWordStart_of_isDigit hdigit] at hc
    cases hc
  have hsign : splitSign (c :: w) = (false, c :: w) := by
    rw [splitSign]
    rintro cs ⟨⟩
    exact hminus rfl
  simp only [number?, hsign, List.dropWhile_cons, hdigit, Bool.false_eq_true, if_false]
  split
  next heq => cases heq
  next heq =>
    cases heq
    exact absurd rfl hpoint
  next => rfl

end Unquoted

namespace Literal

variable {v : Literal}

theorem trimmed_chars (h : v.IsWritable) : Trimmed v.chars := by
  cases v with
  | string value => exact trimmed_quoted value
  | int value =>
      refine .of_forall ?_ fun c hc => ?_
      · obtain ⟨negative, digits, heq, hdigits, _⟩ := int64Text_toList value
        simp [chars, heq, (isDigits_iff.mp hdigits).1]
      · rcases mem_int64Text hc with rfl | hdigit
        · decide
        · exact isBlank_of_isWordChar (isWordChar_of_isDigit hdigit)
  | float value => exact absurd h not_false
  | boolean value => exact (isIdentifier_boolean value).trimmed
  | ident name => exact h.1.trimmed

theorem balanced_chars (h : v.IsWritable) : Balanced true v.chars := by
  cases v with
  | string value => exact balanced_quoted value true
  | int value =>
      refine .of_bare fun c hc => ?_
      rcases mem_int64Text hc with rfl | hdigit
      · decide
      · exact (isBare_of_isWordChar (isWordChar_of_isDigit hdigit)).1
  | float value => exact absurd h not_false
  | boolean value => exact (isIdentifier_boolean value).balanced true
  | ident name => exact h.1.balanced true

/-- What stands in double quotes without an open quote is a string, whatever is escaped in it. -/
theorem literal?_of_isQuotable {inner : List Char} {value : String}
    (h : isQuotable '"' inner = true) (hvalue : Grammar.unescape inner = value.toList) :
    literal? ('"' :: (inner ++ ['"'])) = some (.string value) := by
  have hinside : inside? ('"' :: (inner ++ ['"'])) = some inner :=
    inside?_eq_some_iff.mpr ⟨'"', .inl rfl, h, rfl⟩
  have hunquote : unquote? ('"' :: (inner ++ ['"'])) = some value := by
    rw [unquote?, hinside, Option.map_some, hvalue, String.ofList_toList]
  rw [literal?, (trimmed_of_quotes inner).strip_eq]
  simp only [hunquote]

theorem literal?_string (value : String) : literal? (quoted value) = some (.string value) :=
  literal?_of_isQuotable (isQuotable_escape _) (unescape_escape _)

theorem literal?_int (value : Int64) : literal? (int64Text value).toList = some (.int value) := by
  have htrimmed : Trimmed (int64Text value).toList := trimmed_chars (v := .int value) trivial
  have hmem : ∀ c ∈ (int64Text value).toList.head?, c = '-' ∨ isDigit c = true :=
    fun c hc => mem_int64Text (List.mem_of_mem_head? hc)
  have hquote : ∀ c ∈ (int64Text value).toList.head?, c ≠ '"' ∧ c ≠ '\'' := by
    intro c hc
    constructor <;> (rintro rfl; exact absurd (hmem _ hc) (by decide))
  have htrue : (int64Text value).toList ≠ "true".toList := by
    intro htext
    exact absurd (hmem 't' (by rw [htext]; rfl)) (by decide)
  have hfalse : (int64Text value).toList ≠ "false".toList := by
    intro htext
    exact absurd (hmem 'f' (by rw [htext]; rfl)) (by decide)
  obtain ⟨negative, digits, heq, hdigits, hread⟩ := int64Text_toList value
  rw [literal?_unquoted htrimmed hquote htrue hfalse, heq, number?_integer hdigits, hread]
  rfl

theorem literal?_ident {name : String} (h : IsPlainName name) :
    literal? name.toList = some (.ident name) := by
  obtain ⟨hname, htrue, hfalse⟩ := h
  have hquote : ∀ c ∈ name.toList.head?, c ≠ '"' ∧ c ≠ '\'' := by
    intro c hc
    have hword := isWordChar_of_mem hname (List.mem_of_mem_head? hc)
    constructor <;> (rintro rfl; exact absurd hword (by decide))
  rw [literal?_unquoted hname.trimmed hquote (mt String.toList_inj.mp htrue)
    (mt String.toList_inj.mp hfalse), number?_eq_none hname, Option.getD_none,
    if_pos (show isWord name.toList = true from hname), String.ofList_toList]

theorem literal?_chars (h : v.IsWritable) : literal? v.chars = some v := by
  cases v with
  | string value => exact literal?_string value
  | int value => exact literal?_int value
  | float value => exact absurd h not_false
  | boolean value => cases value <;> rfl
  | ident name => exact literal?_ident h

/-- No literal looks like a call. -/
theorem call?_chars (h : v.IsWritable) : call? v.chars = none := by
  cases v with
  | string value => rw [call?, chars, word_eq_none (by rfl), Option.bind_none]
  | int value =>
      have hword : word (int64Text value).toList = none := word_eq_none (by
        cases hhead : (int64Text value).toList.head? with
        | none => rfl
        | some c =>
            rcases mem_int64Text (List.mem_of_mem_head? hhead) with rfl | hdigit
            · decide
            · simp [isWordStart_of_isDigit hdigit])
      rw [call?, chars, hword, Option.bind_none]
  | float value => exact absurd h not_false
  | boolean value => cases value <;> rfl
  | ident name =>
      have hword : word (name.toList ++ []) = some (name.toList, []) := word_append h.1 rfl
      rw [List.append_nil] at hword
      rw [call?, chars, hword]
      rfl

end Literal

end SchemaMigration
