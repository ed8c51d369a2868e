import SchemaMigration.Proofs.Sql.Statements
import SchemaMigration.Sql.Definition

/-! # Emitted SQL is closed

Names and strings are closed by their quotes, whatever they hold, and numbers by their digits. What
is put together from them is closed as well; only expressions that are taken over as they are must
be self-contained.
-/

namespace SchemaMigration.Sql

open Number (Binary64 int64Text intText natText paddedText)
open ScriptState (after after_append)
open Text (isBlank)

/-! ## Quotes -/

/-- A quote that is written twice leaves the quotes and enters them again. -/
theorem after_doubled {quote : Char} (hquote : quote = '\'' ∨ quote = '"') (cs : List Char)
    (following : Option Char) :
    (ScriptState.quoted quote).after
      (cs.flatMap fun c => if c = quote then [quote, quote] else [c]) following =
        some (.quoted quote) := by
  induction cs with
  | nil => rfl
  | cons c cs ih =>
      rw [List.flatMap_cons, after_append]
      split
      · rcases hquote with rfl | rfl <;> exact ih
      next hother =>
        have hstay (next : Option Char) :
            (ScriptState.quoted quote).after [c] next = some (.quoted quote) := by
          simp [after, ScriptState.next, hother]
        rw [hstay, Option.bind_some, ih]

theorem isClause_quoted {quote : Char} (hquote : quote = '\'' ∨ quote = '"') (s : String)
    {t : String} (ht : t.toList = [quote] ++ (doubled quote s).toList ++ [quote]) : IsClause t where
  closed := by
    intro following
    have hopen (next : Option Char) :
        ScriptState.code.after [quote] next = some (.quoted quote) := by
      rcases hquote with rfl | rfl <;> rfl
    have hclose : (ScriptState.quoted quote).after [quote] following = some .code := by
      rcases hquote with rfl | rfl <;> simp [after, ScriptState.next]
    rw [ht, doubled, String.toList_ofList, after_append, after_append, hopen, Option.bind_some,
      after_doubled hquote, Option.bind_some, hclose]
  ends := by
    rw [ht, List.getLast?_concat, Option.any_some]
    rcases hquote with rfl | rfl <;> decide

theorem isClause_quoteName (name : String) : IsClause (quoteName name) :=
  isClause_quoted (.inr rfl) name (by simp [quoteName])

theorem isClause_quoteText (value : String) : IsClause (quoteText value) :=
  isClause_quoted (.inl rfl) value (by simp [quoteText])

theorem closed_quoteNames (names : List String) : Closed (quoteNames names) := by
  refine Closed.intercalate (by decide) fun t ht => ?_
  obtain ⟨name, _, rfl⟩ := List.mem_map.mp ht
  exact (isClause_quoteName name).closed

/-! ## Numbers -/

/-- Digits and decimal points. -/
structure IsNumeral (s : String) : Prop where
  nonempty : s.toList ≠ []
  digits : ∀ c ∈ s.toList, c.isDigit = true ∨ c = '.'

/-- A character that never leaves code. -/
def isPlain (c : Char) : Bool :=
  c ∉ ['\'', '"', Char.ofNat 0x60, '-', '/', ';']

theorem after_of_isPlain {cs : List Char} (h : ∀ c ∈ cs, isPlain c = true)
    (following : Option Char) : ScriptState.code.after cs following = some .code := by
  induction cs with
  | nil => rfl
  | cons c cs ih =>
      have hc := h c List.mem_cons_self
      simp only [isPlain, List.mem_cons, List.not_mem_nil, or_false, not_or,
        decide_eq_true_eq] at hc
      obtain ⟨hsingle, hdouble, hback, hminus, hslash, hsemicolon⟩ := hc
      simp only [after, hsemicolon, and_false, if_false, ScriptState.next, hsingle, hdouble, hback,
        hminus, hslash, false_and, or_self]
      exact ih fun d hd => h d (List.mem_cons_of_mem _ hd)

theorem isPlain_of_isDigit {c : Char} (h : c.isDigit = true ∨ c = '.') : isPlain c = true := by
  rcases h with h | rfl
  · simp only [isPlain, List.mem_cons, List.not_mem_nil, or_false, not_or, decide_eq_true_eq]
    refine ⟨?_, ?_, ?_, ?_, ?_, ?_⟩ <;> (rintro rfl; revert h; decide)
  · decide

theorem isBlank_of_isDigit {c : Char} (h : c.isDigit = true ∨ c = '.') : isBlank c = false := by
  rcases h with h | rfl
  · have hrange : 48 ≤ c.toNat ∧ c.toNat ≤ 57 := by
      simpa [Char.isDigit, UInt32.le_iff_toNat_le] using h
    simp only [isBlank, Bool.or_eq_false_iff, Bool.and_eq_false_iff, decide_eq_false_iff_not,
      beq_eq_false_iff_ne]
    omega
  · decide

namespace IsNumeral

variable {s t : String}

theorem isClause (h : IsNumeral s) : IsClause s where
  closed := after_of_isPlain fun c hc => isPlain_of_isDigit (h.digits c hc)
  ends := by
    rw [List.getLast?_eq_some_getLast h.nonempty, Option.any_some,
      isBlank_of_isDigit (h.digits _ (List.getLast_mem h.nonempty))]
    rfl

theorem append (hs : IsNumeral s) (ht : IsNumeral t) : IsNumeral (s ++ t) where
  nonempty := by simp [hs.nonempty]
  digits := by
    simp only [String.toList_append, List.mem_append]
    rintro c (hc | hc)
    · exact hs.digits c hc
    · exact ht.digits c hc

/-- A minus sign before a digit opens no comment. -/
theorem negative (h : IsNumeral s) : IsClause ("-" ++ s) where
  closed := by
    intro following
    obtain ⟨d, ds, hcons⟩ := List.exists_cons_of_ne_nil h.nonempty
    have hdigit := isPlain_of_isDigit (h.digits d (by simp [hcons]))
    have hminus : d ≠ '-' := by
      rintro rfl
      revert hdigit
      decide
    have hfirst : ScriptState.code.after ['-'] (some d) = some .code := by
      simp [after, ScriptState.next, hminus]
    rw [String.toList_append, after_append, hcons, List.head?_cons, Option.some_or,
      show ("-" : String).toList = ['-'] from rfl, hfirst, Option.bind_some, ← hcons]
    exact h.isClause.closed following
  ends := h.isClause.ends_append "-"

end IsNumeral

theorem isNumeral_natText (n : Nat) : IsNumeral (natText n) where
  nonempty := by simp [natText, Nat.toDigits_ne_nil]
  digits := by
    intro c hc
    rw [natText, String.toList_ofList] at hc
    exact .inl (Nat.isDigit_of_mem_toDigits (by decide) (by decide) hc)

theorem isNumeral_paddedText (width n : Nat) : IsNumeral (paddedText width n) where
  nonempty := by simp [paddedText, Nat.toDigits_ne_nil]
  digits := by
    intro c hc
    simp only [paddedText, String.toList_ofList, List.mem_append] at hc
    rcases hc with hc | hc
    · rw [List.eq_of_mem_replicate hc]
      decide
    · exact .inl (Nat.isDigit_of_mem_toDigits (by decide) (by decide) hc)

theorem isClause_int64Text (value : Int64) : IsClause (int64Text value) := by
  unfold int64Text
  cases value.toInt with
  | ofNat n => exact (isNumeral_natText n).isClause
  | negSucc n => exact (isNumeral_natText (n + 1)).negative

theorem isNumeral_plainText (digits : Nat) (place : Int) :
    IsNumeral (Number.Binary64.plainText digits place) := by
  unfold Number.Binary64.plainText
  split
  · exact isNumeral_natText _
  · exact ((isNumeral_natText _).append ⟨by decide, by simp⟩).append (isNumeral_paddedText _ _)

theorem isClause_binary64 (value : Binary64) : IsClause value.text := by
  cases value with
  | infinite negative => cases negative <;> decide
  | finite negative mantissa exponent =>
      simp only [Binary64.text]
      have hmagnitude (digits : Nat) (place : Int) :
          IsNumeral (if mantissa = 0 then "0" else Binary64.plainText digits place) := by
        split
        · exact isNumeral_natText 0
        · exact isNumeral_plainText digits place
      split
      · exact (hmagnitude _ _).negative
      · exact (hmagnitude _ _).isClause

/-! ## Definitions -/

/-- The text that a default value takes over as it is. -/
def DefaultValue.rawSql? : DefaultValue → Option String
  | .expression sql => some sql
  | _ => none

/-- The text that a column takes over as it is. -/
def Column.rawSql? (c : Column) : Option String :=
  c.default.bind DefaultValue.rawSql?

/-- The text that a constraint takes over as it is. -/
def Constraint.rawSql? : Constraint → Option String
  | .check _ expression => some expression
  | _ => none

/-- The texts that a table takes over as they are. -/
def Table.rawSql (t : Table) : List String :=
  t.columns.filterMap Column.rawSql? ++ t.constraints.filterMap Constraint.rawSql?

/-- A self-contained text is a clause once it stands in parentheses. -/
theorem isClause_parenthesized {s : String} (h : SelfContained s) : IsClause ("(" ++ s ++ ")") :=
  ⟨Closed.parenthesized h, IsClause.ends_append _ (by decide : IsClause ")")⟩

theorem isClause_uuidExpression : IsClause DefaultValue.uuidExpression := by
  -- The scan of each part is quick to evaluate, that of the whole is not.
  refine IsClause.append (Closed.append ?_ ?_) ?_ <;> decide +kernel

theorem DefaultValue.isClause_sql {value : DefaultValue}
    (h : ∀ raw, value.rawSql? = some raw → SelfContained raw) : IsClause value.sql := by
  cases value with
  | currentTimestamp => decide
  | uuid => exact isClause_uuidExpression
  | cuid => decide
  | nanoid => decide
  | expression sql => exact isClause_parenthesized (h sql rfl)
  | text value => exact isClause_quoteText value
  | integer value => exact isClause_int64Text value
  | real value => exact isClause_binary64 value
  | boolean value => cases value <;> decide
  | ordinal position => exact (isNumeral_natText position).isClause

theorem closed_constraintName (name : Option String) : Closed (constraintName name) := by
  cases name with
  | none => exact Closed.empty
  | some name =>
      have hquoted := (isClause_quoteName name).closed
      exact (Closed.append (by decide) hquoted).append (by decide)

theorem Column.isClause_sql {column : Column}
    (h : ∀ raw, column.rawSql? = some raw → SelfContained raw) : IsClause column.sql := by
  have htype : IsClause column.type.sql := by cases column.type <;> decide
  have hname : Closed (quoteName column.name ++ " ") :=
    (isClause_quoteName column.name).closed.append (by decide)
  have hunique : IsClause (" " ++ constraintName column.uniqueName ++ "UNIQUE") :=
    IsClause.append (Closed.append (by decide) (closed_constraintName _)) (by decide)
  unfold Column.sql
  refine IsClause.append_optional (IsClause.append_optional (IsClause.append_optional
    (IsClause.append_optional (IsClause.append hname htype) ?_) ?_) ?_) ?_
  · split <;> decide
  · split <;> decide
  · split
    · exact .inr hunique
    · exact .inl rfl
  · cases hdefault : column.default with
    | none => exact .inl rfl
    | some value =>
        have hvalue : IsClause value.sql := DefaultValue.isClause_sql fun raw hraw =>
          h raw (by simp [Column.rawSql?, hdefault, hraw])
        exact .inr (IsClause.append (by decide) hvalue)

theorem closed_actionSql {event : String} (hevent : Closed event)
    (action : Option ReferentialAction) : Closed (actionSql event action) := by
  cases action with
  | none => exact Closed.empty
  | some action =>
      have hsql : Closed action.sql := by cases action <;> decide
      exact ((Closed.append (by decide) hevent).append (by decide)).append hsql

theorem ForeignKey.closed_sql (key : ForeignKey) : Closed key.sql := by
  have hcolumns := closed_quoteNames key.columns
  have htable := (isClause_quoteName key.table).closed
  have hreferences := closed_quoteNames key.references
  have honDelete : Closed (actionSql "DELETE" key.onDelete) := closed_actionSql (by decide) _
  have honUpdate : Closed (actionSql "UPDATE" key.onUpdate) := closed_actionSql (by decide) _
  have hleft : Closed ("FOREIGN KEY (" ++ quoteNames key.columns ++ ") REFERENCES ") :=
    (Closed.append (by decide) hcolumns).append (by decide)
  have hright : Closed ("FOREIGN KEY (" ++ quoteNames key.columns ++ ") REFERENCES "
      ++ quoteName key.table ++ "(" ++ quoteNames key.references ++ ")") :=
    (((hleft.append htable).append (by decide)).append hreferences).append (by decide)
  exact (hright.append honDelete).append honUpdate

theorem Constraint.closed_sql {constraint : Constraint}
    (h : ∀ raw, constraint.rawSql? = some raw → SelfContained raw) : Closed constraint.sql := by
  cases constraint with
  | primaryKey columns =>
      exact (Closed.append (by decide) (closed_quoteNames columns)).append (by decide)
  | unique name columns =>
      have hlead : Closed (constraintName name ++ "UNIQUE (") :=
        (closed_constraintName name).append (by decide)
      exact (hlead.append (closed_quoteNames columns)).append (by decide)
  | check name expression =>
      have hlead : Closed (constraintName name ++ "CHECK ") :=
        (closed_constraintName name).append (by decide)
      have hsql : (Constraint.check name expression).sql =
          constraintName name ++ "CHECK " ++ ("(" ++ expression ++ ")") := by
        apply String.toList_injective
        simp [Constraint.sql]
      rw [hsql]
      exact hlead.append (Closed.parenthesized (h expression rfl))
  | foreignKey name key => exact (closed_constraintName name).append key.closed_sql

theorem Table.closed_clauses {table : Table} (h : ∀ raw ∈ table.rawSql, SelfContained raw) :
    ∀ clause ∈ table.clauses, Closed clause := by
  intro clause hclause
  simp only [Table.clauses, List.mem_append, List.mem_map] at hclause
  rcases hclause with ⟨column, hcolumn, rfl⟩ | ⟨constraint, hconstraint, rfl⟩
  · exact (Column.isClause_sql fun raw hraw => h raw (List.mem_append_left _
      (List.mem_filterMap.mpr ⟨column, hcolumn, hraw⟩))).closed
  · exact Constraint.closed_sql fun raw hraw => h raw (List.mem_append_right _
      (List.mem_filterMap.mpr ⟨constraint, hconstraint, hraw⟩))

end SchemaMigration.Sql
