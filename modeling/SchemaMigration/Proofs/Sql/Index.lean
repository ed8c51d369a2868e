import SchemaMigration.Proofs.Sql.Segment

/-! # Statements of indexes

The names in the statement that creates an index are read back from its text, and so is the index:
whatever stands in its names, quotes, commas and brackets among them, no other index has the same
statement.
-/

namespace SchemaMigration.Sql

/-! ## Names in a text -/

theorem length_readQuoted {quote : Char} {cs text rest : List Char}
    (h : readQuoted quote cs = some (text, rest)) : rest.length < cs.length := by
  induction cs using readQuoted.induct quote generalizing text with
  | case1 cs ih =>
      simp only [readQuoted, if_true, Option.map_eq_some_iff, Prod.exists, Prod.mk.injEq] at h
      obtain ⟨inner, rest', hinner, -, rfl⟩ := h
      have hlt := ih hinner
      simp only [List.length_cons]
      omega
  | case2 d cs hd =>
      rw [readQuoted, if_pos rfl, if_neg hd] at h
      cases h
      exact Nat.lt_succ_self _
  | case3 c d cs hc ih =>
      simp only [readQuoted, if_neg hc, Option.map_eq_some_iff, Prod.exists, Prod.mk.injEq] at h
      obtain ⟨inner, rest', hinner, -, rfl⟩ := h
      exact Nat.lt_succ_of_lt (ih hinner)
  | case4 =>
      rw [readQuoted, if_pos rfl] at h
      cases h
      exact Nat.lt_succ_self _
  | case5 c hc =>
      rw [readQuoted, if_neg hc] at h
      cases h
  | case6 => cases h

theorem length_readToken {quote : Char} {cs text rest : List Char}
    (h : readToken quote cs = some (text, rest)) : rest.length < cs.length := by
  cases cs with
  | nil => cases h
  | cons c cs =>
      rw [readToken] at h
      split at h
      next => exact Nat.lt_succ_of_lt (length_readQuoted h)
      next => cases h

/-- The names that stand in double quotes in a text, from left to right, with doubled quotes
undone. -/
def quotedNames : List Char → List String
  | [] => []
  | c :: cs =>
    match _ : readToken '"' (c :: cs) with
    | some (name, rest) => String.ofList name :: quotedNames rest
    | none => quotedNames cs
termination_by cs => cs.length
decreasing_by
  · exact length_readToken ‹_›
  · exact Nat.lt_succ_self _

section QuotedNames

variable {cs rest : List Char}

/-- A name in quotes is read, whatever it is, and the names behind it. -/
theorem quotedNames_quoteName (name : String) (hrest : rest.head? ≠ some '"') :
    quotedNames ((quoteName name).toList ++ rest) = name :: quotedNames rest := by
  have hread := denotes_quoteName name rest hrest
  cases htext : (quoteName name).toList ++ rest with
  | nil => simp [quoteName] at htext
  | cons c cs =>
      rw [htext] at hread
      rw [quotedNames]
      split
      next text after heq =>
        obtain ⟨rfl, rfl⟩ := Prod.mk.inj (Option.some.inj (heq.symm.trans hread))
        rw [String.ofList_toList]
      next heq =>
        rw [heq] at hread
        cases hread

/-- Text without quotes has no names in it. -/
theorem quotedNames_append (h : '"' ∉ cs) : quotedNames (cs ++ rest) = quotedNames rest := by
  induction cs with
  | nil => rfl
  | cons c cs ih =>
      have hc : c ≠ '"' := fun heq => h (heq ▸ List.mem_cons_self)
      have hnone : readToken '"' (c :: (cs ++ rest)) = none := if_neg hc
      rw [List.cons_append, quotedNames]
      split
      next heq =>
        rw [hnone] at heq
        cases heq
      next => exact ih fun hmem => h (List.mem_cons_of_mem _ hmem)

/-- Names in a row are read one by one. -/
theorem quotedNames_quoteNames (names : List String) (hrest : rest.head? ≠ some '"') :
    quotedNames ((quoteNames names).toList ++ rest) = names ++ quotedNames rest := by
  induction names with
  | nil => rfl
  | cons name names ih =>
      cases names with
      | nil => exact quotedNames_quoteName name hrest
      | cons next names =>
          have hrow : (quoteNames (name :: next :: names)).toList ++ rest =
              (quoteName name).toList ++ (", ".toList ++
                ((quoteNames (next :: names)).toList ++ rest)) := by
            simp [quoteNames, String.intercalate_cons_cons]
          rw [hrow, quotedNames_quoteName name (by simp), quotedNames_append (by decide), ih]
          rfl

end QuotedNames

/-! ## Indexes -/

namespace Index

/-- The index that a statement tells: whether it is unique by how the statement begins, and its names
by those in quotes, the first two of which are the index and its table. -/
def ofSql? (sql : String) : Option Index :=
  match quotedNames sql.toList with
  | name :: table :: columns =>
    some ⟨name, table, columns, "CREATE UNIQUE ".toList.isPrefixOf sql.toList⟩
  | _ => none

theorem quotedNames_createSql (i : Index) :
    quotedNames i.createSql.toList = i.name :: i.table :: i.columns := by
  have htext : i.createSql.toList =
      ("CREATE " ++ (if i.isUnique then "UNIQUE " else "") ++ "INDEX ").toList ++
        ((quoteName i.name).toList ++ (" ON ".toList ++ ((quoteName i.table).toList ++
          (" (".toList ++ ((quoteNames i.columns).toList ++ ");".toList))))) := by
    simp [createSql]
  have hlead : '"' ∉ ("CREATE " ++ (if i.isUnique then "UNIQUE " else "") ++ "INDEX ").toList := by
    cases i.isUnique <;> decide
  have hend : quotedNames ");".toList = [] := by
    have hclosing : '"' ∉ ");".toList := by decide
    rw [← List.append_nil ");".toList, quotedNames_append hclosing, quotedNames]
  rw [htext, quotedNames_append hlead, quotedNames_quoteName _ (by simp),
    quotedNames_append (by decide), quotedNames_quoteName _ (by simp),
    quotedNames_append (by decide), quotedNames_quoteNames _ (by simp), hend, List.append_nil]

theorem isPrefixOf_createSql (i : Index) :
    "CREATE UNIQUE ".toList.isPrefixOf i.createSql.toList = i.isUnique := by
  cases h : i.isUnique with
  | true => simp [createSql, h]
  | false =>
      simp only [createSql, h, String.toList_append]
      rfl

/-- An index is read back from its statement. -/
theorem ofSql?_createSql (i : Index) : ofSql? i.createSql = some i := by
  rw [ofSql?, quotedNames_createSql]
  simp only [isPrefixOf_createSql]

/-- A statement that creates an index determines it: the names in quotes are those of the index, its
table and its columns, no name ends its quotes, and two indexes with the same statement are the same
index. -/
theorem createSql_determines :
    (∀ i : Index, quotedNames i.createSql.toList = i.name :: i.table :: i.columns) ∧
      ∀ i j : Index, i.createSql = j.createSql ↔ i = j := by
  refine ⟨quotedNames_createSql, fun i j => ⟨fun h => ?_, fun h => h ▸ rfl⟩⟩
  have hread : some i = some j := by
    rw [← ofSql?_createSql i, ← ofSql?_createSql j, h]
  exact Option.some.inj hread

end Index

end SchemaMigration.Sql
