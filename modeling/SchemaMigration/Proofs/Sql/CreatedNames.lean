import SchemaMigration.Sql.CreatedTables
import SchemaMigration.Sql.Quoting
import Mathlib.Data.List.Basic

/-! # The scan for created tables

The scan reads lines, not statements. In a text that ends with a semicolon it finds a table only
where a line begins with `CREATE TABLE`, and never reads over the end of the text to do so.
-/

namespace SchemaMigration.Sql

open Text (afterAnyCase? isSpace lowerAscii run)

variable {cs rest : List Char}

/-! ## Lines that open a table -/

/-- Whether a text begins with `CREATE TABLE`, after blanks. -/
def opensTable (cs : List Char) : Bool :=
  ((afterKeyword? "create" (cs.dropWhile isSpace)).bind (afterKeyword? "table")).isSome

/-- Whether a line after the first one begins with `CREATE TABLE`. Blank lines count for the line
that follows them. -/
def opensLater : List Char → Bool
  | [] => false
  | c :: cs => (c = '\n' && opensTable cs) || opensLater cs

/-- A name is looked for only behind `CREATE TABLE`. -/
theorem createdTable_of_not_opensTable (h : opensTable cs = false) : createdTable cs = none := by
  have hnone := Option.not_isSome_iff_eq_none.mp (Bool.eq_false_iff.mp h)
  unfold createdTable
  rw [Option.bind_eq_bind]
  cases hcreate : afterKeyword? "create" (cs.dropWhile isSpace) with
  | none => rfl
  | some rest =>
      have htable : afterKeyword? "table" rest = none := by
        rwa [hcreate, Option.bind_some] at hnone
      rw [Option.bind_some, htable]
      rfl

/-- A line without a break does not matter for the lines after it. -/
theorem opensLater_of_line (h : '\n' ∉ cs) (rest : List Char) :
    opensLater (cs ++ rest) = opensLater rest := by
  induction cs with
  | nil => rfl
  | cons c cs ih =>
      have hc : c ≠ '\n' := fun heq => h (heq ▸ List.mem_cons_self)
      rw [List.cons_append, opensLater, decide_eq_false hc, Bool.false_and, Bool.false_or]
      exact ih fun hmem => h (List.mem_cons_of_mem _ hmem)

theorem afterAnyCase?_append_word (first second cs : List Char) :
    afterAnyCase? (first ++ second) cs = (afterAnyCase? first cs).bind (afterAnyCase? second) := by
  induction first generalizing cs with
  | nil => rfl
  | cons e first ih =>
      cases cs with
      | nil => rfl
      | cons c cs =>
          simp only [List.cons_append, afterAnyCase?]
          split
          · exact ih cs
          · rfl

/-- The first two letters tell that an indented line does not begin with `CREATE TABLE`. -/
theorem opensTable_indented (hspace : (cs.head?.all fun c => !isSpace c) = true)
    (h : afterAnyCase? ['c', 'r'] cs = none) : opensTable ("    ".toList ++ cs) = false := by
  have hdrop : ("    ".toList ++ cs).dropWhile isSpace = cs := by
    rw [List.dropWhile_append_of_pos (List.all_eq_true.mp rfl)]
    cases cs with
    | nil => rfl
    | cons c cs => exact List.dropWhile_cons_of_neg (by simpa using hspace)
  have hword : "create".toList = ['c', 'r'] ++ ['e', 'a', 't', 'e'] := rfl
  unfold opensTable afterKeyword?
  rw [hdrop, hword, afterAnyCase?_append_word, h]
  rfl

/-! ## Semicolons end keywords -/

/-- A word without a semicolon is found within a text that has one, or not at all. -/
theorem afterAnyCase?_append {word : List Char} (hword : ';' ∉ word) (h : ';' ∈ cs)
    (rest : List Char) :
    afterAnyCase? word (cs ++ rest) = (afterAnyCase? word cs).map (· ++ rest) ∧
      ∀ left, afterAnyCase? word cs = some left → ';' ∈ left := by
  induction word generalizing cs with
  | nil => exact ⟨rfl, fun left hleft => Option.some.inj hleft ▸ h⟩
  | cons e word ih =>
      cases cs with
      | nil => cases h
      | cons c cs =>
          simp only [List.cons_append, afterAnyCase?]
          by_cases hc : e = lowerAscii c
          · rw [if_pos hc, if_pos hc]
            have hne : ';' ≠ c := by
              rintro rfl
              exact hword (hc ▸ List.mem_cons_self)
            refine ih (fun hmem => hword (List.mem_cons_of_mem _ hmem)) ?_
            exact (List.mem_cons.mp h).resolve_left hne
          · rw [if_neg hc, if_neg hc]
            exact ⟨rfl, fun left hleft => nomatch hleft⟩

theorem dropWhile_isSpace_append (h : ';' ∈ cs) (rest : List Char) :
    (cs ++ rest).dropWhile isSpace = cs.dropWhile isSpace ++ rest ∧
      ';' ∈ cs.dropWhile isSpace := by
  induction cs with
  | nil => cases h
  | cons c cs ih =>
      by_cases hc : isSpace c = true
      · have hne : ';' ≠ c := by
          rintro rfl
          exact absurd hc (by decide)
        simpa [List.dropWhile_cons, hc] using ih ((List.mem_cons.mp h).resolve_left hne)
      · simpa [List.dropWhile_cons, hc] using h

theorem run_isSpace_append (h : ';' ∈ cs) (rest : List Char) :
    (run isSpace (cs ++ rest)).map (·.2) = ((run isSpace cs).map (·.2)).map (· ++ rest) ∧
      ∀ left, (run isSpace cs).map (·.2) = some left → ';' ∈ left := by
  cases cs with
  | nil => cases h
  | cons c cs =>
      by_cases hc : isSpace c = true
      · have hne : ';' ≠ c := by
          rintro rfl
          exact absurd hc (by decide)
        obtain ⟨happend, hmem⟩ :=
          dropWhile_isSpace_append ((List.mem_cons.mp h).resolve_left hne) rest
        simp [run, hc, happend, hmem]
      · simp [run, hc]

/-- A keyword is found within a text that has a semicolon, or not at all. -/
theorem afterKeyword?_append {keyword : String} (hkeyword : ';' ∉ keyword.toList)
    (h : ';' ∈ cs) (rest : List Char) :
    afterKeyword? keyword (cs ++ rest) = (afterKeyword? keyword cs).map (· ++ rest) ∧
      ∀ left, afterKeyword? keyword cs = some left → ';' ∈ left := by
  obtain ⟨happend, hmem⟩ := afterAnyCase?_append hkeyword h rest
  unfold afterKeyword?
  rw [happend]
  cases hafter : afterAnyCase? keyword.toList cs with
  | none => exact ⟨rfl, fun left hleft => nomatch hleft⟩
  | some left => exact run_isSpace_append (hmem left hafter) rest

/-- Whether a text with a semicolon begins with `CREATE TABLE` does not depend on what follows. -/
theorem opensTable_append (h : ';' ∈ cs) (rest : List Char) : opensTable (cs ++ rest) = opensTable cs := by
  obtain ⟨hdrop, hmem⟩ := dropWhile_isSpace_append h rest
  obtain ⟨hcreate, hleft⟩ :=
    afterKeyword?_append (show ';' ∉ "create".toList by decide) hmem rest
  unfold opensTable
  rw [hdrop, hcreate]
  cases hafter : afterKeyword? "create" (cs.dropWhile isSpace) with
  | none => rfl
  | some left =>
      have htable := afterKeyword?_append (show ';' ∉ "table".toList by decide)
        (hleft left hafter) rest
      rw [Option.map_some, Option.bind_some, Option.bind_some, htable.1, Option.isSome_map]

/-! ## Texts without tables -/

/-- Where no table is created, it does not matter that a line begins. -/
theorem createdNamesFrom_of_createdTable (h : createdTable cs = none) :
    createdNamesFrom 0 true cs = createdNamesFrom 0 false cs := by
  cases cs with
  | nil => rfl
  | cons c cs => simp [createdNamesFrom, h]

/-- Nothing is found in a text up to its last semicolon when none of its later lines begins with
`CREATE TABLE`. -/
theorem createdNamesFrom_of_not_opensLater (h : opensLater (cs ++ [';']) = false) :
    createdNamesFrom 0 false (cs ++ ';' :: rest) = createdNamesFrom 0 false rest := by
  induction cs with
  | nil => rfl
  | cons c cs ih =>
      rw [List.cons_append, opensLater, Bool.or_eq_false_iff] at h
      have hrest := ih h.2
      rw [List.cons_append, createdNamesFrom]
      by_cases hc : c = '\n'
      · have hopens : opensTable (cs ++ ';' :: rest) = false := by
          have hsplit : cs ++ ';' :: rest = (cs ++ [';']) ++ rest := by simp
          rw [hsplit, opensTable_append (by simp)]
          simpa [hc] using h.1
        rw [hc, beq_self_eq_true, ← hrest]
        exact createdNamesFrom_of_createdTable (createdTable_of_not_opensTable hopens)
      · rw [beq_false_of_ne hc]
        exact hrest

/-- Within a line no name is looked for. -/
theorem createdNamesFrom_of_line (h : '\n' ∉ cs) :
    createdNamesFrom 0 false (cs ++ rest) = createdNamesFrom 0 false rest := by
  induction cs with
  | nil => rfl
  | cons c cs ih =>
      have hc : c ≠ '\n' := fun heq => h (heq ▸ List.mem_cons_self)
      rw [List.cons_append, createdNamesFrom, beq_false_of_ne hc]
      exact ih fun hmem => h (List.mem_cons_of_mem _ hmem)

/-! ## Names of tables -/

theorem quotedNameRest_doubled (hrest : rest.head? ≠ some '"') (cs : List Char) :
    quotedNameRest ((cs.flatMap fun c => if c = '"' then ['"', '"'] else [c]) ++ '"' :: rest) =
      some (cs, rest) := by
  induction cs with
  | nil =>
      cases rest with
      | nil => rfl
      | cons d rest =>
          have hd : d ≠ '"' := fun heq => hrest (heq ▸ rfl)
          simp [quotedNameRest, hd]
  | cons c cs ih =>
      rw [List.flatMap_cons, List.append_assoc]
      by_cases hc : c = '"'
      · simp only [hc, if_true, List.cons_append, List.nil_append, quotedNameRest, ih]
      · simp [hc, quotedNameRest, ih]

/-- A name in quotes is read back, unless it is empty. -/
theorem tableName_quoteName {name : String} (hname : name ≠ "")
    (hrest : rest.head? ≠ some '"') :
    tableName ((quoteName name).toList ++ rest) = some (name.toList, rest) := by
  have hquoted : quotedName ((quoteName name).toList ++ rest) = some (name.toList, rest) := by
    cases hcs : name.toList with
    | nil => exact absurd (String.toList_eq_nil_iff.mp hcs) hname
    | cons c cs =>
        have hclosed := quotedNameRest_doubled hrest cs
        by_cases hc : c = '"'
        · simp [quoteName, doubled, hcs, hc, quotedName, hclosed]
        · simp [quoteName, doubled, hcs, hc, quotedName, hclosed]
  rw [tableName, hquoted, Option.some_or]

theorem tableName_quoteName_empty (hrest : rest.head? ≠ some '"') :
    tableName ((quoteName "").toList ++ rest) = none := by
  have htext : (quoteName "").toList ++ rest = '"' :: '"' :: rest := rfl
  rw [htext]
  cases rest with
  | nil => rfl
  | cons d rest =>
      have hd : d ≠ '"' := fun heq => hrest (heq ▸ rfl)
      have hquoted : quotedName ('"' :: '"' :: d :: rest) = none := by
        simp [quotedName, hd]
      rw [tableName, hquoted]
      rfl

/-- The name is what stands behind `CREATE TABLE` in quotes, on this line or after a blank one. -/
theorem createdTable_quoted (cs : List Char) :
    createdTable ("CREATE TABLE \"".toList ++ cs) = tableName ('"' :: cs) ∧
      createdTable ('\n' :: ("CREATE TABLE \"".toList ++ cs)) = tableName ('"' :: cs) :=
  ⟨rfl, rfl⟩

/-- The characters of a name are passed over. -/
theorem createdNamesFrom_skip (b : Bool) (cs rest : List Char) (c : Char) :
    createdNamesFrom (cs.length + 1) b (cs ++ c :: rest) = createdNamesFrom 0 (c == '\n') rest := by
  induction cs generalizing b with
  | nil => rfl
  | cons d cs ih => exact ih (d == '\n')

/-- A statement that creates a table gives its name, unless that is empty. -/
theorem createdNamesFrom_createTable (name : String) (hrest : rest.head? ≠ some '"') :
    createdNamesFrom 0 true
        ('\n' :: ("CREATE TABLE ".toList ++ (quoteName name).toList ++ rest)) =
      [name].filter (· ≠ "") ++ createdNamesFrom 0 false rest := by
  have htext : "CREATE TABLE ".toList ++ (quoteName name).toList ++ rest =
      "CREATE TABLE \"".toList ++ ((doubled '"' name).toList ++ '"' :: rest) := by
    simp [quoteName]
  have hquoted : '"' :: ((doubled '"' name).toList ++ '"' :: rest) =
      (quoteName name).toList ++ rest := by
    simp [quoteName]
  obtain ⟨hline, hblank⟩ := createdTable_quoted ((doubled '"' name).toList ++ '"' :: rest)
  rw [hquoted] at hline hblank
  rw [htext]
  by_cases hname : name = ""
  · -- An empty name is not found, and its line is read on.
    subst hname
    rw [tableName_quoteName_empty hrest] at hline hblank
    rw [createdNamesFrom_of_createdTable hblank, createdNamesFrom, beq_self_eq_true,
      createdNamesFrom_of_createdTable hline]
    have hempty : "CREATE TABLE \"".toList ++ ((doubled '"' "").toList ++ '"' :: rest) =
        "CREATE TABLE \"\"".toList ++ rest := rfl
    rw [hempty, createdNamesFrom_of_line (by decide)]
    rfl
  · rw [tableName_quoteName hname hrest] at hblank
    have hpassed : createdNamesFrom
        (("CREATE TABLE \"".toList ++ ((doubled '"' name).toList ++ '"' :: rest)).length
          - rest.length) false
        ("CREATE TABLE \"".toList ++ ((doubled '"' name).toList ++ '"' :: rest)) =
          createdNamesFrom 0 false rest := by
      have hlength : ("CREATE TABLE \"".toList ++ ((doubled '"' name).toList ++ '"' :: rest)).length
          - rest.length = ("CREATE TABLE \"".toList ++ (doubled '"' name).toList).length + 1 := by
        simp only [List.length_append, List.length_cons]
        omega
      rw [hlength, ← List.append_assoc, createdNamesFrom_skip]
      rfl
    rw [createdNamesFrom, hblank]
    simp only [hpassed, String.ofList_toList]
    rw [List.filter_cons_of_pos (by simpa using hname)]
    rfl

/-! ## Tables of scripts -/

theorem firstOccurrences_eq_eraseDups (names : List String) :
    firstOccurrences names = names.eraseDups := by
  have hloop : ∀ known : List String,
      names.foldl (fun known name => if known.contains name then known else known ++ [name])
        known.reverse = List.eraseDupsBy.loop (· == ·) names known := by
    induction names with
    | nil => exact fun known => rfl
    | cons name names ih =>
        intro known
        rw [List.foldl_cons, List.eraseDupsBy.loop, List.contains_reverse, ← List.reverse_cons,
          ← List.contains_eq_any_beq]
        cases known.contains name with
        | true => exact ih known
        | false => exact ih (name :: known)
  exact hloop []

end SchemaMigration.Sql
