import SchemaMigration.Proofs.Schema.Grammar.Lexeme

/-! # Reading written settings

The values of settings are read back as they were written, however deeply they are nested. The
induction follows the value: the items of an array or a call are read one after another by the
induction hypothesis, with the depth that is left.
-/

namespace SchemaMigration.Grammar

open SchemaMigration.Grammar.Parser
open Text (isDigit isWordChar isWordStart)

/-! ## Words and marks -/

section Words

variable {cs rest : List Char} {s : String}

theorem yields_identifier (h : IsIdentifier s) (hrest : rest.head?.any isWordChar = false) :
    identifier.Yields (s.toList ++ rest) fun i r => i.name = s ∧ r = rest :=
  ((yields_lexeme (word_append h hrest)).symbol _).mono fun i r ⟨hname, hr⟩ =>
    ⟨by rw [hname, String.ofList_toList], hr⟩

theorem refuses_identifier (h : cs.head?.any isWordStart = false) : identifier.Refuses cs :=
  (refuses_lexeme (word_eq_none h)).symbol _

theorem isSolid_head_of_isIdentifier (h : IsIdentifier s) :
    s.toList.head?.any isSolid = true := by
  obtain ⟨c, w, heq, hc, _⟩ := isWord_iff.mp h
  rw [heq]
  exact isSolid_of_isWordChar (isWordChar_of_isWordStart hc)

theorem yields_gapThen {α : Type} {p : Parser α} {Q : α → List Char → Prop} {text : List Char}
    (hgap : afterGap cs = text) (h : p.Yields text Q) : (gapThen p).Yields cs Q :=
  Yields.afterGap (hgap ▸ h)

/-- A mark behind a gap. -/
theorem yields_mark (text : String) (rest : List Char) (h : afterGap cs = text.toList ++ rest) :
    (gapThen (exactly text)).Yields cs fun _ r => r = rest :=
  yields_gapThen h (yields_exactly text rest)

end Words

/-! ## Alternatives that fail -/

section Refusals

variable {cs rest : List Char} {s : String} {p : Parser SettingValue}

theorem refuses_functionCall (h : cs.head?.any isWordStart = false) :
    (functionCall p).Refuses cs :=
  ((refuses_identifier h).bind _).symbol _

/-- A word is no call when no parenthesis follows. -/
theorem refuses_functionCall_word (h : IsIdentifier s) (hword : rest.head?.any isWordChar = false)
    (hopen : (afterGap rest).head? ≠ some '(') : (functionCall p).Refuses (s.toList ++ rest) := by
  refine ((yields_identifier h hword).bind_refuses ?_).symbol _
  rintro i r ⟨_, rfl⟩
  exact (Refuses.afterGap (refuses_exactly_of_head rfl hopen)).bind _

theorem refuses_array (h : cs.head? ≠ some '[') : (array p).Refuses cs :=
  ((refuses_exactly_of_head rfl h).bind _).symbol _

theorem refuses_stringLiteral (h : cs.head? ≠ some '"') : stringLiteral.Refuses cs :=
  ((refuses_exactly_of_head rfl h).bind _).symbol _

/-- A bracket that closes starts no value. -/
theorem refuses_value {c : Char} (hc : c = ')' ∨ c = ']') (depth : Nat) (cs : List Char) :
    (value depth).Refuses (c :: cs) := by
  cases depth with
  | zero => exact refuses_fail
  | succ depth =>
      have hstart : (c :: cs).head?.any isWordStart = false := by rcases hc with rfl | rfl <;> rfl
      have harray : (c :: cs).head? ≠ some '[' := by rcases hc with rfl | rfl <;> simp
      have hquote : (c :: cs).head? ≠ some '"' := by rcases hc with rfl | rfl <;> simp
      have hnumber : Lexeme.number (c :: cs) = none := by rcases hc with rfl | rfl <;> rfl
      have hboolean : Lexeme.boolean (c :: cs) = none := by rcases hc with rfl | rfl <;> rfl
      have hplain : plainValue.Refuses (c :: cs) := by
        refine refuses_first (List.forall_mem_cons.mpr ⟨?_, List.forall_mem_cons.mpr ⟨?_,
          List.forall_mem_cons.mpr ⟨?_, List.forall_mem_nil _⟩⟩⟩)
        · exact ((refuses_lexeme hnumber).symbol _).bind _
        · exact ((refuses_lexeme hboolean).symbol _).bind _
        · exact (refuses_identifier hstart).bind _
      exact refuses_first (List.forall_mem_cons.mpr ⟨refuses_functionCall hstart,
        List.forall_mem_cons.mpr ⟨refuses_array harray,
          List.forall_mem_cons.mpr ⟨refuses_stringLiteral hquote,
            List.forall_mem_cons.mpr ⟨hplain, List.forall_mem_nil _⟩⟩⟩⟩)

end Refusals

/-! ## Values -/

/-- What ends a value: it continues neither a word nor a number, and opens no call. -/
structure EndsValue (rest : List Char) : Prop where
  word : rest.head?.any isWordChar = false
  point : rest.head? ≠ some '.'
  call : (afterGap rest).head? ≠ some '('

theorem endsValue_cons {c : Char} (hc : c = ',' ∨ c = ')' ∨ c = ']') (rest : List Char) :
    EndsValue (c :: rest) := by
  have hsolid : isSolid c = true := by rcases hc with rfl | rfl | rfl <;> decide
  refine ⟨?_, ?_, ?_⟩
  · rcases hc with rfl | rfl | rfl <;> rfl
  · rcases hc with rfl | rfl | rfl <;> simp
  · rw [afterGap_of_isSolid hsolid]
    rcases hc with rfl | rfl | rfl <;> simp

theorem EndsValue.digit {rest : List Char} (h : EndsValue rest) :
    rest.head?.any isDigit = false := by
  have hword := h.word
  cases rest with
  | nil => rfl
  | cons c rest =>
      refine Bool.eq_false_iff.mpr fun hdigit => ?_
      rw [List.head?_cons, Option.any_some] at hdigit hword
      rw [isWordChar_of_isDigit hdigit] at hword
      cases hword

theorem isSolid_head_of_isWritable {v : SettingValue} (h : v.IsWritable) :
    v.chars.head?.any isSolid = true := by
  cases h with
  | string value => rfl
  | number h =>
      obtain ⟨c, cs, heq, hc⟩ := isNumeral_head h
      rw [SettingValue.chars, heq]
      rcases hc with rfl | hdigit
      · rfl
      · exact isSolid_of_isWordChar (isWordChar_of_isDigit hdigit)
  | boolean value => cases value <;> rfl
  | ident h => exact isSolid_head_of_isIdentifier h.1
  | array h => rfl
  | @call function arguments hfunction h =>
      obtain ⟨c, w, heq, hc, _⟩ := isWord_iff.mp hfunction
      rw [SettingValue.chars, heq]
      exact isSolid_of_isWordChar (isWordChar_of_isWordStart hc)

section Rows

variable {p : Parser SettingValue} {v : SettingValue} {vs : List SettingValue} {close : Char}
  {rest : List Char}

/-- A parser reads a value as it is written. -/
def ReadsValue (p : Parser SettingValue) (v : SettingValue) : Prop :=
  v.chars.head?.any isSolid = true ∧
    ∀ rest, EndsValue rest → p.Yields (v.chars ++ rest) fun a r => v = a ∧ r = rest

theorem furtherChars_eq (vs : List SettingValue) :
    SettingValue.furtherChars vs = vs.flatMap fun v => [] ++ ',' :: ' ' :: v.chars := by
  induction vs with
  | nil => rfl
  | cons v vs ih => rw [SettingValue.furtherChars, ih, List.flatMap_cons]; rfl

theorem yields_valueList (hreads : ∀ w ∈ v :: vs, ReadsValue p w)
    (hclose : close = ')' ∨ close = ']') (rest : List Char) :
    (valueList p).Yields (SettingValue.rowChars (v :: vs) ++ close :: rest)
      fun as r => as = v :: vs ∧ afterGap r = close :: rest := by
  have hends : EndsValue (close :: rest) := endsValue_cons (.inr hclose) rest
  have hsolid : isSolid close = true := by rcases hclose with rfl | rfl <;> rfl
  have hstop : afterGap (close :: rest) = close :: rest := afterGap_of_isSolid hsolid
  have hitems : ReadsItems (do exactly ","; gapThen p) [] (fun v => ',' :: ' ' :: v.chars)
      (fun v a => v = a) EndsValue vs := {
    gap := List.forall_mem_nil _
    solid := fun _ _ => rfl
    follows := fun _ _ _ => endsValue_cons (.inl rfl) _
    reads := by
      intro w hw following hfollowing
      obtain ⟨hhead, hvalue⟩ := hreads w (List.mem_cons_of_mem _ hw)
      refine (yields_exactly "," _).bind fun _ r hr => ?_
      subst hr
      have hgap : afterGap (' ' :: (w.chars ++ following)) = w.chars ++ following := by
        rw [afterGap_cons_of_isGap (by rfl), afterGap_append_of_isSolid hhead]
      refine Yields.afterGap (hgap ▸ ?_)
      exact (hvalue following hfollowing).mono fun a r ⟨ha, hr⟩ => ⟨ha, by rw [hr]⟩ }
  have hrefuse : (do exactly ","; gapThen p).Refuses (afterGap (close :: rest)) := by
    rw [hstop]
    exact (refuses_exactly_of_head (c := ',') rfl (by rcases hclose with rfl | rfl <;> simp)).bind _
  rw [SettingValue.rowChars, furtherChars_eq, List.append_assoc]
  refine ((hreads v List.mem_cons_self).2 _ (hitems.follows_items hends)).bind ?_
  rintro a r ⟨rfl, rfl⟩
  refine Yields.afterGap ((hitems.many hends hrefuse).bind ?_)
  rintro as r ⟨has, hr⟩
  rw [List.forall₂_eq_eq_eq] at has
  exact yields_pure ⟨by rw [has], hr.trans hstop⟩

/-- Values in a row, of which there may be none. -/
theorem yields_optional_values {q : Parser (List SettingValue)} (hreads : ∀ w ∈ vs, ReadsValue p w)
    (rest : List Char) (hclose : close = ')' ∨ close = ']')
    (hrefuse : q.Refuses (close :: rest)) (hyields : vs ≠ [] →
      q.Yields (SettingValue.rowChars vs ++ close :: rest)
        fun as r => as = vs ∧ afterGap r = close :: rest) :
    (gapThen (optional q)).Yields (SettingValue.rowChars vs ++ close :: rest)
      fun o r => o.getD [] = vs ∧ afterGap r = close :: rest := by
  have hstop : afterGap (close :: rest) = close :: rest :=
    afterGap_of_isSolid (by rcases hclose with rfl | rfl <;> rfl)
  refine Yields.afterGap ?_
  cases vs with
  | nil =>
      rw [SettingValue.rowChars, List.nil_append, hstop]
      refine hrefuse.optional.mono ?_
      rintro o r ⟨rfl, rfl⟩
      exact ⟨rfl, hstop⟩
  | cons v vs =>
      have hgap : afterGap (SettingValue.rowChars (v :: vs) ++ close :: rest) =
          SettingValue.rowChars (v :: vs) ++ close :: rest := by
        rw [SettingValue.rowChars, List.append_assoc,
          afterGap_append_of_isSolid (hreads v List.mem_cons_self).1]
      rw [hgap]
      refine (hyields (List.cons_ne_nil _ _)).optional.mono ?_
      rintro o r ⟨as, rfl, has, hr⟩
      exact ⟨has, hr⟩

theorem refuses_valueList (hrefuse : p.Refuses (close :: rest)) :
    (valueList p).Refuses (close :: rest) :=
  hrefuse.bind _

theorem yields_functionCall {function : String} (hfunction : IsIdentifier function)
    (hreads : ∀ w ∈ vs, ReadsValue p w) (hrefuse : ∀ cs, p.Refuses (')' :: cs))
    (rest : List Char) :
    (functionCall p).Yields ((SettingValue.call function vs).chars ++ rest)
      fun a r => SettingValue.call function vs = a ∧ r = rest := by
  have hvalues := yields_optional_values hreads rest (.inl rfl)
    (refuses_valueList (hrefuse rest)) fun hne => by
      obtain ⟨v, vs, rfl⟩ := List.exists_cons_of_ne_nil hne
      exact yields_valueList hreads (.inl rfl) rest
  have hchars : (SettingValue.call function vs).chars ++ rest =
      function.toList ++ '(' :: (SettingValue.rowChars vs ++ ')' :: rest) := by
    simp [SettingValue.chars]
  rw [hchars]
  refine Yields.symbol ((yields_identifier hfunction (by rfl)).bind ?_) _
  rintro i r ⟨hname, rfl⟩
  refine (yields_mark "(" _ (afterGap_of_isSolid (by decide : isSolid '(' = true))).bind ?_
  rintro _ r rfl
  refine hvalues.bind ?_
  rintro o r ⟨hvs, hr⟩
  refine (yields_mark ")" rest hr).bind ?_
  rintro _ r rfl
  exact yields_pure ⟨by rw [hname, hvs], rfl⟩

/-- An array may have a comma behind its values, but is not written so. -/
theorem yields_array (hreads : ∀ w ∈ vs, ReadsValue p w) (hrefuse : ∀ cs, p.Refuses (']' :: cs))
    (rest : List Char) :
    (array p).Yields ((SettingValue.array vs).chars ++ rest)
      fun a r => SettingValue.array vs = a ∧ r = rest := by
  have hsolid : afterGap (']' :: rest) = ']' :: rest := afterGap_of_isSolid (by rfl)
  have hvalues := yields_optional_values hreads rest (.inr rfl)
    ((refuses_valueList (hrefuse rest)).bind fun values => do
      let _ ← gapThen (optional (exactly ","))
      return values) fun hne => by
        obtain ⟨v, vs, rfl⟩ := List.exists_cons_of_ne_nil hne
        refine (yields_valueList hreads (.inr rfl) rest).bind ?_
        rintro as r ⟨has, hr⟩
        have hcomma : (exactly ",").Refuses (']' :: rest) :=
          refuses_exactly_of_head (c := ',') rfl (by simp)
        refine (yields_gapThen hr hcomma.optional).bind ?_
        rintro o r ⟨_, rfl⟩
        exact yields_pure ⟨has, hsolid⟩
  have hchars : (SettingValue.array vs).chars ++ rest =
      '[' :: (SettingValue.rowChars vs ++ ']' :: rest) := by
    simp [SettingValue.chars]
  rw [hchars]
  refine Yields.symbol ((yields_exactly "[" _).bind ?_) _
  rintro _ r rfl
  refine hvalues.bind ?_
  rintro o r ⟨hvs, hr⟩
  refine (yields_mark "]" rest hr).bind ?_
  rintro _ r rfl
  exact yields_pure ⟨by rw [hvs], rfl⟩

end Rows

theorem yields_stringLiteral (s : String) (rest : List Char) :
    stringLiteral.Yields (quoted s ++ rest) fun a r => SettingValue.string s = a ∧ r = rest := by
  have hchars : quoted s ++ rest = '"' :: (escape s.toList ++ '"' :: rest) := by simp [quoted]
  rw [hchars]
  refine Yields.symbol ((yields_exactly "\"" _).bind ?_) _
  rintro _ r rfl
  refine ((yields_lexeme (congrArg some (stringInner_escape _ _))).symbol _).bind ?_
  rintro i r ⟨hname, rfl⟩
  refine (yields_exactly "\"" rest).bind ?_
  rintro _ r rfl
  refine yields_pure ⟨?_, rfl⟩
  rw [hname, String.toList_ofList, unescape_escape, String.ofList_toList]

section Plain

variable {s : String} {rest : List Char}

theorem yields_plainValue_number (h : IsNumeral s) (hrest : EndsValue rest) :
    plainValue.Yields (s.toList ++ rest) fun a r => SettingValue.number s = a ∧ r = rest := by
  have hnumber := yields_lexeme (number_append h hrest.digit hrest.point)
  refine Yields.orElse ((hnumber.symbol _).bind ?_) _
  rintro i r ⟨hname, rfl⟩
  exact yields_pure ⟨by rw [hname, String.ofList_toList], rfl⟩

theorem refuses_number (h : IsIdentifier s) :
    (symbol .number (lexeme Lexeme.number)).Refuses (s.toList ++ rest) := by
  refine (refuses_lexeme (number_eq_none ?_)).symbol _
  obtain ⟨c, w, heq, hc, _⟩ := isWord_iff.mp h
  rw [heq]
  exact hc

theorem boolean_append (b : Bool) (hrest : rest.head?.any isWordChar = false) :
    Lexeme.boolean ((toString b).toList ++ rest) = some ((toString b).toList, rest) := by
  have hsame : Lexeme.wholeWord (toString b) ((toString b).toList ++ rest) =
      some ((toString b).toList, rest) := wholeWord_append hrest
  cases b with
  | true => exact congrArg (Option.or · _) hsame
  | false =>
      have hother : Lexeme.wholeWord "true" ((toString false).toList ++ rest) = none :=
        wholeWord_eq_none (List.all_eq_true.mp rfl) (List.all_eq_true.mp rfl) hrest (by decide)
      rw [Lexeme.boolean, hother]
      exact hsame

theorem yields_plainValue_boolean (b : Bool) (hrest : EndsValue rest) :
    plainValue.Yields ((toString b).toList ++ rest)
      fun a r => SettingValue.boolean b = a ∧ r = rest := by
  refine Refuses.orElse_yields ((refuses_number (isIdentifier_boolean b)).bind _)
    (Yields.orElse ?_ _)
  refine ((yields_lexeme (boolean_append b hrest.word)).symbol _).bind ?_
  rintro i r ⟨hname, rfl⟩
  refine yields_pure ⟨?_, rfl⟩
  rw [hname, String.ofList_toList]
  cases b <;> rfl

/-- A name that is no truth value is not taken for one. -/
theorem boolean_eq_none (h : IsPlainName s) (hrest : rest.head?.any isWordChar = false) :
    Lexeme.boolean (s.toList ++ rest) = none := by
  obtain ⟨hword, htrue, hfalse⟩ := h
  have hall : ∀ c ∈ s.toList, isWordChar c = true := fun c => isWordChar_of_mem hword
  have htrue' : Lexeme.wholeWord "true" (s.toList ++ rest) = none :=
    wholeWord_eq_none (List.all_eq_true.mp rfl) hall hrest (mt String.toList_inj.mp htrue)
  have hfalse' : Lexeme.wholeWord "false" (s.toList ++ rest) = none :=
    wholeWord_eq_none (List.all_eq_true.mp rfl) hall hrest (mt String.toList_inj.mp hfalse)
  rw [Lexeme.boolean, htrue', hfalse']
  rfl

theorem yields_plainValue_ident (h : IsPlainName s) (hrest : EndsValue rest) :
    plainValue.Yields (s.toList ++ rest) fun a r => SettingValue.ident s = a ∧ r = rest := by
  have hboolean := boolean_eq_none h hrest.word
  refine Refuses.orElse_yields ((refuses_number h.1).bind _)
    (Refuses.orElse_yields (((refuses_lexeme hboolean).symbol _).bind _) (Yields.orElse ?_ _))
  refine (yields_identifier h.1 hrest.word).bind ?_
  rintro i r ⟨hname, rfl⟩
  exact yields_pure ⟨by rw [hname], rfl⟩

end Plain

/-- The alternatives for a value that may be nested once more. -/
theorem value_succ (depth : Nat) : value (depth + 1) =
    first [functionCall (value depth), array (value depth), stringLiteral, plainValue] :=
  rfl

section Alternatives

variable {cs rest : List Char} {s : String} {depth : Nat} {Q : SettingValue → List Char → Prop}

theorem yields_value_of_plain {c : Char} (hc : c ≠ '[' ∧ c ≠ '"')
    (hcall : (functionCall (value depth)).Refuses (c :: cs)) (h : plainValue.Yields (c :: cs) Q) :
    (value (depth + 1)).Yields (c :: cs) Q := by
  rw [value_succ]
  exact hcall.orElse_yields ((refuses_array (by simpa using hc.1)).orElse_yields
    ((refuses_stringLiteral (by simpa using hc.2)).orElse_yields (h.orElse _)))

/-- A word is read as a truth value or a name when no call follows. -/
theorem yields_value_of_word (hword : IsIdentifier s) (hrest : EndsValue rest)
    (h : plainValue.Yields (s.toList ++ rest) Q) :
    (value (depth + 1)).Yields (s.toList ++ rest) Q := by
  have hcall : (functionCall (value depth)).Refuses (s.toList ++ rest) :=
    refuses_functionCall_word hword hrest.word hrest.call
  obtain ⟨c, w, heq, hc, _⟩ := isWord_iff.mp hword
  rw [heq, List.cons_append] at hcall h ⊢
  refine yields_value_of_plain ⟨?_, ?_⟩ hcall h <;> (rintro rfl; exact absurd hc (by decide))

end Alternatives

theorem length_le_rowChars {w : SettingValue} {vs : List SettingValue} (hw : w ∈ vs) :
    w.chars.length ≤ (SettingValue.rowChars vs).length := by
  cases vs with
  | nil => cases hw
  | cons v vs =>
      rw [SettingValue.rowChars, List.length_append]
      rcases List.mem_cons.mp hw with rfl | hw
      · omega
      · have hmem := List.mem_map_of_mem (f := fun v => [] ++ ',' :: ' ' :: SettingValue.chars v) hw
        have hle := (List.sublist_flatten_of_mem hmem).length_le
        rw [furtherChars_eq, List.flatMap_def]
        simp only [List.nil_append, List.length_cons] at hle ⊢
        omega

theorem exists_succ_of_isWritable {v : SettingValue} (h : v.IsWritable) {depth : Nat}
    (hdepth : v.chars.length ≤ depth) : ∃ n, depth = n + 1 := by
  have hhead := isSolid_head_of_isWritable h
  have hpos : 0 < v.chars.length := by
    cases hchars : v.chars with
    | nil => simp [hchars] at hhead
    | cons => simp
  exact ⟨depth - 1, by omega⟩

section Nested

variable {depth : Nat} {values : List SettingValue}

theorem readsValue_string (s : String) (depth : Nat) :
    ReadsValue (value (depth + 1)) (.string s) := by
  refine ⟨rfl, fun rest _ => ?_⟩
  rw [value_succ]
  exact (refuses_functionCall (by rfl)).orElse_yields
    ((refuses_array (by simp [SettingValue.chars, quoted])).orElse_yields
      ((yields_stringLiteral s rest).orElse _))

theorem readsValue_number {text : String} (h : IsNumeral text) (depth : Nat) :
    ReadsValue (value (depth + 1)) (.number text) := by
  refine ⟨isSolid_head_of_isWritable (.number h), fun rest hrest => ?_⟩
  have hplain := yields_plainValue_number h hrest
  obtain ⟨c, cs, heq, hc⟩ := isNumeral_head h
  rw [heq, List.cons_append] at hplain
  rw [SettingValue.chars, heq, List.cons_append]
  refine yields_value_of_plain ⟨?_, ?_⟩ (refuses_functionCall ?_) hplain
  · rintro rfl
    exact absurd hc (by decide)
  · rintro rfl
    exact absurd hc (by decide)
  · rcases hc with rfl | hdigit
    · rfl
    · exact isWordStart_of_isDigit hdigit

theorem readsValue_array (hwritable : ∀ v ∈ values, v.IsWritable)
    (h : ∀ v ∈ values, ReadsValue (value depth) v) :
    ReadsValue (value (depth + 1)) (.array values) := by
  refine ⟨isSolid_head_of_isWritable (.array hwritable), fun rest _ => ?_⟩
  rw [value_succ]
  exact (refuses_functionCall (by rfl)).orElse_yields
    ((yields_array h (refuses_value (.inr rfl) depth) rest).orElse _)

theorem readsValue_call {function : String} (hfunction : IsIdentifier function)
    (hwritable : ∀ v ∈ values, v.IsWritable) (h : ∀ v ∈ values, ReadsValue (value depth) v) :
    ReadsValue (value (depth + 1)) (.call function values) := by
  refine ⟨isSolid_head_of_isWritable (.call hfunction hwritable), fun rest _ => ?_⟩
  rw [value_succ]
  exact (yields_functionCall hfunction h (refuses_value (.inl rfl) depth) rest).orElse _

/-- A value is shorter than the brackets that it stands in. -/
theorem length_le_of_mem {v : SettingValue} (before : List Char) {c d : Char} (hv : v ∈ values)
    (h : (before ++ c :: (SettingValue.rowChars values ++ [d])).length ≤ depth + 1) :
    v.chars.length ≤ depth := by
  have hle := length_le_rowChars hv
  simp only [List.length_append, List.length_cons] at h
  omega

end Nested

/-- A value is read by a parser for values that are at least as deeply nested. -/
theorem readsValue {v : SettingValue} (h : v.IsWritable) :
    ∀ depth, v.chars.length ≤ depth → ReadsValue (value depth) v := by
  induction h with
  | string s =>
      intro depth hdepth
      obtain ⟨depth, rfl⟩ := exists_succ_of_isWritable (.string s) hdepth
      exact readsValue_string s depth
  | number h =>
      intro depth hdepth
      obtain ⟨depth, rfl⟩ := exists_succ_of_isWritable (.number h) hdepth
      exact readsValue_number h depth
  | boolean b =>
      intro depth hdepth
      obtain ⟨depth, rfl⟩ := exists_succ_of_isWritable (.boolean b) hdepth
      refine ⟨isSolid_head_of_isWritable (.boolean b), fun rest hrest => ?_⟩
      exact yields_value_of_word (isIdentifier_boolean b) hrest (yields_plainValue_boolean b hrest)
  | ident h =>
      intro depth hdepth
      obtain ⟨depth, rfl⟩ := exists_succ_of_isWritable (.ident h) hdepth
      refine ⟨isSolid_head_of_isWritable (.ident h), fun rest hrest => ?_⟩
      exact yields_value_of_word h.1 hrest (yields_plainValue_ident h hrest)
  | array h ih =>
      intro depth hdepth
      obtain ⟨depth, rfl⟩ := exists_succ_of_isWritable (.array h) hdepth
      exact readsValue_array h fun w hw => ih w hw depth (length_le_of_mem [] hw hdepth)
  | call hfunction h ih =>
      intro depth hdepth
      obtain ⟨depth, rfl⟩ := exists_succ_of_isWritable (.call hfunction h) hdepth
      exact readsValue_call hfunction h fun w hw => ih w hw depth (length_le_of_mem _ hw hdepth)

/-- The depth that the length of the text allows for is enough. -/
theorem yields_anyValue {v : SettingValue} (h : v.IsWritable) {rest : List Char}
    (hrest : EndsValue rest) : anyValue.Yields (v.chars ++ rest) fun a r => v = a ∧ r = rest := by
  intro offset trail
  have hdepth : v.chars.length ≤ (v.chars ++ rest).length + 1 := by simp; omega
  exact (readsValue h _ hdepth).2 rest hrest offset trail

theorem yields_assignment {key : String} {v : SettingValue} (hkey : IsIdentifier key)
    (h : v.IsWritable) {rest : List Char} (hrest : EndsValue rest) :
    assignment.Yields (key.toList ++ " = ".toList ++ v.chars ++ rest)
      fun m r => (∃ span, m = .property key v span) ∧ r = rest := by
  have hgap : afterGap (' ' :: (v.chars ++ rest)) = v.chars ++ rest := by
    rw [afterGap_cons_of_isGap (by rfl), afterGap_append_of_isSolid (isSolid_head_of_isWritable h)]
  have hequals : afterGap (' ' :: '=' :: ' ' :: (v.chars ++ rest)) =
      '=' :: ' ' :: (v.chars ++ rest) := by
    rw [afterGap_cons_of_isGap (by rfl), afterGap_of_isSolid (by rfl)]
  have hbody : (symbol .assignment do
      let key ← identifier
      gapThen (exactly "=")
      let value ← gapThen anyValue
      return (key, value)).Yields (key.toList ++ ' ' :: '=' :: ' ' :: (v.chars ++ rest))
        fun a r => (a.1.name = key ∧ a.2 = v) ∧ r = rest := by
    refine Yields.symbol ((yields_identifier hkey (by rfl)).bind ?_) _
    rintro i r ⟨hname, rfl⟩
    refine (yields_mark "=" _ hequals).bind ?_
    rintro _ r rfl
    refine (yields_gapThen hgap (yields_anyValue h hrest)).bind ?_
    rintro a r ⟨rfl, rfl⟩
    exact yields_pure ⟨⟨hname, rfl⟩, rfl⟩
  have hchars : key.toList ++ " = ".toList ++ v.chars ++ rest =
      key.toList ++ ' ' :: '=' :: ' ' :: (v.chars ++ rest) := by simp
  rw [hchars]
  refine hbody.located.bind ?_
  rintro ⟨⟨i, a⟩, span⟩ r ⟨⟨rfl, rfl⟩, rfl⟩
  exact yields_pure ⟨⟨span, rfl⟩, rfl⟩

end SchemaMigration.Grammar
