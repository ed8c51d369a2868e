import SchemaMigration.Proofs.Fallible
import SchemaMigration.Proofs.Schema.ArgumentText.Literal

/-! # Written arguments

The text of arguments that can be written is balanced and trimmed, and the name of their attribute
gives it back its meaning.
-/

namespace SchemaMigration

open ArgumentText
open Grammar (after?_eq_some_iff dropWhile_append_of_head dropWhile_of_head escape
  insideString_escape isBlank_of_isWordChar isSpace_of_isWordChar isWordChar_of_mem quoted row
  takeWhile_append_of_head unescape_escape word_append)
open Text (after? head_of_stripBy isBlank isSpace isWord isWordChar last_of_stripBy stripBy
  stripBy_append word)

/-! ## Rows -/

section Rows

variable {texts : List (List Char)}

theorem mem_row {c : Char} (h : c ∈ row texts) : c = ',' ∨ c = ' ' ∨ ∃ t ∈ texts, c ∈ t := by
  cases texts with
  | nil => cases h
  | cons t texts =>
      rcases List.mem_append.mp h with h | h
      · exact .inr (.inr ⟨t, List.mem_cons_self, h⟩)
      · obtain ⟨t', ht', hc⟩ := List.mem_flatMap.mp h
        rcases List.mem_cons.mp hc with rfl | hc
        · exact .inl rfl
        · rcases List.mem_cons.mp hc with rfl | hc
          · exact .inr (.inl rfl)
          · exact .inr (.inr ⟨t', List.mem_cons_of_mem _ ht', hc⟩)

theorem balanced_row (h : ∀ t ∈ texts, Balanced true t) : Balanced true (row texts) := by
  induction texts with
  | nil => exact .nil
  | cons t texts ih =>
      have ht := h t List.mem_cons_self
      cases texts with
      | nil => simpa [row] using ht
      | cons t' texts =>
          rw [row_cons_of_ne_nil t (by simp)]
          refine ht.append (.char (by decide) (fun _ => rfl) (.char (by decide) (by decide) ?_))
          exact ih fun t ht => h t (List.mem_cons_of_mem _ ht)

end Rows

/-! ## Calls -/

namespace FunctionCall

variable {c : FunctionCall}

theorem isIdentifier_name (function : DefaultFunction) : IsIdentifier function.name := by
  cases function <;> rfl

theorem trimmed_chars (c : FunctionCall) : Trimmed c.chars :=
  (isIdentifier_name c.function).trimmed.append
    (.of_forall (by simp) (List.forall_mem_singleton.mpr (by decide)))
    ('(' :: row (c.arguments.map String.toList))

theorem balanced_chars (h : c.IsWritable) : Balanced true c.chars := by
  refine ((isIdentifier_name c.function).balanced true).append (.group rfl (balanced_row ?_) .nil)
  rintro t ht
  obtain ⟨a, ha, rfl⟩ := List.mem_map.mp ht
  exact (h a ha).2.allow

theorem pieces_arguments (h : c.IsWritable) (htidy : c.IsTidy) :
    pieces (row (c.arguments.map String.toList)) = c.arguments.map String.toList := by
  rw [pieces_row, List.filter_eq_self]
  · rintro t ht
    obtain ⟨a, ha, rfl⟩ := List.mem_map.mp ht
    simpa using (h a ha).1
  · rintro t ht
    obtain ⟨a, ha, rfl⟩ := List.mem_map.mp ht
    exact ⟨(h a ha).2, htidy a ha⟩

theorem defaultValue_chars (h : c.IsWritable) (htidy : c.IsTidy) :
    defaultValue c.chars = .ok (.call c) := by
  have hcall : call? c.chars =
      some (c.function.name, row (c.arguments.map String.toList)) := by
    rw [call?, chars, word_append (isIdentifier_name c.function) (by rfl), Option.bind_some]
    simp only [List.dropWhile_cons, show isSpace '(' = false by decide]
    simp [String.ofList_toList]
  have hfunction : DefaultFunction.ofName? c.function.name = some c.function := by
    cases c.function <;> rfl
  simp only [defaultValue, hcall, hfunction, pieces_arguments h htidy, List.map_map]
  simp [Function.comp_def, String.ofList_toList]

end FunctionCall

/-! ## Lists of names -/

section Names

variable {names : List String}

theorem fieldNames_of_pieces {list : List Char} (h : ∀ f ∈ names, IsIdentifier f)
    (hpieces : pieces list = names.map String.toList) : fieldNames list = .ok names := by
  rw [fieldNames, hpieces, mapM_eq_ok_iff, List.forall₂_map_left_iff, List.forall₂_same]
  intro f hf
  rw [if_pos (show isWord f.toList = true from h f hf), String.ofList_toList]

theorem fieldNames_row (h : ∀ f ∈ names, IsIdentifier f) :
    fieldNames (row (names.map String.toList)) = .ok names := by
  refine fieldNames_of_pieces h ?_
  rw [pieces_row, List.filter_eq_self]
  · rintro t ht
    obtain ⟨f, hf, rfl⟩ := List.mem_map.mp ht
    simpa using (h f hf).ne_nil
  · rintro t ht
    obtain ⟨f, hf, rfl⟩ := List.mem_map.mp ht
    exact ⟨(h f hf).balanced false, (h f hf).trimmed.strip_eq⟩

theorem fieldNames?_listed? (h : ∀ f ∈ names, IsIdentifier f) :
    fieldNames? ((listed? names).map fun names => row (names.map String.toList)) = .ok names := by
  unfold listed?
  split
  next hnil => rw [hnil]; rfl
  next => exact fieldNames_row h

theorem not_mem_names (h : ∀ f ∈ names, IsIdentifier f) {c : Char} (hc : isWordChar c = false)
    (hcomma : c ≠ ',') (hblank : c ≠ ' ') : c ∉ row (names.map String.toList) := by
  intro hmem
  rcases mem_row hmem with rfl | rfl | ⟨t, ht, hmem⟩
  · exact hcomma rfl
  · exact hblank rfl
  · obtain ⟨f, hf, rfl⟩ := List.mem_map.mp ht
    exact (h f hf).not_mem hc hmem

theorem colon_not_mem_namesChars (h : ∀ f ∈ names, IsIdentifier f) : ':' ∉ namesChars names := by
  have hrow := not_mem_names h (c := ':') (by decide) (by decide) (by decide)
  simp [namesChars, hrow]

theorem bracketed_append {inner : List Char} (h : ']' ∉ inner) (rest : List Char) :
    bracketed ('[' :: (inner ++ ']' :: rest)) = some (inner, rest) := by
  have hall : ∀ c ∈ inner, (c != ']') = true := by
    rintro c hc
    rw [bne_iff_ne]
    rintro rfl
    exact h hc
  have hstop : (']' :: rest).head?.any (· != ']') = false := rfl
  have htake := takeWhile_append_of_head hall hstop
  have hdrop := dropWhile_append_of_head hall hstop
  simp only [bracketed, hdrop, htake]

theorem bracketed_namesChars (h : ∀ f ∈ names, IsIdentifier f) (rest : List Char) :
    bracketed (namesChars names ++ rest) = some (row (names.map String.toList), rest) := by
  have hclose := not_mem_names h (c := ']') (by decide) (by decide) (by decide)
  rw [← bracketed_append hclose rest]
  simp [namesChars]

theorem trimmed_namesChars (names : List String) : Trimmed (namesChars names) where
  head := ⟨'[', rfl, by decide⟩
  last := ⟨']', by rw [namesChars, ← List.cons_append, List.getLast?_concat]; rfl, by decide⟩

theorem balanced_namesChars (h : ∀ f ∈ names, IsIdentifier f) :
    Balanced true (namesChars names) := by
  refine .group rfl (balanced_row ?_) .nil
  rintro t ht
  obtain ⟨f, hf, rfl⟩ := List.mem_map.mp ht
  exact (h f hf).balanced true

end Names

/-! ## Labelled arguments -/

section Labelled

variable {label label' : String} {value : Text.Scanner}

theorem isLabel_name : IsLabel "name" :=
  ⟨by decide, List.all_eq_true.mp rfl⟩

/-- A label finds its argument when the form of its value reads the value. -/
theorem finds_labelled {text inner : List Char}
    (hhead : ∀ rest, (text ++ rest).head?.any isSpace = false)
    (h : ∀ rest, Ends rest → value (text ++ rest) = some (inner, rest)) :
    (labelled label value : Form).Finds (labelledChars label text) inner := by
  refine ⟨by simp [labelledChars], fun rest hrest => ?_⟩
  have hlabelled : after? label.toList (labelledChars label text ++ rest) =
      some (':' :: ' ' :: (text ++ rest)) := after?_eq_some_iff.mpr (by simp [labelledChars])
  rw [labelled, if_neg Bool.false_ne_true, hlabelled, Option.bind_some,
    dropWhile_of_head (by rfl), after?_eq_some_iff.mpr (List.singleton_append).symm,
    Option.bind_some, List.dropWhile_cons_of_pos (by rfl), dropWhile_of_head (hhead rest),
    h rest hrest]

theorem finds_name (s : String) :
    (labelled "name" quotedString : Form).Finds (labelledChars "name" (quoted s))
      (escape s.toList) := by
  refine finds_labelled (fun _ => rfl) fun rest _ => ?_
  rw [quoted, List.cons_append, List.append_assoc, List.cons_append, List.nil_append, quotedString,
    insideString_escape]

theorem finds_list {names : List String} (h : ∀ f ∈ names, IsIdentifier f) :
    (labelled label bracketed : Form).Finds (labelledChars label (namesChars names))
      (row (names.map String.toList)) :=
  finds_labelled (fun _ => rfl) fun rest _ => bracketed_namesChars h rest

theorem finds_action {action : String} (h : IsIdentifier action) :
    (labelled label word : Form).Finds (labelledChars label action.toList) action.toList := by
  refine finds_labelled (fun rest => ?_) fun rest hrest => word_append h ?_
  · rw [List.head?_append_of_ne_nil _ h.ne_nil, List.head?_eq_some_head h.ne_nil]
    exact isSpace_of_isWordChar (isWordChar_of_mem h (List.head_mem _))
  · cases rest with
    | nil => rfl
    | cons c rest =>
        cases hrest c rfl
        rfl

variable {α : Type} {text : α → List Char} {o : Option α}

/-- A label misses an argument with another label. -/
theorem misses_part (value : Text.Scanner) (hlabel : IsLabel label) (hlabel' : IsLabel label')
    (hne : ¬label.toList <:+ label'.toList) (h : ∀ a ∈ o, ':' ∉ text a) :
    ∀ t ∈ part label' (o.map text), (labelled label value : Form).Misses t := by
  intro t ht
  cases o with
  | none => cases ht
  | some a =>
      cases List.mem_singleton.mp ht
      exact hlabel.misses_labelledChars hlabel' hne (h a rfl)

theorem eq_nil_of_mem_taken {t : List Char} (h : t ∈ taken o) : t = [] := by
  cases o with
  | none => cases h
  | some a => exact List.mem_singleton.mp h

theorem misses_taken (form : Form) (o : Option α) : ∀ t ∈ taken o, form.Misses t := by
  intro t ht
  rw [eq_nil_of_mem_taken ht]
  exact Form.misses_nil form

theorem eq_of_mem_listed? {names listed : List String} (h : listed ∈ listed? names) :
    listed = names := by
  unfold listed? at h
  split at h
  · cases h
  · exact (Option.some.inj h).symm

end Labelled

/-! ## Relations, field lists and check constraints -/

theorem map_unescaped_escape (name : Option String) :
    (name.map fun s => escape s.toList).map unescaped = name := by
  cases name <;> simp [unescaped, unescape_escape, String.ofList_toList]

theorem map_ofList_toList (action : Option String) :
    (action.map fun s => s.toList).map String.ofList = action := by
  cases action <;> simp [String.ofList_toList]

namespace RelationArgs

variable {r : RelationArgs} {label : String} {value : Text.Scanner}

theorem isLabel_fields : IsLabel "fields" :=
  ⟨by decide, List.all_eq_true.mp rfl⟩

theorem isLabel_references : IsLabel "references" :=
  ⟨by decide, List.all_eq_true.mp rfl⟩

theorem isLabel_onDelete : IsLabel "onDelete" :=
  ⟨by decide, List.all_eq_true.mp rfl⟩

theorem isLabel_onUpdate : IsLabel "onUpdate" :=
  ⟨by decide, List.all_eq_true.mp rfl⟩

/-- A label misses a list of names with another label. -/
theorem misses_names {label' : String} {names : List String} (h : ∀ f ∈ names, IsIdentifier f)
    (hlabel : IsLabel label) (hlabel' : IsLabel label') (hne : ¬label.toList <:+ label'.toList) :
    ∀ t ∈ part label' ((listed? names).map namesChars), (labelled label value : Form).Misses t :=
  misses_part value hlabel hlabel' hne
    fun _ hl => colon_not_mem_namesChars (eq_of_mem_listed? hl ▸ h)

/-- A label misses an action with another label. -/
theorem misses_action {label' : String} {action : Option String}
    (h : ∀ a ∈ action, IsIdentifier a) (hlabel : IsLabel label) (hlabel' : IsLabel label')
    (hne : ¬label.toList <:+ label'.toList) :
    ∀ t ∈ part label' (action.map String.toList), (labelled label value : Form).Misses t :=
  misses_part value hlabel hlabel' hne fun a ha => (h a ha).not_mem (by decide)

theorem extract_names {names : List String} (h : ∀ f ∈ names, IsIdentifier f)
    (hlabel : IsLabel label) {before after : List (List Char)}
    (hbefore : ∀ t ∈ before, (labelled label bracketed : Form).Misses t)
    (hafter : ∀ t ∈ after, (labelled label bracketed : Form).Misses t) :
    extractOptional (labelled label bracketed)
        (row (before ++ part label ((listed? names).map namesChars) ++ after)) =
      ((listed? names).map fun l => row (l.map String.toList),
        row (before ++ taken (listed? names) ++ after)) :=
  hlabel.extractOptional_part (fun _ hl => finds_list (eq_of_mem_listed? hl ▸ h)) hbefore hafter

/-- The labelled arguments are taken out one by one, until only the commas are left. -/
theorem relation_parts (h : r.IsWritable) : relation (row r.parts) = .ok r := by
  have hname := isLabel_name.extractOptional_part (fun s (_ : s ∈ r.name) => finds_name s)
    (List.forall_mem_append.mpr
      ⟨misses_names h.fields isLabel_name isLabel_fields (by decide),
        misses_names h.references isLabel_name isLabel_references (by decide)⟩)
    (List.forall_mem_append.mpr
      ⟨misses_action h.onDelete isLabel_name isLabel_onDelete (by decide),
        misses_action h.onUpdate isLabel_name isLabel_onUpdate (by decide)⟩)
  have hfields := extract_names h.fields isLabel_fields (List.forall_mem_nil _)
    (List.forall_mem_append.mpr
      ⟨misses_names h.references isLabel_fields isLabel_references (by decide),
        List.forall_mem_append.mpr ⟨misses_taken _ r.name, List.forall_mem_append.mpr
          ⟨misses_action h.onDelete isLabel_fields isLabel_onDelete (by decide),
            misses_action h.onUpdate isLabel_fields isLabel_onUpdate (by decide)⟩⟩⟩)
  have hreferences := extract_names h.references isLabel_references
    (misses_taken _ (listed? r.fields))
    (List.forall_mem_append.mpr ⟨misses_taken _ r.name, List.forall_mem_append.mpr
      ⟨misses_action h.onDelete isLabel_references isLabel_onDelete (by decide),
        misses_action h.onUpdate isLabel_references isLabel_onUpdate (by decide)⟩⟩)
  have honDelete := isLabel_onDelete.extractOptional_part
    (fun action ha => finds_action (h.onDelete action ha))
    (List.forall_mem_append.mpr ⟨misses_taken _ (listed? r.fields),
      List.forall_mem_append.mpr ⟨misses_taken _ (listed? r.references), misses_taken _ r.name⟩⟩)
    (misses_action h.onUpdate isLabel_onDelete isLabel_onUpdate (by decide))
  have honUpdate := isLabel_onUpdate.extractOptional_part
    (fun action ha => finds_action (h.onUpdate action ha))
    (List.forall_mem_append.mpr ⟨misses_taken _ (listed? r.fields),
      List.forall_mem_append.mpr ⟨misses_taken _ (listed? r.references),
        List.forall_mem_append.mpr ⟨misses_taken _ r.name, misses_taken _ r.onDelete⟩⟩⟩)
    (List.forall_mem_nil _)
  simp only [List.append_assoc, List.nil_append, List.append_nil]
    at hname hfields hreferences honDelete honUpdate
  simp only [relation, RelationArgs.parts, nameForm, listForm, actionForm, hname, hfields,
    hreferences, honDelete, honUpdate, fieldNames?_listed? h.fields,
    fieldNames?_listed? h.references, map_unescaped_escape, map_ofList_toList]
  rw [pieces_row_of_nil]
  · rfl
  · simp only [List.forall_mem_append]
    exact ⟨fun _ => eq_nil_of_mem_taken, fun _ => eq_nil_of_mem_taken,
      fun _ => eq_nil_of_mem_taken, fun _ => eq_nil_of_mem_taken, fun _ => eq_nil_of_mem_taken⟩

end RelationArgs

/-- Where no label can begin, a list of fields begins with its bracket. -/
theorem fieldsForm_of_not_isWordChar {c : Char} (hc : isWordChar c = false) (inWord : Bool)
    (cs : List Char) : fieldsForm inWord (c :: cs) = bracketed (c :: cs) := by
  rw [fieldsForm, listForm, RelationArgs.isLabel_fields.labelled_eq_none hc, Option.none_or]

theorem isSolid_fieldsForm : Form.IsSolid fieldsForm :=
  fun inWord cs => ⟨fieldsForm_of_not_isWordChar (by decide) inWord cs,
    fieldsForm_of_not_isWordChar (by decide) inWord cs⟩

theorem finds_fieldsForm {names : List String} (h : ∀ f ∈ names, IsIdentifier f) :
    Form.Finds fieldsForm (namesChars names) (row (names.map String.toList)) :=
  ⟨by simp [namesChars], fun rest _ =>
    (fieldsForm_of_not_isWordChar (by decide) false _).trans (bracketed_namesChars h rest)⟩

theorem FieldListArgs.fieldList_parts {l : FieldListArgs} (h : l.IsWritable) :
    fieldList (row l.parts) = .ok l := by
  have hmisses : ∀ t ∈ [namesChars l.fields], (labelled "name" quotedString : Form).Misses t :=
    List.forall_mem_singleton.mpr
      (isLabel_name.misses_of_not_mem (colon_not_mem_namesChars h))
  have hname := isLabel_name.extractOptional_part (fun s (_ : s ∈ l.name) => finds_name s) hmisses
    (List.forall_mem_nil _)
  have hfields : extractOptional fieldsForm (row (namesChars l.fields :: taken l.name)) =
      (some (row (l.fields.map String.toList)), row ([] :: taken l.name)) := by
    have hrow := (finds_fieldsForm h).extract_row isSolid_fieldsForm (List.forall_mem_nil _)
      (taken l.name)
    rw [List.nil_append, List.nil_append] at hrow
    rw [extractOptional, hrow]
  simp only [List.append_nil, List.singleton_append] at hname
  simp only [fieldList, FieldListArgs.parts, nameForm, hname, hfields, fieldNames?,
    fieldNames_row h, map_unescaped_escape]
  rw [pieces_row_of_nil (List.forall_mem_cons.mpr ⟨rfl, fun _ => eq_nil_of_mem_taken⟩)]
  rfl

/-- A name is missed by a text in which nothing begins to give one. -/
theorem misses_name {s : List Char} (h : extract nameOpening s = none) :
    (labelled "name" quotedString : Form).Misses s := by
  refine isLabel_name.misses_of_extract_eq_none (fun t rest hrest ht => ?_) h
  cases t with
  | nil =>
      cases rest with
      | nil => rfl
      | cons c rest =>
          cases hrest c rfl
          rfl
  | cons c t =>
      have hquote : c ≠ '"' := by
        rintro rfl
        cases ht
      rw [List.cons_append, quotedString]
      rintro cs ⟨⟩
      exact hquote rfl

theorem CheckArgs.check_parts {c : CheckArgs} (h : c.IsWritable) (htidy : c.IsTidy) :
    check (row c.parts) = .ok c := by
  obtain ⟨expression, name⟩ := c
  have hne : expression.toList ≠ [] := by simpa using htidy.given
  suffices hextract : ∃ left, extractOptional nameForm (row (CheckArgs.parts ⟨expression, name⟩)) =
      (name.map fun s => escape s.toList, left) ∧
        stripBy (fun ch => isBlank ch || ch == ',') left = expression.toList by
    obtain ⟨left, hleft, hstrip⟩ := hextract
    simp only [check, hleft, hstrip, map_unescaped_escape, String.ofList_toList]
    rw [if_neg (by simpa using hne)]
  cases name with
  | none =>
      refine ⟨expression.toList, ?_, h.trimmed⟩
      have hunnamed := h.unnamed
      simp only [parts, part, row, Option.map_none, Option.toList_none, List.flatMap_nil,
        List.append_nil, extractOptional, hunnamed]
  | some name =>
      have hmisses : ∀ t ∈ [expression.toList], (labelled "name" quotedString : Form).Misses t :=
        List.forall_mem_singleton.mpr (misses_name (htidy.closed (by simp)))
      have hname := isLabel_name.extractOptional_part
        (fun s (_ : s ∈ some name) => finds_name s) hmisses (List.forall_mem_nil _)
      refine ⟨expression.toList ++ [',', ' '], ?_,
        stripBy_append h.trimmed hne (List.all_eq_true.mp rfl)⟩
      simpa [parts, row, taken, nameForm] using hname

/-! ## Arguments -/

section Parts

variable {label : String} {cs : List Char}

/-- A part of arguments: balanced and trimmed. -/
structure IsPart (cs : List Char) : Prop where
  balanced : Balanced true cs
  trimmed : Trimmed cs

theorem isPart_quoted (s : String) : IsPart (quoted s) :=
  ⟨balanced_quoted s true, trimmed_quoted s⟩

theorem IsIdentifier.isPart {s : String} (h : IsIdentifier s) : IsPart s.toList :=
  ⟨h.balanced true, h.trimmed⟩

theorem isPart_namesChars {names : List String} (h : ∀ f ∈ names, IsIdentifier f) :
    IsPart (namesChars names) :=
  ⟨balanced_namesChars h, trimmed_namesChars names⟩

theorem IsPart.labelled (h : IsPart cs) (hlabel : IsLabel label) :
    IsPart (labelledChars label cs) where
  balanced := by
    have hword : Balanced true label.toList :=
      .of_bare fun c hc => (isBare_of_isWordChar (hlabel.word c hc)).1
    exact hword.append (.char (by decide) (by decide) (.char (by decide) (by decide) h.balanced))
  trimmed := by
    have hword : Trimmed label.toList :=
      .of_forall hlabel.nonempty fun c hc => isBlank_of_isWordChar (hlabel.word c hc)
    exact hword.append h.trimmed [':', ' ']

theorem isPart_of_mem_part {α : Type} {o : Option α} {text : α → List Char} (hlabel : IsLabel label)
    (h : ∀ a ∈ o, IsPart (text a)) : ∀ t ∈ part label (o.map text), IsPart t := by
  intro t ht
  cases o with
  | none => cases ht
  | some a =>
      cases List.mem_singleton.mp ht
      exact (h a rfl).labelled hlabel

theorem isPart_row {texts : List (List Char)} (hne : texts ≠ []) (h : ∀ t ∈ texts, IsPart t) :
    IsPart (row texts) :=
  ⟨balanced_row fun t ht => (h t ht).balanced, .row hne fun t ht => (h t ht).trimmed⟩

theorem RelationArgs.isPart_of_mem_parts {r : RelationArgs} (h : r.IsWritable) :
    ∀ t ∈ r.parts, IsPart t := by
  have hlisted {names : List String} (hnames : ∀ f ∈ names, IsIdentifier f) :
      ∀ l ∈ listed? names, IsPart (namesChars l) :=
    fun l hl => isPart_namesChars (eq_of_mem_listed? hl ▸ hnames)
  simp only [parts, List.forall_mem_append]
  exact ⟨isPart_of_mem_part isLabel_fields (hlisted h.fields),
    isPart_of_mem_part isLabel_references (hlisted h.references),
    isPart_of_mem_part isLabel_name fun s _ => isPart_quoted s,
    isPart_of_mem_part isLabel_onDelete fun action ha => (h.onDelete action ha).isPart,
    isPart_of_mem_part isLabel_onUpdate fun action ha => (h.onUpdate action ha).isPart⟩

theorem RelationArgs.parts_ne_nil {r : RelationArgs} (h : r.IsWritable) : r.parts ≠ [] := by
  obtain ⟨fields, references, name, onDelete, onUpdate⟩ := r
  have hnil {α : Type} {o : Option α} {label : String} {text : α → List Char}
      (hpart : part label (o.map text) = []) : o = none := by
    cases o with
    | none => rfl
    | some a => cases hpart
  have hlisted {names : List String} (hnone : listed? names = none) : names = [] := by
    unfold listed? at hnone
    split at hnone
    · assumption
    · cases hnone
  intro hparts
  simp only [parts, List.append_eq_nil_iff] at hparts
  obtain ⟨hfields, hreferences, hname, hdelete, hupdate⟩ := hparts
  refine h.given ?_
  rw [hlisted (hnil hfields), hlisted (hnil hreferences), hnil hname, hnil hdelete, hnil hupdate]

theorem FieldListArgs.isPart_of_mem_parts {l : FieldListArgs} (h : l.IsWritable) :
    ∀ t ∈ l.parts, IsPart t :=
  List.forall_mem_cons.mpr ⟨isPart_namesChars h,
    isPart_of_mem_part isLabel_name fun s _ => isPart_quoted s⟩

theorem CheckArgs.isPart_of_mem_parts {c : CheckArgs} (h : c.IsWritable) (htidy : c.IsTidy) :
    ∀ t ∈ c.parts, IsPart t := by
  have hne : c.expression.toList ≠ [] := by simpa using htidy.given
  have hhead := head_of_stripBy h.trimmed _ (List.head?_eq_some_head hne)
  have hlast := last_of_stripBy h.trimmed _ (List.getLast?_eq_some_getLast hne)
  have hexpression : Trimmed c.expression.toList :=
    ⟨⟨_, List.head?_eq_some_head hne, (Bool.or_eq_false_iff.mp hhead).1⟩,
      ⟨_, List.getLast?_eq_some_getLast hne, (Bool.or_eq_false_iff.mp hlast).1⟩⟩
  exact List.forall_mem_cons.mpr ⟨⟨h.balanced, hexpression⟩,
    isPart_of_mem_part isLabel_name fun s _ => isPart_quoted s⟩

end Parts

namespace Arguments

variable {args : Arguments} {name : String} {text : List Char}

theorem isPart_chars (h : args.IsWritable name) (htidy : args.IsTidy)
    (htext : args.chars? = some text) : IsPart text := by
  cases args with
  | none => cases htext
  | call c =>
      cases htext
      exact ⟨FunctionCall.balanced_chars h.2, c.trimmed_chars⟩
  | literal v =>
      cases htext
      exact ⟨Literal.balanced_chars h.2, Literal.trimmed_chars h.2⟩
  | relation r =>
      cases htext
      exact isPart_row (RelationArgs.parts_ne_nil h.2) (RelationArgs.isPart_of_mem_parts h.2)
  | fieldList l =>
      cases htext
      exact isPart_row (List.cons_ne_nil _ _) (FieldListArgs.isPart_of_mem_parts h.2)
  | check c =>
      cases htext
      exact isPart_row (List.cons_ne_nil _ _) (CheckArgs.isPart_of_mem_parts h.2 htidy)
  | raw t => exact absurd h not_false

/-- Written arguments are read back as what they are. -/
theorem interpret_chars (h : args.IsWritable name) (htidy : args.IsTidy)
    (htext : args.chars? = some text) : interpret name (String.ofList text) = .ok args := by
  have hpart := isPart_chars h htidy htext
  have hne : ¬text.isEmpty := by simpa using hpart.trimmed.ne_nil
  simp only [interpret, String.toList_ofList, hpart.trimmed.strip_eq, if_neg hne]
  cases args with
  | none => cases htext
  | call c =>
      obtain ⟨rfl, hc⟩ := h
      cases htext
      exact FunctionCall.defaultValue_chars hc htidy
  | literal v =>
      obtain ⟨hname, hv⟩ := h
      cases htext
      have hliteral : literalOrRaw v.chars = .literal v := by
        rw [literalOrRaw, Literal.literal?_chars hv]
      have hdefault : defaultValue v.chars = .ok (.literal v) := by
        rw [defaultValue, Literal.call?_chars hv, hliteral]
      simp only [List.mem_cons, List.not_mem_nil, or_false, not_or] at hname
      obtain ⟨hrelation, hindex, hunique, hid, hcheck⟩ := hname
      simp only [hrelation, hindex, hunique, hid, hcheck, or_self, if_false, hliteral, hdefault,
        ite_self]
  | relation r =>
      obtain ⟨rfl, hr⟩ := h
      cases htext
      exact congrArg (Except.map Arguments.relation) (RelationArgs.relation_parts hr)
  | fieldList l =>
      obtain ⟨hname, hl⟩ := h
      cases htext
      have hlist := congrArg (Except.map Arguments.fieldList) (FieldListArgs.fieldList_parts hl)
      simp only [List.mem_cons, List.not_mem_nil, or_false] at hname
      rcases hname with rfl | rfl | rfl <;> exact hlist
  | check c =>
      obtain ⟨rfl, hc⟩ := h
      cases htext
      exact congrArg (Except.map Arguments.check) (CheckArgs.check_parts hc htidy)
  | raw t => exact absurd h not_false

end Arguments

end SchemaMigration
