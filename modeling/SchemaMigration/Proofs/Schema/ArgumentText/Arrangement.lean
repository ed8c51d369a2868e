import Mathlib.Data.List.Perm.Basic
import SchemaMigration.Proofs.Schema.ArgumentText.SpacedArgument

/-! # Arguments in any order

The arguments of a relation, of an index, of a unique constraint or of a primary key may stand in
any order, with white space around all their tokens. The name is taken out first: what its string
holds may look like any other argument, and all that is left has no colon but those behind the
labels. So each of the other labels finds its own argument, wherever that stands, and no other.
-/

namespace SchemaMigration.ArgumentText

open Grammar (inQuotes)
open Text (Scanner isSpace isWordChar strip word)

/-! ## Arguments that may be given -/

/-- The tokens of an argument with a label, if it is given. -/
def givenTokens {α : Type} (label : String) (o : Option α) (tokens : α → List (List Char)) :
    List (List (List Char)) :=
  (o.map fun a => labelledTokens label (tokens a)).toList

/-- Texts without colons, other than those behind the labels of arguments with some labels. -/
def Waits (labels : List String) (items : List (List Char)) : Prop :=
  ∀ t ∈ items, ':' ∉ t ∨ ∃ label ∈ labels, ∃ tokens,
    (∀ token ∈ tokens, ':' ∉ token) ∧ IsSpaced (labelledTokens label tokens) t

instance (label : String) : Decidable (IsLabel label) :=
  decidable_of_iff (label.toList ≠ [] ∧ label.toList.all isWordChar = true)
    ⟨fun h => ⟨h.1, List.all_eq_true.mp h.2⟩, fun h => ⟨h.nonempty, List.all_eq_true.mpr h.word⟩⟩

section Given

variable {α : Type} {label : String} {labels labels' : List String} {value : Scanner} {o : Option α}
  {tokens : α → List (List Char)} {part items others gaps : List (List Char)}

theorem waits_given (hcolon : ∀ a ∈ o, ∀ t ∈ tokens a, ':' ∉ t)
    (hpart : List.Forall₂ IsSpaced (givenTokens label o tokens) part) : Waits [label] part := by
  cases o with
  | none =>
      cases hpart
      exact List.forall_mem_nil _
  | some a =>
      obtain ⟨item, further, hitem, hnil, rfl⟩ := List.forall₂_cons_left_iff.mp hpart
      obtain rfl := List.forall₂_nil_left_iff.mp hnil
      exact List.forall_mem_singleton.mpr
        (.inr ⟨label, List.mem_singleton.mpr rfl, tokens a, hcolon a rfl, hitem⟩)

theorem Waits.append (h : Waits labels items) (h' : Waits labels' others) :
    Waits (labels ++ labels') (items ++ others) := by
  intro t ht
  rcases List.mem_append.mp ht with ht | ht
  · obtain hcolon | ⟨label, hlabel, hgiven⟩ := h t ht
    · exact .inl hcolon
    · exact .inr ⟨label, List.mem_append_left _ hlabel, hgiven⟩
  · obtain hcolon | ⟨label, hlabel, hgiven⟩ := h' t ht
    · exact .inl hcolon
    · exact .inr ⟨label, List.mem_append_right _ hlabel, hgiven⟩

theorem waits_gaps (hgaps : ∀ t ∈ gaps, ∀ c ∈ t, isSpace c = true) : Waits [] gaps :=
  fun t ht => .inl (colon_not_mem_gap (hgaps t ht))

theorem IsLabel.misses_of_waits (hlabel : IsLabel label)
    (hlabels : ∀ l ∈ labels, IsLabel l ∧ ¬label.toList <:+ l.toList) (h : Waits labels items) :
    ∀ t ∈ items, Form.Misses (labelled label value) t := by
  intro t ht
  obtain hcolon | ⟨label', hlabel', tokens, hcolon, hspaced⟩ := h t ht
  · exact hlabel.misses_of_not_mem hcolon
  · obtain ⟨hword, hne⟩ := hlabels label' hlabel'
    exact hlabel.misses_labelledTokens hword hne hcolon hspaced

/-- An argument is taken out wherever it stands, and nothing is when it is not given. White space is
left in its place. -/
theorem IsLabel.extractOptional_of_perm {P : α → List Char → Prop} (hlabel : IsLabel label)
    (hlabels : ∀ l ∈ labels, IsLabel l ∧ ¬label.toList <:+ l.toList)
    (hreads : ∀ a ∈ o, ∀ text, IsSpaced (tokens a) text →
      ∃ inner left, P a inner ∧ ReadsIn value text inner left)
    (hpart : List.Forall₂ IsSpaced (givenTokens label o tokens) part)
    (hothers : Waits labels others) (hgaps : ∀ t ∈ gaps, ∀ c ∈ t, isSpace c = true)
    (hperm : items.Perm (part ++ others ++ gaps)) :
    ∃ found further left, extractOptional (labelled label value) ([','].intercalate items) =
        (found, [','].intercalate further) ∧ Option.Rel P o found ∧
      (∀ t ∈ left, ∀ c ∈ t, isSpace c = true) ∧ further.Perm (others ++ left) := by
  have hwaits : Waits labels (others ++ gaps) := by
    have happend := hothers.append (waits_gaps hgaps)
    rwa [List.append_nil] at happend
  have hmisses : ∀ t ∈ others ++ gaps, Form.Misses (labelled label value) t :=
    hlabel.misses_of_waits hlabels hwaits
  rw [List.append_assoc] at hperm
  cases o with
  | none =>
      cases hpart
      have hnone := hlabel.isDense_labelled.extract_intercalate_eq_none
        fun t ht => hmisses t (hperm.subset ht)
      refine ⟨none, items, gaps, ?_, .none, hgaps, hperm⟩
      rw [extractOptional, hnone]
  | some a =>
      obtain ⟨item, further, hitem, hnil, rfl⟩ := List.forall₂_cons_left_iff.mp hpart
      obtain rfl := List.forall₂_nil_left_iff.mp hnil
      obtain ⟨inner, left, hinner, hleft, hyields⟩ := hlabel.yields_labelledTokens
        hlabel.isDense_labelled (fun _ _ h => h) (hreads a rfl) hitem
      obtain ⟨further, hextract, hfurther⟩ :=
        hlabel.isDense_labelled.extract_of_perm hyields hmisses hperm
      refine ⟨some inner, further, left :: gaps, ?_, .some hinner,
        List.forall_mem_cons.mpr ⟨hleft, hgaps⟩, hfurther.trans List.perm_middle.symm⟩
      rw [extractOptional, hextract]

end Given

theorem forall₂_append_left {α β : Type} {R : α → β → Prop} {as as' : List α} {bs : List β}
    (h : List.Forall₂ R (as ++ as') bs) :
    ∃ front back, bs = front ++ back ∧ List.Forall₂ R as front ∧ List.Forall₂ R as' back := by
  induction as generalizing bs with
  | nil => exact ⟨[], bs, rfl, .nil, h⟩
  | cons a as ih =>
      obtain ⟨b, further, hb, hfurther, rfl⟩ := List.forall₂_cons_left_iff.mp h
      obtain ⟨front, back, rfl, hfront, hback⟩ := ih hfurther
      exact ⟨b :: front, back, rfl, .cons hb hfront, hback⟩

/-! ## Relations -/

/-- The tokens of the arguments of a relation that are given. -/
def relationTokens (fields references : Option (List String))
    (name onDelete onUpdate : Option String) : List (List (List Char)) :=
  givenTokens "name" name (fun s => [inQuotes s]) ++
    (givenTokens "fields" fields namesTokens ++
      (givenTokens "references" references namesTokens ++
        (givenTokens "onDelete" onDelete (fun a => [a.toList]) ++
          givenTokens "onUpdate" onUpdate (fun a => [a.toList]))))

section Relations

variable {names : List String}

theorem colon_not_mem_namesTokens (h : ∀ n ∈ names, IsIdentifier n) :
    ∀ t ∈ namesTokens names, ':' ∉ t := by
  have hcomma := not_mem_commaTokens h (c := ':') (by decide) (by decide)
  simp only [namesTokens, List.forall_mem_cons, List.forall_mem_append]
  exact ⟨by decide, hcomma, by decide, List.forall_mem_nil _⟩

theorem colon_not_mem_action {action : String} (h : IsIdentifier action) :
    ∀ t ∈ [action.toList], ':' ∉ t :=
  List.forall_mem_singleton.mpr (h.not_mem (by decide))

theorem fieldNames?_of_rel {fields : Option (List String)} {found : Option (List Char)}
    (h : Option.Rel (fun l inner => fieldNames inner = .ok l) fields found) :
    fieldNames? found = .ok (fields.getD []) := by
  cases h with
  | none => rfl
  | some h => exact h

theorem map_eq_of_rel {α β : Type} {f : β → α} {o : Option α} {found : Option β}
    (h : Option.Rel (fun a b => f b = a) o found) : found.map f = o := by
  cases h with
  | none => rfl
  | some h => rw [Option.map_some, h]

theorem relation_of_perm {fields references : Option (List String)}
    {name onDelete onUpdate : Option String} (hfields : ∀ l ∈ fields, ∀ f ∈ l, IsIdentifier f)
    (hreferences : ∀ l ∈ references, ∀ f ∈ l, IsIdentifier f)
    (hdelete : ∀ a ∈ onDelete, IsIdentifier a) (hupdate : ∀ a ∈ onUpdate, IsIdentifier a)
    {items parts : List (List Char)}
    (hparts : List.Forall₂ IsSpaced
      (relationTokens fields references name onDelete onUpdate) parts)
    (hperm : items.Perm parts) :
    relation ([','].intercalate items) =
      .ok ⟨fields.getD [], references.getD [], name, onDelete, onUpdate⟩ := by
  obtain ⟨n, further, rfl, hn, hparts⟩ := forall₂_append_left hparts
  obtain ⟨f, further, rfl, hf, hparts⟩ := forall₂_append_left hparts
  obtain ⟨r, further, rfl, hr, hparts⟩ := forall₂_append_left hparts
  obtain ⟨d, u, rfl, hd, hu⟩ := forall₂_append_left hparts
  rw [← List.append_nil (n ++ _)] at hperm
  -- No colon stands but behind a label, so each label misses the arguments with the later ones.
  have hu' := waits_given (fun a ha => colon_not_mem_action (hupdate a ha)) hu
  have hd' := (waits_given (fun a ha => colon_not_mem_action (hdelete a ha)) hd).append hu'
  have hr' := (waits_given (fun l hl => colon_not_mem_namesTokens (hreferences l hl)) hr).append hd'
  have hf' := (waits_given (fun l hl => colon_not_mem_namesTokens (hfields l hl)) hf).append hr'
  obtain ⟨foundName, items₁, gaps₁, hextract₁, hname, hgaps₁, hperm₁⟩ :=
    isLabel_name.extractOptional_of_perm (P := fun s inner => unescaped inner = s) (by decide)
      (fun s _ _ => readsIn_inQuotes) hn hf' (List.forall_mem_nil _) hperm
  obtain ⟨foundFields, items₂, gaps₂, hextract₂, hfieldNames, hgaps₂, hperm₂⟩ :=
    RelationArgs.isLabel_fields.extractOptional_of_perm
      (P := fun l inner => fieldNames inner = .ok l) (by decide)
      (fun l hl _ => readsIn_namesTokens (hfields l hl)) hf hr' hgaps₁ hperm₁
  obtain ⟨foundReferences, items₃, gaps₃, hextract₃, hreferenceNames, hgaps₃, hperm₃⟩ :=
    RelationArgs.isLabel_references.extractOptional_of_perm
      (P := fun l inner => fieldNames inner = .ok l) (by decide)
      (fun l hl _ => readsIn_namesTokens (hreferences l hl)) hr hd' hgaps₂ hperm₂
  obtain ⟨foundDelete, items₄, gaps₄, hextract₄, honDelete, hgaps₄, hperm₄⟩ :=
    RelationArgs.isLabel_onDelete.extractOptional_of_perm
      (P := fun a inner => String.ofList inner = a) (by decide)
      (fun a ha _ => readsIn_word (hdelete a ha)) hd hu' hgaps₃ hperm₃
  rw [← List.append_nil u] at hperm₄
  obtain ⟨foundUpdate, items₅, gaps₅, hextract₅, honUpdate, hgaps₅, hperm₅⟩ :=
    RelationArgs.isLabel_onUpdate.extractOptional_of_perm
      (P := fun a inner => String.ofList inner = a) (by decide)
      (fun a ha _ => readsIn_word (hupdate a ha)) hu (waits_gaps (List.forall_mem_nil _)) hgaps₄
      hperm₄
  have hleft : pieces ([','].intercalate items₅) = [] :=
    pieces_gaps fun t ht => hgaps₅ t (hperm₅.subset ht)
  simp only [relation, nameForm, listForm, actionForm, hextract₁, hextract₂, hextract₃, hextract₄,
    hextract₅, fieldNames?_of_rel hfieldNames, fieldNames?_of_rel hreferenceNames, hleft,
    map_eq_of_rel hname, map_eq_of_rel honDelete, map_eq_of_rel honUpdate]
  rfl

end Relations

/-! ## Lists of fields -/

/-- The tokens of the arguments of an index, a unique constraint or a primary key: a list of fields,
its label given or not, and a name that may be given. -/
def fieldListTokens (hasLabel : Bool) (fields : List String) (name : Option String) :
    List (List (List Char)) :=
  givenTokens "name" name (fun s => [inQuotes s]) ++
    [if hasLabel then labelledTokens "fields" (namesTokens fields) else namesTokens fields]

section FieldLists

variable {fields : List String}

theorem isDense_fieldsForm : Form.IsDense fieldsForm := by
  rintro inWord c cs hc
  have hword : isWordChar c = false := by
    rcases hc with rfl | hc
    · decide
    · exact isWordChar_of_isSpace hc
  rw [fieldsForm_of_not_isWordChar hword]
  unfold bracketed
  split
  next heq =>
    cases heq
    exact absurd hc (by decide)
  next => rfl

theorem fieldsForm_of_bracketed {cs : List Char} {found : List Char × List Char}
    (h : bracketed cs = some found) (inWord : Bool) : fieldsForm inWord cs = some found := by
  cases cs with
  | nil => cases h
  | cons c cs =>
      have hc : c = '[' := by
        unfold bracketed at h
        split at h
        next heq => exact (List.cons.inj heq).1
        next => cases h
      rw [fieldsForm_of_not_isWordChar (hc ▸ by decide), h]

/-- A list of fields is found where it stands, with its label or without. -/
theorem yields_fieldsForm {hasLabel : Bool} (hfields : ∀ f ∈ fields, IsIdentifier f)
    {item : List Char} (h : IsSpaced (if hasLabel then
      labelledTokens "fields" (namesTokens fields) else namesTokens fields) item) :
    ∃ inner left, fieldNames inner = .ok fields ∧ (∀ c ∈ left, isSpace c = true) ∧
      fieldsForm.Yields item inner left := by
  cases hasLabel with
  | true =>
      refine RelationArgs.isLabel_fields.yields_labelledTokens isDense_fieldsForm ?_
        (fun _ => readsIn_namesTokens hfields) h
      intro cs found hfound
      rw [fieldsForm, listForm, hfound, Option.some_or]
  | false =>
      obtain ⟨inner, left, hinner, hleft, lead, core, hlead, -, hne, rfl, hread⟩ :=
        readsIn_namesTokens hfields h
      refine ⟨inner, lead ++ left, hinner, List.forall_mem_append.mpr ⟨hlead, hleft⟩, ?_⟩
      refine isDense_fieldsForm.yields_of_found hlead (by simp [hne]) fun rest hrest => ?_
      rw [List.append_assoc]
      exact fieldsForm_of_bracketed (hread rest hrest) false

theorem fieldList_of_perm {hasLabel : Bool} {name : Option String}
    (hfields : ∀ f ∈ fields, IsIdentifier f) {items parts : List (List Char)}
    (hparts : List.Forall₂ IsSpaced (fieldListTokens hasLabel fields name) parts)
    (hperm : items.Perm parts) :
    fieldList ([','].intercalate items) = .ok ⟨fields, name⟩ := by
  obtain ⟨n, further, rfl, hn, hparts⟩ := forall₂_append_left hparts
  obtain ⟨list, further, hlist, hnil, rfl⟩ := List.forall₂_cons_left_iff.mp hparts
  obtain rfl := List.forall₂_nil_left_iff.mp hnil
  have hcolon := colon_not_mem_namesTokens hfields
  have hwaits : Waits ["fields"] [list] := by
    refine List.forall_mem_singleton.mpr ?_
    cases hasLabel with
    | true => exact .inr ⟨"fields", List.mem_singleton.mpr rfl, _, hcolon, hlist⟩
    | false => exact .inl (IsSpaced.not_mem hlist (by decide) hcolon)
  rw [← List.append_nil (n ++ _)] at hperm
  obtain ⟨foundName, items₁, gaps, hextractName, hname, hgaps, hperm₁⟩ :=
    isLabel_name.extractOptional_of_perm (P := fun s inner => unescaped inner = s) (by decide)
      (fun s _ _ => readsIn_inQuotes) hn hwaits (List.forall_mem_nil _) hperm
  obtain ⟨inner, left, hinner, hleft, hyields⟩ := yields_fieldsForm hfields hlist
  obtain ⟨items₂, hextractFields, hperm₂⟩ := isDense_fieldsForm.extract_of_perm hyields
    (fun t ht => isDense_fieldsForm.misses_gap (hgaps t ht)) hperm₁
  have hpieces : pieces ([','].intercalate items₂) = [] :=
    pieces_gaps fun t ht => List.forall_mem_cons.mpr ⟨hleft, hgaps⟩ t (hperm₂.subset ht)
  have hextractFields' : extractOptional fieldsForm ([','].intercalate items₁) =
      (some inner, [','].intercalate items₂) := by
    rw [extractOptional, hextractFields]
  simp only [fieldList, nameForm, hextractName, hextractFields', fieldNames?, hinner, hpieces,
    map_eq_of_rel hname]
  rfl

end FieldLists

/-! ## Raw texts -/

/-- A raw text is made of arguments in any order, with commas between them, and with white space
around all their tokens. -/
def IsWrittenWith (raw : String) (arguments : List (List (List Char))) : Prop :=
  ∃ order, order.Perm arguments ∧ IsSpaced ([[',']].intercalate order) raw.toList

/-- Tokens of an argument, none of them with white space at its ends. -/
structure AreSolid (tokens : List (List Char)) : Prop where
  nonempty : tokens ≠ []
  trimmed : ∀ t ∈ tokens, Trimmed t

section Raw

variable {label : String} {tokens : List (List Char)} {arguments : List (List (List Char))}

theorem AreSolid.labelledTokens (hlabel : IsLabel label) (h : ∀ t ∈ tokens, Trimmed t) :
    AreSolid (labelledTokens label tokens) where
  nonempty := List.cons_ne_nil _ _
  trimmed := by
    have hword : Trimmed label.toList := .of_forall hlabel.nonempty fun c hc =>
      Grammar.isBlank_of_isWordChar (hlabel.word c hc)
    have hcolon : Trimmed [':'] :=
      .of_forall (by simp) (List.forall_mem_singleton.mpr (by decide))
    exact List.forall_mem_cons.mpr ⟨hword, List.forall_mem_cons.mpr ⟨hcolon, h⟩⟩

theorem AreSolid.namesTokens {names : List String} (h : ∀ n ∈ names, IsIdentifier n) :
    AreSolid (namesTokens names) where
  nonempty := List.cons_ne_nil _ _
  trimmed := by
    have hmark (c : Char) (hc : Text.isBlank c = false) : Trimmed [c] :=
      .of_forall (by simp) (List.forall_mem_singleton.mpr hc)
    refine List.forall_mem_cons.mpr ⟨hmark '[' (by decide), List.forall_mem_append.mpr
      ⟨fun t ht => ?_, List.forall_mem_singleton.mpr (hmark ']' (by decide))⟩⟩
    rcases mem_commaTokens ht with rfl | ⟨n, hn, rfl⟩
    · exact hmark ',' (by decide)
    · exact (h n hn).trimmed

theorem trimmed_inQuotes (s : String) : ∀ t ∈ [inQuotes s], Trimmed t :=
  List.forall_mem_singleton.mpr (trimmed_of_quotes _)

theorem areSolid_of_mem_givenTokens {α : Type} {o : Option α} {value : α → List (List Char)}
    (hlabel : IsLabel label) (h : ∀ a ∈ o, ∀ t ∈ value a, Trimmed t) :
    ∀ argument ∈ givenTokens label o value, AreSolid argument := by
  cases o with
  | none => exact List.forall_mem_nil _
  | some a => exact List.forall_mem_singleton.mpr (.labelledTokens hlabel (h a rfl))

/-- A raw text is stripped to texts of its arguments with commas between them. -/
theorem IsWrittenWith.exists_parts {raw : String} (h : IsWrittenWith raw arguments)
    (hne : arguments ≠ []) (hsolid : ∀ argument ∈ arguments, AreSolid argument) :
    ∃ items parts, strip raw.toList = [','].intercalate items ∧ strip raw.toList ≠ [] ∧
      List.Forall₂ IsSpaced arguments parts ∧ items.Perm parts := by
  obtain ⟨order, hperm, hspaced⟩ := h
  have horder : order ≠ [] := by
    rintro rfl
    exact hne hperm.nil_eq.symm
  have htokens : [[',']].intercalate order ≠ [] := by
    obtain ⟨argument, further, rfl⟩ := List.exists_cons_of_ne_nil horder
    have hargument := (hsolid argument (hperm.subset List.mem_cons_self)).nonempty
    cases further with
    | nil => rwa [List.intercalate_singleton]
    | cons => simp [List.intercalate_cons_cons]
  have htrimmed : ∀ t ∈ [[',']].intercalate order, Trimmed t := by
    intro t ht
    obtain hcomma | ⟨argument, hargument, ht⟩ := mem_or_mem_of_mem_intercalate ht
    · rw [List.mem_singleton.mp hcomma]
      exact .of_forall (by simp) (List.forall_mem_singleton.mpr (by decide))
    · exact (hsolid argument (hperm.subset hargument)).trimmed t ht
  obtain ⟨hstripped, hleft⟩ := hspaced.strip htokens htrimmed
  obtain ⟨items, hitems, hforall⟩ := hstripped.exists_items horder
  obtain ⟨parts, hparts, hpartsPerm⟩ := List.perm_comp_forall₂ hperm.symm hforall
  exact ⟨items, parts, hitems, hleft, hparts, hpartsPerm.symm⟩

end Raw

/-- The arguments of a relation are read from a text in which they stand in any order. -/
theorem interpret_relation {fields references : Option (List String)}
    {name onDelete onUpdate : Option String} {raw : String}
    (hfields : ∀ l ∈ fields, ∀ f ∈ l, IsIdentifier f)
    (hreferences : ∀ l ∈ references, ∀ f ∈ l, IsIdentifier f)
    (hdelete : ∀ a ∈ onDelete, IsIdentifier a) (hupdate : ∀ a ∈ onUpdate, IsIdentifier a)
    (hne : relationTokens fields references name onDelete onUpdate ≠ [])
    (h : IsWrittenWith raw (relationTokens fields references name onDelete onUpdate)) :
    interpret "relation" raw =
      .ok (.relation ⟨fields.getD [], references.getD [], name, onDelete, onUpdate⟩) := by
  have hsolid : ∀ argument ∈ relationTokens fields references name onDelete onUpdate,
      AreSolid argument := by
    simp only [relationTokens, List.forall_mem_append]
    refine ⟨areSolid_of_mem_givenTokens isLabel_name fun s _ => trimmed_inQuotes s,
      areSolid_of_mem_givenTokens RelationArgs.isLabel_fields fun l hl =>
        (AreSolid.namesTokens (hfields l hl)).trimmed,
      areSolid_of_mem_givenTokens RelationArgs.isLabel_references fun l hl =>
        (AreSolid.namesTokens (hreferences l hl)).trimmed,
      areSolid_of_mem_givenTokens RelationArgs.isLabel_onDelete fun a ha => ?_,
      areSolid_of_mem_givenTokens RelationArgs.isLabel_onUpdate fun a ha => ?_⟩
    · exact List.forall_mem_singleton.mpr (hdelete a ha).trimmed
    · exact List.forall_mem_singleton.mpr (hupdate a ha).trimmed
  obtain ⟨items, parts, htext, hleft, hparts, hperm⟩ := h.exists_parts hne hsolid
  have hread := relation_of_perm hfields hreferences hdelete hupdate hparts hperm
  rw [← htext] at hread
  simp only [interpret, List.isEmpty_iff, if_neg hleft, if_pos, hread]
  rfl

/-- A list of fields and a name are read from a text in which they stand in either order. -/
theorem interpret_fieldList {key : String} (hkey : key ∈ ["index", "unique", "id"])
    {hasLabel : Bool} {fields : List String} {name : Option String} {raw : String}
    (hfields : ∀ f ∈ fields, IsIdentifier f)
    (h : IsWrittenWith raw (fieldListTokens hasLabel fields name)) :
    interpret key raw = .ok (.fieldList ⟨fields, name⟩) := by
  have hsolid : ∀ argument ∈ fieldListTokens hasLabel fields name, AreSolid argument := by
    have hnames := AreSolid.namesTokens hfields
    simp only [fieldListTokens, List.forall_mem_append, List.forall_mem_singleton]
    refine ⟨areSolid_of_mem_givenTokens isLabel_name fun s _ => trimmed_inQuotes s, ?_⟩
    cases hasLabel with
    | true => exact .labelledTokens RelationArgs.isLabel_fields hnames.trimmed
    | false => exact hnames
  obtain ⟨items, parts, htext, hleft, hparts, hperm⟩ :=
    h.exists_parts (by simp [fieldListTokens]) hsolid
  have hread := fieldList_of_perm hfields hparts hperm
  rw [← htext] at hread
  have hlist := congrArg (Except.map Arguments.fieldList) hread
  simp only [interpret, List.isEmpty_iff, if_neg hleft]
  simp only [List.mem_cons, List.not_mem_nil, or_false] at hkey
  rcases hkey with rfl | rfl | rfl <;> exact hlist

/-- In whichever order the arguments of a relation, or the fields and the name of an index, a unique
constraint or a primary key stand in a text, they are read from it. -/
theorem interpret_isWrittenWith :
    (∀ (fields references : Option (List String)) (name onDelete onUpdate : Option String)
      (raw : String), (∀ l ∈ fields, ∀ f ∈ l, IsIdentifier f) →
      (∀ l ∈ references, ∀ f ∈ l, IsIdentifier f) → (∀ a ∈ onDelete, IsIdentifier a) →
      (∀ a ∈ onUpdate, IsIdentifier a) →
      relationTokens fields references name onDelete onUpdate ≠ [] →
      IsWrittenWith raw (relationTokens fields references name onDelete onUpdate) →
        interpret "relation" raw =
          .ok (.relation ⟨fields.getD [], references.getD [], name, onDelete, onUpdate⟩)) ∧
    ∀ key ∈ ["index", "unique", "id"], ∀ (hasLabel : Bool) (fields : List String)
      (name : Option String) (raw : String), (∀ f ∈ fields, IsIdentifier f) →
      IsWrittenWith raw (fieldListTokens hasLabel fields name) →
        interpret key raw = .ok (.fieldList ⟨fields, name⟩) :=
  ⟨fun _ _ _ _ _ _ hfields hreferences hdelete hupdate hne h =>
      interpret_relation hfields hreferences hdelete hupdate hne h,
    fun _ hkey _ _ _ _ hfields h => interpret_fieldList hkey hfields h⟩

/-- Fields and an action with the names of labels, and names of constraints that hold brackets,
commas and what looks like another argument. -/
theorem interpret_isWrittenWith_of_labels :
    interpret "relation" "onDelete: name, name : \"a, fields: [x]\" ,fields:[ name,fields]" =
        .ok (.relation ⟨["name", "fields"], [], some "a, fields: [x]", some "name", none⟩) ∧
      interpret "unique" "name: \"[\\\"\", [name]" = .ok (.fieldList ⟨["name"], some "[\""⟩) := by
  constructor
  · refine interpret_isWrittenWith.1 (some ["name", "fields"]) none (some "a, fields: [x]")
      (some "name") none _ (by decide) (by decide) (by decide) (by decide) (by decide) ?_
    exact ⟨[labelledTokens "onDelete" ["name".toList],
      labelledTokens "name" [inQuotes "a, fields: [x]"],
      labelledTokens "fields" (namesTokens ["name", "fields"])], by decide, .of_check (by decide)⟩
  · refine interpret_isWrittenWith.2 "unique" (by decide) false ["name"] (some "[\"") _
      (by decide) ?_
    exact ⟨[labelledTokens "name" [inQuotes "[\""], namesTokens ["name"]], by decide,
      .of_check (by decide)⟩

end SchemaMigration.ArgumentText
