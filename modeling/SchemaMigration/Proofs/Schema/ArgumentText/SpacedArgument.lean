import SchemaMigration.Proofs.Schema.ArgumentText.Interpretation
import SchemaMigration.Proofs.Schema.ArgumentText.Occurrence
import SchemaMigration.Proofs.Schema.ArgumentText.Spacing
import SchemaMigration.Proofs.Schema.Quotation

/-! # Arguments with white space in them

White space may stand around the tokens of an argument. Its value is read all the same, and its
label finds it in any text, behind what the label misses. A label misses the arguments with other
labels, since no colon stands in them but behind these labels.
-/

namespace SchemaMigration.ArgumentText

open Grammar (dropWhile_append_of_head guardChar inQuotes isSpace_of_isWordChar)
open Text (Scanner isSpace isWordChar strip stripBy_surround word)

/-! ## Forms in texts with commas between them -/

/-- A form yields a value in a text and leaves another one in its place, when no more than a comma
follows the text. -/
def Form.Yields (form : Form) (text value left : List Char) : Prop :=
  ∀ rest, Ends rest → extractAfter form false (text ++ rest) = some (value, left ++ rest)

/-- A form that neither a comma nor white space begins. -/
def Form.IsDense (form : Form) : Prop :=
  ∀ inWord c cs, c = ',' ∨ isSpace c = true → form inWord (c :: cs) = none

section Forms

variable {form : Form} {text value left gap : List Char}
  {before after items others : List (List Char)}

theorem isWordChar_of_isSpace {c : Char} (h : isSpace c = true) : isWordChar c = false := by
  refine Bool.eq_false_iff.mpr fun hword => ?_
  rw [isSpace_of_isWordChar hword] at h
  cases h

theorem colon_not_mem_gap (hgap : ∀ c ∈ gap, isSpace c = true) : ':' ∉ gap :=
  fun hc => absurd (hgap ':' hc) (by decide)

theorem ends_intercalate (items : List (List Char)) :
    Ends (items.flatMap fun t => ',' :: t) := by
  cases items with
  | nil => exact fun c hc => nomatch hc
  | cons t items => exact ends_cons _

theorem intercalate_comma (text : List Char) (items : List (List Char)) :
    [','].intercalate (text :: items) = text ++ items.flatMap fun t => ',' :: t := by
  induction items generalizing text with
  | nil => simp
  | cons t items ih => simp [List.intercalate_cons_cons, ih]

namespace Form.IsDense

variable (hdense : form.IsDense)
include hdense

theorem extractAfter_comma (inWord : Bool) (cs : List Char) :
    extractAfter form inWord (',' :: cs) =
      (extractAfter form false cs).map fun (value, left) => (value, ',' :: left) := by
  rw [extractAfter, hdense _ _ _ (.inl rfl), Option.none_or]
  rfl

/-- White space is passed over. -/
theorem extractAfter_gap (hgap : ∀ c ∈ gap, isSpace c = true) (cs : List Char) :
    extractAfter form false (gap ++ cs) =
      (extractAfter form false cs).map fun (value, left) => (value, gap ++ left) := by
  induction gap with
  | nil => simp
  | cons c gap ih =>
      have hc := hgap c List.mem_cons_self
      rw [List.cons_append, extractAfter, hdense _ _ _ (.inr hc), Option.none_or,
        isWordChar_of_isSpace hc, ih fun c hc => hgap c (List.mem_cons_of_mem _ hc),
        Option.map_map]
      rfl

theorem misses_gap (hgap : ∀ c ∈ gap, isSpace c = true) : form.Misses gap :=
  fun rest _ => hdense.extractAfter_gap hgap rest

/-- A form that is found behind white space, in what is left of a text, is found in the text. -/
theorem yields_of_found {core : List Char} (hgap : ∀ c ∈ gap, isSpace c = true) (hne : core ≠ [])
    (hfound : ∀ rest, Ends rest → form false (core ++ rest) = some (value, left ++ rest)) :
    form.Yields (gap ++ core) value (gap ++ left) := by
  intro rest hrest
  have hextract : extractAfter form false (core ++ rest) = some (value, left ++ rest) := by
    have hform := hfound rest hrest
    obtain ⟨c, cs, rfl⟩ := List.exists_cons_of_ne_nil hne
    rw [List.cons_append] at hform ⊢
    rw [extractAfter, hform, Option.some_or]
  rw [List.append_assoc, hdense.extractAfter_gap hgap, hextract, Option.map_some,
    List.append_assoc]

/-- A form is found in the first text that it does not miss. -/
theorem extract_intercalate (hyields : form.Yields text value left)
    (hbefore : ∀ t ∈ before, form.Misses t) :
    extract form ([','].intercalate (before ++ text :: after)) =
      some (value, [','].intercalate (before ++ left :: after)) := by
  rw [extract]
  induction before with
  | nil =>
      rw [List.nil_append, List.nil_append, intercalate_comma, intercalate_comma]
      exact hyields _ (ends_intercalate after)
  | cons t before ih =>
      have hne (text : List Char) : before ++ text :: after ≠ [] := by simp
      rw [List.cons_append, intercalate_comma_of_ne_nil t (hne text),
        hbefore t List.mem_cons_self _ (ends_cons _), hdense.extractAfter_comma,
        ih fun t ht => hbefore t (List.mem_cons_of_mem _ ht), List.cons_append,
        intercalate_comma_of_ne_nil t (hne left)]
      rfl

theorem extract_intercalate_eq_none (h : ∀ t ∈ items, form.Misses t) :
    extract form ([','].intercalate items) = none := by
  rw [extract]
  induction items with
  | nil => rfl
  | cons t items ih =>
      have ht := h t List.mem_cons_self
      have hitems := ih fun t ht => h t (List.mem_cons_of_mem _ ht)
      by_cases hnil : items = []
      · rw [hnil, intercalate_comma, ht _ (ends_intercalate [])]
        rfl
      · rw [intercalate_comma_of_ne_nil t hnil, ht _ (ends_cons _), hdense.extractAfter_comma,
          hitems]
        rfl

/-- Wherever a text stands among others, a form is found in it when it misses the others. -/
theorem extract_of_perm (hyields : form.Yields text value left)
    (hothers : ∀ t ∈ others, form.Misses t) (hperm : items.Perm (text :: others)) :
    ∃ further, extract form ([','].intercalate items) =
      some (value, [','].intercalate further) ∧ further.Perm (left :: others) := by
  obtain ⟨before, after, rfl⟩ := List.append_of_mem (hperm.mem_iff.mpr List.mem_cons_self)
  have hrest : (before ++ after).Perm others := (List.perm_middle.symm.trans hperm).cons_inv
  refine ⟨before ++ left :: after, ?_, List.perm_middle.trans (hrest.cons left)⟩
  refine hdense.extract_intercalate hyields fun t ht => hothers t ?_
  exact hrest.subset (List.mem_append_left _ ht)

end Form.IsDense

end Forms

/-! ## Values -/

/-- What a scanner reads of a text behind white space: a value, up to white space that is left. -/
structure ReadsIn (value : Scanner) (text inner left : List Char) : Prop where
  left_isSpace : ∀ c ∈ left, isSpace c = true
  reads : ∃ lead core, (∀ c ∈ lead, isSpace c = true) ∧ core.head?.any isSpace = false ∧
    core ≠ [] ∧ text = lead ++ (core ++ left) ∧
      ∀ rest, Ends rest → value (core ++ (left ++ rest)) = some (inner, left ++ rest)

section Values

variable {text : List Char}

theorem head_append_of_isSpace {gap rest : List Char} (hgap : ∀ c ∈ gap, isSpace c = true)
    (hrest : Ends rest) : (gap ++ rest).head?.any isWordChar = false := by
  cases gap with
  | nil =>
      cases rest with
      | nil => rfl
      | cons c rest =>
          cases hrest c rfl
          rfl
  | cons c gap => simpa using isWordChar_of_isSpace (hgap c List.mem_cons_self)

theorem isInside_flatMap_guardChar (cs : List Char) : IsInside (cs.flatMap guardChar) := by
  induction cs with
  | nil => exact .nil
  | cons c cs ih =>
      rw [List.flatMap_cons, guardChar]
      split
      next hc =>
        refine .escaped ?_ ih
        rintro rfl
        exact absurd hc (by decide)
      next hc =>
        rw [not_or] at hc
        exact .char hc.1 hc.2 ih

/-- A string in quotes is read, whatever it holds. -/
theorem readsIn_inQuotes {s : String} (h : IsSpaced [inQuotes s] text) :
    ∃ inner left, unescaped inner = s ∧ ReadsIn quotedString text inner left := by
  obtain ⟨lead, trail, hlead, htrail, rfl⟩ := IsSpaced.singleton_iff.mp h
  refine ⟨s.toList.flatMap guardChar, trail, ?_, htrail, lead, inQuotes s, hlead, rfl,
    by simp [inQuotes], rfl, fun rest _ => ?_⟩
  · rw [unescaped, unescape_flatMap_guardChar, String.ofList_toList]
  · refine quotedString_eq_some_iff.mpr ⟨?_, isInside_flatMap_guardChar _⟩
    simp [inQuotes]

/-- A word is read. -/
theorem readsIn_word {w : String} (hw : IsIdentifier w) (h : IsSpaced [w.toList] text) :
    ∃ inner left, String.ofList inner = w ∧ ReadsIn word text inner left := by
  obtain ⟨lead, trail, hlead, htrail, rfl⟩ := IsSpaced.singleton_iff.mp h
  refine ⟨w.toList, trail, String.ofList_toList, htrail, lead, w.toList, hlead, ?_, hw.ne_nil, rfl,
    fun rest hrest => Grammar.word_append hw (head_append_of_isSpace htrail hrest)⟩
  rw [List.head?_eq_some_head hw.ne_nil]
  exact isSpace_of_isWordChar (Grammar.isWordChar_of_mem hw (List.head_mem _))

/-- The tokens of names with commas between them. -/
def commaTokens (names : List String) : List (List Char) :=
  [[',']].intercalate (names.map fun n => [n.toList])

/-- The tokens of a list of names in brackets. -/
def namesTokens (names : List String) : List (List Char) :=
  ['['] :: (commaTokens names ++ [[']']])

theorem strip_of_isSpaced {token : List Char} (htoken : Trimmed token)
    (h : IsSpaced [token] text) : strip text = token := by
  obtain ⟨lead, trail, hlead, htrail, rfl⟩ := IsSpaced.singleton_iff.mp h
  have hstrip : strip (lead ++ (token ++ trail)) = strip token :=
    stripBy_surround (fun c hc => isBlank_of_isSpace (hlead c hc))
      fun c hc => isBlank_of_isSpace (htrail c hc)
  rw [hstrip, htoken.strip_eq]

theorem balanced_gap {gap : List Char} (hgap : ∀ c ∈ gap, isSpace c = true) :
    Balanced false gap := by
  induction gap with
  | nil => exact .nil
  | cons c gap ih =>
      have hc := hgap c List.mem_cons_self
      refine .char (isBare_of_isBlank (isBlank_of_isSpace hc)) ?_
        (ih fun c hc => hgap c (List.mem_cons_of_mem _ hc))
      rintro rfl
      cases hc

/-- White space with commas in it has no pieces. -/
theorem pieces_gaps {items : List (List Char)} (h : ∀ t ∈ items, ∀ c ∈ t, isSpace c = true) :
    pieces ([','].intercalate items) = [] := by
  rw [pieces_intercalate fun t ht => balanced_gap (h t ht), List.filter_eq_nil_iff]
  rintro t ht
  obtain ⟨gap, hgap, rfl⟩ := List.mem_map.mp ht
  have hstrip : strip gap = [] := by
    have hsurround : strip (gap ++ ([] ++ [])) = strip [] :=
      stripBy_surround (fun c hc => isBlank_of_isSpace (h gap hgap c hc)) (List.forall_mem_nil _)
    rw [List.append_nil, List.append_nil] at hsurround
    exact hsurround
  simp [hstrip]

/-- Names with commas between them are the pieces of a text, whatever white space is in it. -/
theorem pieces_commaTokens {names : List String} (hnames : ∀ n ∈ names, IsIdentifier n)
    (h : IsSpaced (commaTokens names) text) : pieces text = names.map String.toList := by
  by_cases hnil : names = []
  · subst hnil
    have hgap : pieces ([','].intercalate [text]) = [] :=
      pieces_gaps (List.forall_mem_singleton.mpr (IsSpaced.nil_iff.mp h))
    rwa [List.intercalate_singleton] at hgap
  · obtain ⟨items, rfl, hitems⟩ := h.exists_items (by simpa using hnil)
    rw [List.forall₂_map_left_iff] at hitems
    have hstrip : items.map strip = names.map String.toList := by
      clear h hnil
      induction hitems with
      | nil => rfl
      | @cons n item names items hitem _ ih =>
          rw [List.map_cons, List.map_cons, ih fun n hn => hnames n (List.mem_cons_of_mem _ hn),
            strip_of_isSpaced (hnames n List.mem_cons_self).trimmed hitem]
    have hbalanced : ∀ t ∈ items, Balanced false t := by
      clear h hnil hstrip
      induction hitems with
      | nil => exact List.forall_mem_nil _
      | @cons n item names items hitem _ ih =>
          refine List.forall_mem_cons.mpr
            ⟨?_, ih fun n hn => hnames n (List.mem_cons_of_mem _ hn)⟩
          obtain ⟨lead, trail, hlead, htrail, rfl⟩ := IsSpaced.singleton_iff.mp hitem
          exact (balanced_gap hlead).append
            (((hnames n List.mem_cons_self).balanced false).append (balanced_gap htrail))
    rw [pieces_intercalate hbalanced, hstrip, List.filter_eq_self]
    rintro t ht
    obtain ⟨n, hn, rfl⟩ := List.mem_map.mp ht
    simpa using (hnames n hn).ne_nil

theorem mem_commaTokens {names : List String} {t : List Char} (h : t ∈ commaTokens names) :
    t = [','] ∨ ∃ n ∈ names, t = n.toList := by
  obtain h | ⟨l, hl, h⟩ := mem_or_mem_of_mem_intercalate h
  · exact .inl (List.mem_singleton.mp h)
  · obtain ⟨n, hn, rfl⟩ := List.mem_map.mp hl
    exact .inr ⟨n, hn, List.mem_singleton.mp h⟩

theorem not_mem_commaTokens {names : List String} (hnames : ∀ n ∈ names, IsIdentifier n) {c : Char}
    (hc : isWordChar c = false) (hcomma : c ≠ ',') : ∀ t ∈ commaTokens names, c ∉ t := by
  intro t ht
  rcases mem_commaTokens ht with rfl | ⟨n, hn, rfl⟩
  · simpa using hcomma
  · exact (hnames n hn).not_mem hc

/-- A list of names in brackets is read, and gives the names. -/
theorem readsIn_namesTokens {names : List String} (hnames : ∀ n ∈ names, IsIdentifier n)
    (h : IsSpaced (namesTokens names) text) :
    ∃ inner left, fieldNames inner = .ok names ∧ ReadsIn bracketed text inner left := by
  obtain ⟨lead, rest, hlead, hrest, rfl⟩ := IsSpaced.cons_iff.mp h
  obtain ⟨front, back, rfl, hfront, hback⟩ := hrest.of_append
  obtain ⟨gap, left, hgap, hleft, rfl⟩ := IsSpaced.singleton_iff.mp hback
  have hinner := hfront.trail hgap
  have hclose : ']' ∉ front ++ gap :=
    hinner.not_mem (by decide) (not_mem_commaTokens hnames (by decide) (by decide))
  refine ⟨front ++ gap, left, fieldNames_of_pieces hnames (pieces_commaTokens hnames hinner), hleft,
    lead, '[' :: (front ++ gap ++ [']']), hlead, rfl, List.cons_ne_nil _ _, by simp,
    fun rest _ => ?_⟩
  have hread := bracketed_append hclose (left ++ rest)
  simpa using hread

end Values

/-! ## Labels -/

/-- The tokens of an argument with a label. -/
def labelledTokens (label : String) (value : List (List Char)) : List (List Char) :=
  label.toList :: [':'] :: value

section Labels

variable {label label' : String} {value : Scanner} {tokens : List (List Char)} {item : List Char}

theorem IsLabel.isDense_labelled (hlabel : IsLabel label) :
    Form.IsDense (labelled label value) := by
  rintro inWord c cs (rfl | hc)
  · exact hlabel.labelled_eq_none (by decide) inWord cs
  · exact hlabel.labelled_eq_none (isWordChar_of_isSpace hc) inWord cs

/-- A form that is found where a label is, is found in the argument with the label when its value is
read. -/
theorem IsLabel.yields_labelledTokens (hlabel : IsLabel label) {P : List Char → Prop} {form : Form}
    (hdense : form.IsDense)
    (hform : ∀ cs found, labelled label value false cs = some found → form false cs = some found)
    (hreads : ∀ text, IsSpaced tokens text →
      ∃ inner left, P inner ∧ ReadsIn value text inner left)
    (h : IsSpaced (labelledTokens label tokens) item) :
    ∃ inner left, P inner ∧ (∀ c ∈ left, isSpace c = true) ∧ form.Yields item inner left := by
  obtain ⟨lead, rest, hlead, hrest, rfl⟩ := IsSpaced.cons_iff.mp h
  obtain ⟨gap, text, hgap, htext, rfl⟩ := IsSpaced.cons_iff.mp hrest
  obtain ⟨inner, left, hinner, hleft, gap', core, hgap', hcore, hne, rfl, hvalue⟩ :=
    hreads text htext
  refine ⟨inner, lead ++ left, hinner, List.forall_mem_append.mpr ⟨hlead, hleft⟩, ?_⟩
  refine hdense.yields_of_found hlead (by simp [hlabel.nonempty]) fun rest hrest => ?_
  have hhead : (core ++ (left ++ rest)).head?.any isSpace = false := by
    rwa [List.head?_append_of_ne_nil _ hne]
  exact hform _ _ (labelled_eq_some_iff.mpr
    ⟨rfl, gap, gap', _, hgap, hgap', hhead, by simp, hvalue rest hrest⟩)

theorem IsLabel.dropWhile_reverse (hlabel : IsLabel label) {before gap : List Char}
    (hgap : ∀ c ∈ gap, isSpace c = true) :
    (before ++ (label.toList ++ gap)).reverse.dropWhile isSpace =
      (before ++ label.toList).reverse := by
  have hhead : (before ++ label.toList).reverse.head?.any isSpace = false := by
    rw [List.head?_reverse, List.getLast?_append_of_ne_nil _ hlabel.nonempty,
      List.getLast?_eq_some_getLast hlabel.nonempty]
    exact isSpace_of_isWordChar (hlabel.word _ (List.getLast_mem _))
  rw [← List.append_assoc, List.reverse_append]
  exact dropWhile_append_of_head (fun c hc => hgap c (List.mem_reverse.mp hc)) hhead

/-- A label that ends where another one does, white space in front of that, is an end of it. -/
theorem IsLabel.suffix_of_append_eq (hlabel : IsLabel label) (hlabel' : IsLabel label')
    {before lead gap middle : List Char} (hlead : ∀ c ∈ lead, isSpace c = true)
    (hgap : ∀ c ∈ gap, isSpace c = true) (hmiddle : ∀ c ∈ middle, isSpace c = true)
    (h : lead ++ (label'.toList ++ middle) = before ++ (label.toList ++ gap)) :
    label.toList <:+ label'.toList := by
  have hdrop := congrArg (fun cs => cs.reverse.dropWhile isSpace) h
  rw [hlabel'.dropWhile_reverse hmiddle, hlabel.dropWhile_reverse hgap,
    List.reverse_inj] at hdrop
  rcases List.append_eq_append_iff.mp hdrop with ⟨further, -, heq⟩ | ⟨further, rfl, heq⟩
  · exact ⟨further, heq.symm⟩
  · cases further with
    | nil => exact (List.nil_append _ ▸ heq) ▸ List.suffix_rfl
    | cons c further =>
        have hword := hlabel.word c (by simp [heq])
        have hspace := hlead c (by simp)
        rw [isSpace_of_isWordChar hword] at hspace
        cases hspace

/-- A label misses an argument with another label whose value has no colon. -/
theorem IsLabel.misses_labelledTokens (hlabel : IsLabel label) (hlabel' : IsLabel label')
    (hne : ¬label.toList <:+ label'.toList) (htokens : ∀ t ∈ tokens, ':' ∉ t)
    (h : IsSpaced (labelledTokens label' tokens) item) :
    Form.Misses (labelled label value) item := by
  refine hlabel.misses_of_unlabelled (extractAfter_eq_none_iff.mpr ?_)
  rintro before inner after ⟨s, -, hitem, hform⟩
  obtain ⟨-, gap, gap', rest, hgap, -, -, rfl, -⟩ := labelled_eq_some_iff.mp hform
  obtain ⟨lead, further, hlead, hfurther, rfl⟩ := IsSpaced.cons_iff.mp h
  obtain ⟨middle, text, hmiddle, htext, rfl⟩ := IsSpaced.cons_iff.mp hfurther
  -- The only colon is the one behind the other label, so the labels end at the same place.
  have hfront : ':' ∉ lead ++ (label'.toList ++ middle) := by
    simp [colon_not_mem_gap hlead, colon_not_mem_gap hmiddle,
      hlabel'.not_mem (by decide : isWordChar ':' = false)]
  have hback : ':' ∉ text := htext.not_mem (by decide) htokens
  have hcolon : (before ++ (label.toList ++ gap)) ++ ':' :: (gap' ++ rest) =
      (lead ++ (label'.toList ++ middle)) ++ ':' :: text := by
    simpa using hitem.symm
  have hsame := (List.append_cons_inj_of_notMem hfront hback).mp hcolon.symm
  exact hne (hlabel.suffix_of_append_eq hlabel' hlead hgap hmiddle hsame.1)

end Labels

end SchemaMigration.ArgumentText
