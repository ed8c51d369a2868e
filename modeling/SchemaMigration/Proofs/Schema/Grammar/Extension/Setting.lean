import SchemaMigration.Proofs.Schema.Grammar.Extension.Lexeme

/-! # Settings in a longer text

Values are read in a longer text as they are read in the text itself, when what follows them is
there. The induction is on the depth of a value, which may be bounded higher in the longer text.
-/

namespace SchemaMigration.Grammar

open SchemaMigration.Grammar.Parser
open Text (isDigit isWordChar isWordStart)

variable {ext : List Char} {k : Nat} {c d : Cursor} {cs rest : List Char}

/-- What may follow a value, a type or an attribute: something that does not continue it. -/
def EndsPart (cs : List Char) : Prop :=
  ∃ ch rest, cs = ch :: rest ∧ isSolid ch = true ∧ ch ∉ ['(', '.', '[', '?']

theorem EndsPart.solid (h : EndsPart cs) : StartsSolid cs := by
  obtain ⟨ch, rest, rfl, hch, -⟩ := h
  exact hch

theorem EndsPart.head?_ne (h : EndsPart (afterGap cs)) {ch : Char}
    (hch : ch ∈ ['(', '.', '[', '?']) : cs.head? ≠ some ch := by
  intro hhead
  obtain ⟨tail, rfl⟩ := List.head?_eq_some_iff.mp hhead
  have hsolid : isSolid ch = true := by
    revert hch
    simp only [List.mem_cons, List.not_mem_nil, or_false]
    rintro (rfl | rfl | rfl | rfl) <;> rfl
  rw [afterGap_of_isSolid hsolid] at h
  obtain ⟨ch', rest, heq, -, hnot⟩ := h
  cases heq
  exact hnot hch

/-! ## Values in a row -/

/-- Brackets that close a row of values. -/
def IsClose (ch : Char) : Prop :=
  ch = ')' ∨ ch = ']'

theorem IsClose.endsPart {ch : Char} (h : IsClose ch) (rest : List Char) : EndsPart (ch :: rest) := by
  refine ⟨ch, rest, rfl, ?_⟩
  rcases h with rfl | rfl <;> decide

/-- What may follow values in a row: a bracket that closes, or a comma before one. -/
inductive EndsRow : List Char → Prop
  | close {ch : Char} {rest : List Char} (h : IsClose ch) : EndsRow (ch :: rest)
  | comma {ch : Char} {rest more : List Char} (h : IsClose ch) (hrest : afterGap rest = ch :: more) :
      EndsRow (',' :: rest)

theorem EndsRow.endsPart (h : EndsRow cs) : EndsPart cs := by
  cases h with
  | close h => exact h.endsPart _
  | comma h hrest => exact ⟨',', _, rfl, by decide, by decide⟩

/-- What it takes of a parser of values: it reads them in a longer text, and no bracket starts one. -/
structure CarriesValue (ext : List Char) (k : Nat) (p p' : Parser SettingValue) : Prop where
  carries : Carries ext k p p' id EndsPart
  starts : ∀ c v d, p.Reads c v d → StartsSolid c.rest
  refuses : ∀ ch cs, IsClose ch → p'.Refuses (ch :: cs)

namespace CarriesValue

variable {p p' : Parser SettingValue}

theorem carriesItems (h : CarriesValue ext k p p') :
    CarriesItems ext k (do exactly ","; gapThen p) (do exactly ","; gapThen p') id EndsPart
      EndsRow where
  carries := by
    intro c v d hreads hd
    obtain ⟨_, e, hcomma, hvalue⟩ := Reads.of_bind hreads
    have hv := Reads.of_afterGap hvalue
    exact hcomma.exactly_extended.bind
      (.afterGap_extended (h.starts _ v d hv) (h.carries _ v d hv hd))
  starts := by
    intro c v d hreads
    obtain ⟨_, e, hcomma, -⟩ := Reads.of_bind hreads
    rw [hcomma.of_exactly.rest]
    exact ⟨',', e.rest, rfl, by decide, by decide⟩
  solid := fun _ => EndsPart.solid
  stops := fun _ => EndsRow.endsPart
  refuses := by
    intro cs hcs
    cases hcs with
    | close hch =>
        refine (refuses_exactly_of_head (c := ',') rfl ?_).bind _
        rcases hch with rfl | rfl <;> simp
    | @comma ch rest more hch hrest =>
        have hsolid : StartsSolid (afterGap rest) := hrest ▸ (hch.endsPart more).solid
        refine (yields_exactly "," (rest ++ ext)).bind_refuses ?_
        intro _ r hr
        refine Refuses.afterGap ?_
        rw [hr, afterGap_append hsolid, hrest]
        exact h.refuses ch (more ++ ext) hch

theorem valueList (h : CarriesValue ext k p p') :
    Carries ext k (valueList p) (valueList p') id EndsRow := by
  intro c vs d hreads hd
  obtain ⟨head, e, hhead, hrest⟩ := Reads.of_bind hreads
  obtain ⟨tail, f, hmany, hpure⟩ := Reads.of_bind (Reads.of_afterGap hrest)
  obtain ⟨rfl, rfl⟩ := hpure.of_pure
  have htail := h.carriesItems.many hmany hd
  rw [List.map_id] at htail
  have hhead' := h.carries c head e hhead (h.carriesItems.follow_of_many hmany hd)
  exact hhead'.bind (.afterGap (htail.bind (gives_pure _ _)))

theorem starts_valueList (h : CarriesValue ext k p p') {vs : List SettingValue}
    (hreads : (Grammar.valueList p).Reads c vs d) : StartsSolid c.rest := by
  obtain ⟨head, e, hhead, -⟩ := Reads.of_bind hreads
  exact h.starts c head e hhead

/-- Values in a row, of which there may be none, before the bracket that closes them. -/
theorem optional_extended {q q' : Parser (List SettingValue)} {ch : Char} (hch : IsClose ch)
    (hq : Carries ext k q q' id fun cs => cs.head? = some ch)
    (hstarts : ∀ c vs d, q.Reads c vs d → StartsSolid c.rest)
    (hrefuses : ∀ cs, q'.Refuses (ch :: cs)) {o : Option (List SettingValue)}
    (hreads : (gapThen (optional q)).Reads c o d) (hd : (afterGap d.rest).head? = some ch) :
    (gapThen (optional q')).Gives (c.extended ext k) o (d.extended ext k) := by
  rcases (Reads.of_afterGap hreads).of_optional with ⟨vs, rfl, hvs⟩ | ⟨rfl, rfl⟩
  · exact .afterGap_extended (hstarts _ vs d hvs) (hq _ vs d hvs hd).optional
  · rw [← Cursor.rest_pastGap, Cursor.pastGap_pastGap] at hd
    obtain ⟨more, hmore⟩ := List.head?_eq_some_iff.mp hd
    refine .afterGap_extended ?_ (Refuses.optional_gives ?_)
    · exact hmore ▸ (hch.endsPart more).solid
    · rw [Cursor.extended, hmore]
      exact hrefuses (more ++ ext)

theorem functionCall (h : CarriesValue ext k p p') :
    Carries ext k (functionCall p) (functionCall p') id fun _ => True := by
  intro c v d hreads _
  obtain ⟨i, c₁, hname, hrest⟩ := Reads.of_bind (Reads.of_symbol hreads)
  obtain ⟨_, c₂, hopen, hrest⟩ := Reads.of_bind hrest
  obtain ⟨vs, c₃, hvalues, hrest⟩ := Reads.of_bind hrest
  obtain ⟨_, c₄, hclose, hpure⟩ := Reads.of_bind hrest
  obtain ⟨rfl, rfl⟩ := hpure.of_pure
  have hopened : StartsSolid (afterGap c₁.rest) := rest_of_mark hopen ▸ rfl
  have hclosed : (afterGap c₃.rest).head? = some ')' := rest_of_mark hclose ▸ rfl
  have hlist : Carries ext k (Grammar.valueList p) (Grammar.valueList p') id
      fun cs => cs.head? = some ')' := by
    intro c vs d hvs hd
    obtain ⟨more, hmore⟩ := List.head?_eq_some_iff.mp hd
    exact h.valueList c vs d hvs (hmore ▸ .close (.inl rfl))
  have hname' := carries_identifier ext k c i c₁ hname hopened
  have hvalues' := optional_extended (.inl rfl) hlist (fun _ _ _ => h.starts_valueList)
    (fun cs => (h.refuses ')' cs (.inl rfl)).bind _) hvalues hclosed
  refine Gives.symbol (hname'.bind ?_) _
  refine (mark_extended hopen ⟨'(', [], rfl, rfl⟩).bind ?_
  refine hvalues'.bind ?_
  exact (mark_extended hclose ⟨')', [], rfl, rfl⟩).bind (gives_pure _ _)

/-- The inside of an array: values, of which the last may be followed by a comma. -/
theorem arrayValues (h : CarriesValue ext k p p') :
    Carries ext k
      (do
        let values ← Grammar.valueList p
        let _ ← gapThen (optional (exactly ","))
        return values)
      (do
        let values ← Grammar.valueList p'
        let _ ← gapThen (optional (exactly ","))
        return values) id fun cs => cs.head? = some ']' := by
  intro c vs d hreads hd
  obtain ⟨more, hmore⟩ := List.head?_eq_some_iff.mp hd
  obtain ⟨vs', e, hvs, hrest⟩ := Reads.of_bind hreads
  obtain ⟨o, f, hcomma, hpure⟩ := Reads.of_bind hrest
  obtain ⟨rfl, rfl⟩ := hpure.of_pure
  rcases (Reads.of_afterGap hcomma).of_optional with ⟨u, rfl, hu⟩ | ⟨rfl, rfl⟩
  · have hrow : afterGap e.rest = ',' :: d.rest := e.rest_pastGap ▸ hu.of_exactly.rest
    have hsolid : StartsSolid e.pastGap.rest := hu.of_exactly.rest ▸ rfl
    refine (h.valueList c vs e hvs (hrow ▸ .comma (.inr rfl) hmore)).bind ?_
    exact (Gives.afterGap_extended hsolid hu.exactly_extended.optional).bind (gives_pure _ _)
  · have hrow : e.pastGap.rest = ']' :: more := by
      rw [← hmore, ← Cursor.rest_pastGap, Cursor.pastGap_pastGap]
    have hsolid : StartsSolid e.pastGap.rest := hrow ▸ rfl
    refine (h.valueList c vs e hvs (e.rest_pastGap ▸ hrow ▸ .close (.inr rfl))).bind ?_
    have hnone : (exactly ",").Refuses (e.pastGap.extended ext k).rest := by
      rw [Cursor.extended, hrow]
      exact refuses_exactly_of_head (c := ',') rfl (by simp)
    exact (Gives.afterGap_extended hsolid hnone.optional_gives).bind (gives_pure _ _)

theorem array (h : CarriesValue ext k p p') :
    Carries ext k (array p) (array p') id fun _ => True := by
  intro c v d hreads _
  obtain ⟨_, c₁, hopen, hrest⟩ := Reads.of_bind (Reads.of_symbol hreads)
  obtain ⟨vs, c₂, hvalues, hrest⟩ := Reads.of_bind hrest
  obtain ⟨_, c₃, hclose, hpure⟩ := Reads.of_bind hrest
  obtain ⟨rfl, rfl⟩ := hpure.of_pure
  have hclosed : (afterGap c₂.rest).head? = some ']' := rest_of_mark hclose ▸ rfl
  have hvalues' := optional_extended (.inr rfl) h.arrayValues
    (fun c vs d hvs => by
      obtain ⟨vs', e, hlist, -⟩ := Reads.of_bind hvs
      exact h.starts_valueList hlist)
    (fun cs => ((h.refuses ']' cs (.inr rfl)).bind _).bind _) hvalues hclosed
  refine Gives.symbol (hopen.exactly_extended.bind ?_) _
  refine hvalues'.bind ?_
  exact (mark_extended hclose ⟨']', [], rfl, rfl⟩).bind (gives_pure _ _)

end CarriesValue

/-! ## Values -/

theorem carries_stringLiteral (ext : List Char) (k : Nat) :
    Carries ext k stringLiteral stringLiteral id fun _ => True := by
  intro c v d hreads _
  obtain ⟨_, c₁, hopen, hrest⟩ := Reads.of_bind (Reads.of_symbol hreads)
  obtain ⟨i, c₂, hinner, hrest⟩ := Reads.of_bind hrest
  obtain ⟨_, c₃, hclose, hpure⟩ := Reads.of_bind hrest
  obtain ⟨rfl, rfl⟩ := hpure.of_pure
  have hquote : c₂.rest.head? = some '"' := hclose.of_exactly.rest ▸ rfl
  refine Gives.symbol (hopen.exactly_extended.bind ?_) _
  refine ((hinner.of_symbol.lexeme_extended keeps_stringInner hquote).symbol _).bind ?_
  exact hclose.exactly_extended.bind (gives_pure _ _)

/-- A number, or a word that ends where it does, is read as a plain value. -/
inductive ReadsPlain (c : Cursor) : SettingValue → Cursor → Prop
  | number {i : Ident} {d : Cursor} (h : (lexeme Lexeme.number).Reads c i d) :
      ReadsPlain c (.number i.name) d
  | boolean {i : Ident} {d : Cursor} (h : (lexeme Lexeme.boolean).Reads c i d) :
      ReadsPlain c (.boolean (i.name == "true")) d
  | ident {i : Ident} {d : Cursor} (hboolean : Lexeme.boolean c.rest = none)
      (h : identifier.Reads c i d) : ReadsPlain c (.ident i.name) d

theorem readsPlain_of_plainValue {v : SettingValue} (h : plainValue.Reads c v d) :
    ReadsPlain c v d := by
  rcases Reads.of_orElse h with hnumber | ⟨-, h⟩
  · obtain ⟨i, e, hi, hpure⟩ := hnumber.of_bind
    obtain ⟨rfl, rfl⟩ := hpure.of_pure
    exact .number hi.of_symbol
  · rcases Reads.of_orElse h with hboolean | ⟨hfails, h⟩
    · obtain ⟨i, e, hi, hpure⟩ := hboolean.of_bind
      obtain ⟨rfl, rfl⟩ := hpure.of_pure
      exact .boolean hi.of_symbol
    · rcases Reads.of_orElse h with hident | ⟨-, hfail⟩
      · obtain ⟨i, e, hi, hpure⟩ := hident.of_bind
        obtain ⟨rfl, rfl⟩ := hpure.of_pure
        exact .ident hfails.of_bind_pure.of_symbol.of_lexeme hi
      · exact absurd hfail not_reads_fail

/-- What a plain value starts with: a number, or a word up to its end. -/
theorem ReadsPlain.starts {v : SettingValue} (h : ReadsPlain c v d) :
    (∃ ch rest, c.rest = ch :: rest ∧ (ch = '-' ∨ isDigit ch = true)) ∨
      ∃ s, IsIdentifier s ∧ c.rest = s.toList ++ d.rest ∧ d.rest.head?.any isWordChar = false := by
  cases h with
  | number h =>
      obtain ⟨l, hscan, -, -⟩ := h.of_lexeme
      obtain ⟨hnumeral, hrest, -⟩ := number_eq_some hscan
      obtain ⟨ch, cs, heq, hch⟩ := isNumeral_head hnumeral
      rw [String.toList_ofList] at heq
      exact .inl ⟨ch, cs ++ d.rest, by rw [hrest, heq]; rfl, hch⟩
  | boolean h =>
      obtain ⟨l, hscan, -, -⟩ := h.of_lexeme
      obtain ⟨b, hb⟩ := boolean_eq_some hscan
      obtain ⟨-, hrest, hhead⟩ := wholeWord_eq_some hb
      exact .inr ⟨toString b, isIdentifier_boolean b, hrest, hhead⟩
  | ident _ h =>
      obtain ⟨l, hscan, -, -⟩ := h.of_symbol.of_lexeme
      obtain ⟨hword, hrest, hhead⟩ := word_eq_some hscan
      refine .inr ⟨String.ofList l, ?_, by rw [hrest, String.toList_ofList], hhead⟩
      rw [IsIdentifier, String.toList_ofList]
      exact hword

theorem carries_plainValue (ext : List Char) (k : Nat) :
    Carries ext k plainValue plainValue id EndsPart := by
  intro c v d hreads hd
  have hne : d.rest ≠ [] := ne_nil_of_afterGap hd.solid
  have hplain := readsPlain_of_plainValue hreads
  cases hplain with
  | number h =>
      have hpoint : d.rest.head? ≠ some '.' := hd.head?_ne (by decide)
      refine Gives.orElse ?_ _
      exact ((h.lexeme_extended keeps_number ⟨hne, hpoint⟩).symbol _).bind (gives_pure _ _)
  | @boolean i d h =>
      obtain ⟨l, hscan, -, -⟩ := h.of_lexeme
      obtain ⟨b, hb⟩ := boolean_eq_some hscan
      obtain ⟨-, hrest, -⟩ := wholeWord_eq_some hb
      have hnumber : (symbol .number (lexeme Lexeme.number)).Refuses (c.extended ext k).rest := by
        rw [Cursor.extended, hrest, List.append_assoc]
        exact refuses_number (isIdentifier_boolean b)
      refine Refuses.orElse_gives (hnumber.bind _) (Gives.orElse ?_ _)
      exact ((h.lexeme_extended keeps_boolean hne).symbol _).bind (gives_pure _ _)
  | @ident i d hboolean h =>
      obtain ⟨l, hscan, -, -⟩ := h.of_symbol.of_lexeme
      obtain ⟨hword, hrest, hhead⟩ := word_eq_some hscan
      obtain ⟨s, rfl⟩ : ∃ s : String, s.toList = l := ⟨String.ofList l, String.toList_ofList⟩
      have hplain : IsPlainName s := by
        refine ⟨hword, ?_, ?_⟩
        · rintro rfl
          rw [hrest] at hboolean
          cases (boolean_append true hhead).symm.trans hboolean
        · rintro rfl
          rw [hrest] at hboolean
          cases (boolean_append false hhead).symm.trans hboolean
      have hlonger : (c.extended ext k).rest = s.toList ++ (d.rest ++ ext) := by
        rw [Cursor.extended, hrest, List.append_assoc]
      have hnumber : (symbol .number (lexeme Lexeme.number)).Refuses (c.extended ext k).rest :=
        hlonger ▸ refuses_number hword
      have hbool : (symbol .boolean (lexeme Lexeme.boolean)).Refuses (c.extended ext k).rest := by
        rw [hlonger]
        exact (refuses_lexeme (boolean_eq_none hplain (by rwa [head?_any_append hne]))).symbol _
      refine Refuses.orElse_gives (hnumber.bind _)
        (Refuses.orElse_gives (hbool.bind _) (Gives.orElse ?_ _))
      exact (carries_identifier ext k c i d h hd.solid).bind (gives_pure _ _)

/-- A plain value is no call, no array and no string, in the longer text either. -/
theorem refuses_nested_of_plain {p : Parser SettingValue} {v : SettingValue} (ext : List Char)
    (h : ReadsPlain c v d) (hd : EndsPart (afterGap d.rest)) :
    (functionCall p).Refuses (c.rest ++ ext) ∧ (array p).Refuses (c.rest ++ ext) ∧
      stringLiteral.Refuses (c.rest ++ ext) := by
  have hsolid := hd.solid
  have hne : d.rest ≠ [] := ne_nil_of_afterGap hsolid
  rcases h.starts with ⟨ch, rest, hrest, hch⟩ | ⟨s, hs, hrest, hhead⟩
  · rw [hrest]
    have hstart : isWordStart ch = false := by
      rcases hch with rfl | hdigit
      · rfl
      · exact isWordStart_of_isDigit hdigit
    refine ⟨refuses_functionCall hstart, refuses_array ?_, refuses_stringLiteral ?_⟩
    · rintro ⟨⟩
      exact absurd hch (by decide)
    · rintro ⟨⟩
      exact absurd hch (by decide)
  · have hopen : (afterGap (d.rest ++ ext)).head? ≠ some '(' := by
      obtain ⟨ch, rest, hgap, -, hnot⟩ := hd
      rw [afterGap_append hsolid, hgap]
      rintro ⟨⟩
      exact hnot (by decide)
    obtain ⟨ch, w, hcons, hch, -⟩ := isWord_iff.mp hs
    rw [hrest, List.append_assoc]
    refine ⟨refuses_functionCall_word hs (by rwa [head?_any_append hne]) hopen,
      refuses_array ?_, refuses_stringLiteral ?_⟩
    · rw [hcons]
      rintro ⟨⟩
      exact absurd hch (by decide)
    · rw [hcons]
      rintro ⟨⟩
      exact absurd hch (by decide)

theorem starts_value {depth : Nat} {v : SettingValue} (h : (value depth).Reads c v d) :
    StartsSolid c.rest := by
  cases depth with
  | zero => exact absurd h not_reads_fail
  | succ depth =>
      rw [value_succ] at h
      rcases Reads.of_orElse h with hcall | ⟨-, h⟩
      · obtain ⟨i, e, hi, -⟩ := Reads.of_bind hcall.of_symbol
        obtain ⟨ch, rest, hrest, hch⟩ := starts_of_identifier hi
        exact startsSolid_of_isWordStart hrest hch
      · rcases Reads.of_orElse h with harray | ⟨-, h⟩
        · obtain ⟨_, e, hopen, -⟩ := Reads.of_bind harray.of_symbol
          exact hopen.of_exactly.rest ▸ rfl
        · rcases Reads.of_orElse h with hstring | ⟨-, h⟩
          · obtain ⟨_, e, hopen, -⟩ := Reads.of_bind hstring.of_symbol
            exact hopen.of_exactly.rest ▸ rfl
          · rcases Reads.of_orElse h with hplain | ⟨-, h⟩
            · rcases (readsPlain_of_plainValue hplain).starts with
                ⟨ch, rest, hrest, hch⟩ | ⟨s, hs, hrest, -⟩
              · rw [hrest]
                rcases hch with rfl | hdigit
                · rfl
                · exact isSolid_of_isWordChar (isWordChar_of_isDigit hdigit)
              · obtain ⟨ch, w, hcons, hch, -⟩ := isWord_iff.mp hs
                exact startsSolid_of_isWordStart (hrest.trans (by rw [hcons]; rfl)) hch
            · exact absurd h not_reads_fail

/-- A value is read in a longer text, however much deeper values may be nested there. -/
theorem carriesValue (ext : List Char) (k : Nat) {depth deeper : Nat} (h : depth ≤ deeper) :
    CarriesValue ext k (value depth) (value deeper) := by
  refine ⟨?_, fun c v d => starts_value, fun ch cs hch => refuses_value hch deeper cs⟩
  induction depth generalizing deeper with
  | zero => exact fun c v d hreads => absurd hreads not_reads_fail
  | succ depth ih =>
      obtain ⟨deeper, rfl⟩ : ∃ n, deeper = n + 1 := ⟨deeper - 1, by omega⟩
      have hnested : CarriesValue ext k (value depth) (value deeper) :=
        ⟨ih (by omega), fun c v d => starts_value, fun ch cs hch => refuses_value hch deeper cs⟩
      intro c v d hreads hd
      rw [value_succ] at hreads ⊢
      rcases Reads.of_orElse hreads with hcall | ⟨-, hreads⟩
      · exact (hnested.functionCall c v d hcall trivial).orElse _
      · rcases Reads.of_orElse hreads with harray | ⟨-, hreads⟩
        · obtain ⟨_, e, hopen, -⟩ := Reads.of_bind harray.of_symbol
          have hrest : (c.extended ext k).rest = '[' :: (e.rest ++ ext) := by
            rw [Cursor.extended, hopen.of_exactly.rest]
            rfl
          have hcall : (functionCall (value deeper)).Refuses (c.extended ext k).rest :=
            hrest ▸ refuses_functionCall rfl
          exact hcall.orElse_gives ((hnested.array c v d harray trivial).orElse _)
        · rcases Reads.of_orElse hreads with hstring | ⟨-, hreads⟩
          · obtain ⟨_, e, hopen, -⟩ := Reads.of_bind hstring.of_symbol
            have hrest : (c.extended ext k).rest = '"' :: (e.rest ++ ext) := by
              rw [Cursor.extended, hopen.of_exactly.rest]
              rfl
            have hcall : (functionCall (value deeper)).Refuses (c.extended ext k).rest :=
              hrest ▸ refuses_functionCall rfl
            have harray : (array (value deeper)).Refuses (c.extended ext k).rest :=
              hrest ▸ refuses_array (by simp)
            exact hcall.orElse_gives (harray.orElse_gives
              ((carries_stringLiteral ext k c v d hstring trivial).orElse _))
          · rcases Reads.of_orElse hreads with hplain | ⟨-, hfail⟩
            · obtain ⟨hcall, harray, hstring⟩ :=
                refuses_nested_of_plain (p := value deeper) ext (readsPlain_of_plainValue hplain) hd
              exact Refuses.orElse_gives hcall (Refuses.orElse_gives harray
                (Refuses.orElse_gives hstring
                  ((carries_plainValue ext k c v d hplain hd).orElse _)))
            · exact absurd hfail not_reads_fail

theorem starts_anyValue {v : SettingValue} (h : anyValue.Reads c v d) : StartsSolid c.rest := by
  obtain ⟨trail, trail', heq⟩ := h
  exact starts_value ⟨trail, trail', heq⟩

theorem carries_anyValue (ext : List Char) (k : Nat) :
    Carries ext k anyValue anyValue id EndsPart := by
  intro c v d hreads hd
  obtain ⟨trail, trail', heq⟩ := hreads
  have hlonger : c.rest.length + 1 ≤ (c.extended ext k).rest.length + 1 := by
    rw [Cursor.extended, List.length_append]
    omega
  have hgives := (carriesValue ext k hlonger).carries c v d ⟨trail, trail', heq⟩ hd
  exact fun trail => hgives trail

end SchemaMigration.Grammar
