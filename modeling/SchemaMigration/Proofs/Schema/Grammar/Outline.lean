import SchemaMigration.Proofs.Schema.ArgumentText.Interpretation
import SchemaMigration.Proofs.Schema.Bare
import SchemaMigration.Proofs.Schema.Grammar.Setting

/-! # Reading written blocks

The members of a block are read one to a line, and what they mean is what was written. A field's
attributes are read up to the end of its line; the gap behind them may belong to either line.
-/

namespace SchemaMigration

open Grammar
open SchemaMigration.Grammar.Parser
open ArgumentText (rawArgument_append)
open Text (isWordChar isWordStart)

/-! ## Attributes -/

/-- What is written as an attribute means it, apart from where it stands. -/
def Attribute.IsMeantBy (mark : String) (a : Attribute) (written : AttributeText) : Prop :=
  ∃ b, Attribute.ofText mark written = .ok b ∧ b.bare = a.bare

/-- What ends an attribute: a blank or the end of the line. -/
def EndsAttribute (rest : List Char) : Prop :=
  rest.head? = some ' ' ∨ rest.head? = some '\n'

theorem EndsAttribute.head_ne {rest : List Char} (h : EndsAttribute rest) {c : Char}
    (hc : c ≠ ' ' ∧ c ≠ '\n') : rest.head? ≠ some c := by
  rcases h with h | h <;> simp [h, hc.1.symm, hc.2.symm]

theorem EndsAttribute.word {rest : List Char} (h : EndsAttribute rest) :
    rest.head?.any isWordChar = false := by
  rcases h with h | h <;> rw [h] <;> rfl

/-- An attribute that can be written and is read back. -/
structure Attribute.IsReadable (a : Attribute) : Prop where
  writable : a.IsWritable
  tidy : a.args.IsTidy

section Attributes

variable {a : Attribute} {rest : List Char}

theorem chars?_eq_none {args : Arguments} (h : args.chars? = none) : args = .none := by
  cases args <;> first | rfl | cases h

theorem isMeantBy_of_body (h : a.IsReadable) (mark : String) {written : AttributeText}
    (hname : written.name.name = a.name.name)
    (harguments : written.arguments = a.args.chars?.map String.ofList) :
    a.IsMeantBy mark written := by
  obtain ⟨name, arguments, span⟩ := written
  cases hchars : a.args.chars? with
  | none =>
      rw [hchars] at harguments
      cases harguments
      refine ⟨⟨name, .none, span⟩, rfl, ?_⟩
      rw [Attribute.bare_eq_iff]
      exact ⟨hname, (chars?_eq_none hchars).symm⟩
  | some text =>
      rw [hchars] at harguments
      cases harguments
      have hinterpret := Arguments.interpret_chars h.writable.args h.tidy hchars
      refine ⟨⟨name, a.args, span⟩, ?_, Attribute.bare_eq_iff.mpr ⟨hname, rfl⟩⟩
      dsimp only at hname
      simp only [Attribute.ofText, hname, hinterpret]

theorem yields_attributeArgs {text : List Char} (h : ArgumentText.Balanced true text)
    (rest : List Char) :
    attributeArgs.Yields ('(' :: (text ++ ')' :: rest))
      fun raw r => raw = String.ofList text ∧ r = rest := by
  have hcloses : ArgumentText.Closes (')' :: rest) := by
    rintro c ⟨⟩
    exact .inl rfl
  refine Yields.symbol ((yields_exactly "(" _).bind ?_) _
  rintro _ r rfl
  refine ((yields_lexeme (rawArgument_append h hcloses)).symbol _).bind ?_
  rintro i r ⟨hname, rfl⟩
  refine (yields_exactly ")" rest).bind ?_
  rintro _ r rfl
  exact yields_pure ⟨hname, rfl⟩

/-- A name and balanced text in parentheses are the body of an attribute. -/
theorem yields_attributeBody_of_balanced {name : String} (hname : IsDottedName name)
    {text : List Char} (htext : ArgumentText.Balanced true text) (rest : List Char) :
    attributeBody.Yields (name.toList ++ '(' :: (text ++ ')' :: rest))
      fun body r => (body.1.name = name ∧ body.2 = some (String.ofList text)) ∧ r = rest := by
  refine ((yields_lexeme (attributeName_append hname (by rfl) (by simp))).symbol _).bind ?_
  rintro i r ⟨hi, rfl⟩
  refine (yields_attributeArgs htext rest).optional.bind ?_
  rintro o r ⟨raw, rfl, rfl, rfl⟩
  exact yields_pure ⟨⟨by rw [hi, String.ofList_toList], rfl⟩, rfl⟩

theorem yields_attributeBody (h : a.IsReadable) (hrest : EndsAttribute rest) :
    attributeBody.Yields (a.name.name.toList ++ a.args.parenthesized ++ rest)
      fun body r => (body.1.name = a.name.name ∧ body.2 = a.args.chars?.map String.ofList) ∧
        r = rest := by
  rw [List.append_assoc]
  cases hchars : a.args.chars? with
  | none =>
      have hnothing : a.args.parenthesized = [] := by rw [Arguments.parenthesized, hchars]
      rw [hnothing, List.nil_append]
      refine ((yields_lexeme (attributeName_append h.writable.name hrest.word
        (hrest.head_ne (by decide)))).symbol _).bind ?_
      rintro i r ⟨hname, rfl⟩
      have hargs : attributeArgs.Refuses r :=
        ((refuses_exactly_of_head (c := '(') rfl (hrest.head_ne (by decide))).bind _).symbol _
      refine hargs.optional.bind ?_
      rintro o r ⟨rfl, rfl⟩
      exact yields_pure ⟨⟨by rw [hname, String.ofList_toList], rfl⟩, rfl⟩
  | some text =>
      have hpart := Arguments.isPart_chars h.writable.args h.tidy hchars
      have htext : a.args.parenthesized ++ rest = '(' :: (text ++ ')' :: rest) := by
        simp [Arguments.parenthesized, hchars]
      rw [htext]
      exact yields_attributeBody_of_balanced h.writable.name hpart.balanced rest

theorem yields_fieldAttribute_of_body {Q : Ident × Option String → List Char → Prop}
    {cs : List Char} (hone : cs.head? ≠ some '@') (h : attributeBody.Yields cs Q) :
    fieldAttribute.Yields ('@' :: cs) fun written r => Q (written.name, written.arguments) r := by
  have hbody : (symbol .fieldAttribute do
      exactly "@"
      notNext '@'
      attributeBody).Yields ('@' :: cs) Q := by
    refine Yields.symbol ((yields_exactly "@" _).bind ?_) _
    rintro _ r rfl
    refine (yields_notNext hone).bind ?_
    rintro _ r rfl
    exact h
  refine hbody.located.bind ?_
  rintro ⟨⟨name, arguments⟩, span⟩ r hQ
  exact yields_pure hQ

theorem yields_blockAttribute_of_body {Q : Ident × Option String → List Char → Prop}
    {cs : List Char} (h : attributeBody.Yields cs Q) :
    blockAttribute.Yields ("@@".toList ++ cs)
      fun m r => ∃ written, m = .attribute written ∧ Q (written.name, written.arguments) r := by
  have hbody : (symbol .modelAttribute do
      exactly "@@"
      attributeBody).Yields ("@@".toList ++ cs) Q := by
    refine Yields.symbol ((yields_exactly "@@" _).bind ?_) _
    rintro _ r rfl
    exact h
  refine hbody.located.bind ?_
  rintro ⟨⟨name, arguments⟩, span⟩ r hQ
  exact yields_pure ⟨_, rfl, hQ⟩

/-- A text that is read as an attribute behind its mark. -/
structure Attribute.IsReadFrom (a : Attribute) (text : List Char) : Prop where
  head : text.head?.any isWordStart = true
  reads : ∀ rest, EndsAttribute rest → attributeBody.Yields (text ++ rest) fun body r =>
    (∀ mark span, a.IsMeantBy mark ⟨body.1, body.2, span⟩) ∧ r = rest

/-- The canonical text of an attribute behind its mark. -/
def Attribute.body (a : Attribute) : List Char :=
  a.name.name.toList ++ a.args.parenthesized

theorem Attribute.isReadFrom_body (h : a.IsReadable) : a.IsReadFrom a.body where
  head := head_isDottedName_append h.writable.name _
  reads := by
    intro rest hrest
    refine (yields_attributeBody h hrest).mono ?_
    rintro body r ⟨⟨hname, harguments⟩, hr⟩
    exact ⟨fun mark span => isMeantBy_of_body h mark hname harguments, hr⟩

namespace Attribute.IsReadFrom

variable {text : List Char}

/-- The text behind a mark does not begin with a further mark. -/
theorem head?_ne (h : a.IsReadFrom text) (rest : List Char) : (text ++ rest).head? ≠ some '@' := by
  have hhead := h.head
  cases text with
  | nil => cases hhead
  | cons c cs =>
      rintro ⟨⟩
      exact absurd (show isWordStart '@' = true from hhead) (by decide)

theorem yields_fieldAttribute (h : a.IsReadFrom text) (hrest : EndsAttribute rest) :
    fieldAttribute.Yields ('@' :: text ++ rest)
      fun written r => a.IsMeantBy "@" written ∧ r = rest := by
  refine (yields_fieldAttribute_of_body (h.head?_ne rest) (h.reads rest hrest)).mono ?_
  rintro written r ⟨hmeans, hr⟩
  exact ⟨hmeans "@" written.span, hr⟩

theorem yields_blockAttribute (h : a.IsReadFrom text) (hrest : EndsAttribute rest) :
    blockAttribute.Yields ("@@".toList ++ text ++ rest)
      fun m r => (∃ written, m = .attribute written ∧ a.IsMeantBy "@@" written) ∧ r = rest := by
  rw [List.append_assoc]
  refine (yields_blockAttribute_of_body (h.reads rest hrest)).mono ?_
  rintro m r ⟨written, rfl, hmeans, hr⟩
  exact ⟨⟨written, rfl, hmeans "@@" written.span⟩, hr⟩

end Attribute.IsReadFrom

/-- What ends a member: the end of its line, behind which no call and no attribute of a field
begins. -/
structure EndsMember (rest : List Char) : Prop where
  line : rest.head? = some '\n'
  call : (afterGap rest).head? ≠ some '('
  mark : ∀ cs, afterGap rest = '@' :: cs → cs.head? = some '@'

theorem EndsMember.endsAttribute (h : EndsMember rest) : EndsAttribute rest :=
  .inr h.line

theorem EndsMember.endsValue (h : EndsMember rest) : EndsValue rest where
  word := by rw [h.line]; rfl
  point := by rw [h.line]; simp
  call := h.call

theorem EndsMember.refuses_fieldAttribute (h : EndsMember rest) :
    fieldAttribute.Refuses (afterGap rest) := by
  refine Refuses.bind (Refuses.located (Refuses.symbol ?_ _)) _
  by_cases hmark : (afterGap rest).head? = some '@'
  · obtain ⟨cs, hcs⟩ := List.head?_eq_some_iff.mp hmark
    obtain ⟨cs', rfl⟩ := List.head?_eq_some_iff.mp (h.mark cs hcs)
    rw [hcs]
    refine (yields_exactly "@" _).bind_refuses ?_
    rintro _ r rfl
    exact (refuses_notNext '@' cs').bind _
  · exact (refuses_exactly_of_head rfl hmark).bind _

/-- The attributes behind a field or a value, each written in a given way. -/
def Attribute.trailingBy (w : Attribute → List Char) (attributes : List Attribute) : List Char :=
  attributes.flatMap fun a => [' '] ++ '@' :: w a

variable {w : Attribute → List Char} {attributes : List Attribute}

/-- The attributes behind a field or a value are read, up to the end of the line. -/
theorem yields_trailing (h : ∀ a ∈ attributes, a.IsReadFrom (w a)) (hrest : EndsMember rest) :
    (gapThen (many fieldAttribute)).Yields (Attribute.trailingBy w attributes ++ rest)
      fun written r => List.Forall₂ (Attribute.IsMeantBy "@") attributes written ∧
        afterGap r = afterGap rest := by
  have hitems : ReadsItems fieldAttribute [' '] (fun a => '@' :: w a) (Attribute.IsMeantBy "@")
      EndsAttribute attributes := {
    gap := List.forall_mem_singleton.mpr rfl
    solid := fun a _ => rfl
    follows := fun a _ following => .inl rfl
    reads := fun a ha following hfollowing =>
      ((h a ha).yields_fieldAttribute hfollowing).mono fun _ _ ⟨hmeans, hr⟩ =>
        ⟨hmeans, by rw [hr]⟩ }
  exact Yields.afterGap (hitems.many hrest.endsAttribute hrest.refuses_fieldAttribute)

theorem endsAttribute_trailing (w : Attribute → List Char) (attributes : List Attribute)
    (hrest : EndsAttribute rest) : EndsAttribute (Attribute.trailingBy w attributes ++ rest) := by
  cases attributes with
  | nil => exact hrest
  | cons a attributes => exact .inl rfl

end Attributes

/-! ## Fields and values -/

namespace Part

def bare : Part → Part
  | .field f => .field f.bare
  | .value v => .value v.bare
  | .attribute a => .attribute a.bare

/-- A member means a part, apart from where it stands. -/
def IsMeantBy (p : Part) (m : Member) : Prop :=
  ∃ q, Part.ofMember? m = .ok (some q) ∧ q.bare = p.bare

/-- A part whose attributes are written in a given way. -/
def charsBy (w : Attribute → List Char) : Part → List Char
  | .field f =>
    f.name.name.toList ++ ' ' :: (f.type.text.toList ++ Attribute.trailingBy w f.attributes)
  | .value v => v.name.name.toList ++ Attribute.trailingBy w v.attributes
  | .attribute a => "@@".toList ++ w a

theorem charsBy_body : charsBy Attribute.body = chars := by
  funext p
  cases p <;> rfl

/-- A part that can be written with attributes that are read back. -/
structure IsReadableBy (w : Attribute → List Char) (p : Part) : Prop where
  writable : p.IsWritable
  attributes : ∀ a ∈ p.attributes, a.IsReadFrom (w a)

end Part

section Members

variable {w : Attribute → List Char} {rest : List Char}

/-- A mark that is read where it is written, and nowhere else. -/
theorem yields_optional_symbol {mark : String} {c : Char} {l : List Char}
    (hmark : mark.toList = c :: l) (given : Bool) (hrest : rest.head? ≠ some c) (sym : Symbol) :
    (optional (symbol sym (exactly mark))).Yields ((if given then mark else "").toList ++ rest)
      fun o r => o.isSome = given ∧ r = rest := by
  cases given with
  | true =>
      refine ((yields_exactly mark rest).symbol sym).optional.mono ?_
      rintro o r ⟨_, rfl, rfl⟩
      exact ⟨rfl, rfl⟩
  | false =>
      refine ((refuses_exactly_of_head hmark hrest).symbol sym).optional.mono ?_
      rintro o r ⟨rfl, rfl⟩
      exact ⟨rfl, rfl⟩

theorem yields_fieldType {t : FieldType} (h : IsIdentifier t.base)
    (hrest : EndsAttribute rest) :
    fieldType.Yields (t.text.toList ++ rest) fun a r => a = t ∧ r = rest := by
  obtain ⟨base, isList, isOptional⟩ := t
  let optionalMark := (if isOptional then "?" else "").toList
  let listMark := (if isList then "[]" else "").toList
  have hchars : (FieldType.text ⟨base, isList, isOptional⟩).toList ++ rest =
      base.toList ++ (listMark ++ (optionalMark ++ rest)) := by
    simp [FieldType.text, listMark, optionalMark]
  have hbracket : (optionalMark ++ rest).head? ≠ some '[' := by
    cases isOptional with
    | true => simp [optionalMark]
    | false => exact hrest.head_ne (by decide)
  have hbase : (listMark ++ (optionalMark ++ rest)).head?.any isWordChar = false := by
    cases isList with
    | true => rfl
    | false =>
        cases isOptional with
        | true => rfl
        | false => exact hrest.word
  rw [hchars]
  refine Yields.symbol ((yields_identifier h hbase).bind ?_) _
  rintro i r ⟨hname, rfl⟩
  refine (yields_optional_symbol rfl isList hbracket .listMarker).bind ?_
  rintro list r ⟨hlist, rfl⟩
  refine (yields_optional_symbol rfl isOptional (hrest.head_ne (by decide)) .optionalMarker).bind ?_
  rintro opt r ⟨hopt, rfl⟩
  exact yields_pure ⟨by rw [hname, hlist, hopt], rfl⟩

theorem isSolid_head_fieldType {t : FieldType} (h : IsIdentifier t.base) :
    t.text.toList.head?.any isSolid = true := by
  have hhead := isSolid_head_of_isIdentifier h
  have hne : t.base.toList ≠ [] := h.ne_nil
  rw [FieldType.text, String.toList_append, String.toList_append, List.append_assoc,
    List.head?_append_of_ne_nil _ hne]
  exact hhead

theorem attributes_of_isMeantBy {attributes : List Attribute} {written : List AttributeText}
    (h : List.Forall₂ (Attribute.IsMeantBy "@") attributes written) :
    ∃ as, Attribute.ofTexts written = .ok as ∧
      as.map Attribute.bare = attributes.map Attribute.bare :=
  mapM_eq_ok_of_forall₂ h

/-- A name, a type, and what is read behind them as attributes make up a field. -/
theorem yields_field_of_trailing {name : String} {t : FieldType} {trailing : List Char}
    {Q : List AttributeText → List Char → Prop} (hname : IsIdentifier name)
    (htype : IsIdentifier t.base) (hends : EndsAttribute trailing)
    (h : (gapThen (many fieldAttribute)).Yields trailing Q) :
    Grammar.field.Yields (name.toList ++ ' ' :: (t.text.toList ++ trailing))
      fun m r => ∃ i written span, m = .field i t written span ∧ i.name = name ∧ Q written r := by
  have hgap : afterGap (' ' :: (t.text.toList ++ trailing)) = t.text.toList ++ trailing := by
    rw [afterGap_cons_of_isGap (by rfl), afterGap_append_of_isSolid (isSolid_head_fieldType htype)]
  have hbody : (symbol .field do
      let name ← identifier
      let type ← gapThen fieldType
      let attributes ← gapThen (many fieldAttribute)
      return (name, type, attributes)).Yields (name.toList ++ ' ' :: (t.text.toList ++ trailing))
        fun body r => body.1.name = name ∧ body.2.1 = t ∧ Q body.2.2 r := by
    refine Yields.symbol ((yields_identifier hname (by rfl)).bind ?_) _
    rintro i r ⟨hi, rfl⟩
    refine (yields_gapThen hgap (yields_fieldType htype hends)).bind ?_
    rintro t r ⟨rfl, rfl⟩
    refine h.bind ?_
    rintro written r hwritten
    exact yields_pure ⟨hi, rfl, hwritten⟩
  refine hbody.located.bind ?_
  rintro ⟨⟨i, type, written⟩, span⟩ r ⟨hi, rfl, hwritten⟩
  exact yields_pure ⟨i, written, span, rfl, hi, hwritten⟩

/-- A field means what it was written for when its name and its attributes do. -/
theorem Part.isMeantBy_field {f : Field} {i : Ident} {written : List AttributeText} {span : Span}
    (hname : i.name = f.name.name)
    (hwritten : List.Forall₂ (Attribute.IsMeantBy "@") f.attributes written) :
    (Part.field f).IsMeantBy (.field i f.type written span) := by
  obtain ⟨attributes, hattributes, hbare⟩ := attributes_of_isMeantBy hwritten
  refine ⟨.field ⟨i, f.type, attributes, span⟩, ?_, ?_⟩
  · simp only [Part.ofMember?, hattributes]
    rfl
  · simp [Part.bare, Field.bare, Ident.bare, hname, hbare]

theorem yields_field {f : Field} (h : (Part.field f).IsReadableBy w) (hrest : EndsMember rest) :
    Grammar.field.Yields ((Part.field f).charsBy w ++ rest)
      fun m r => (Part.field f).IsMeantBy m ∧ afterGap r = afterGap rest := by
  have hf : f.IsWritable := h.writable
  have hchars : (Part.field f).charsBy w ++ rest = f.name.name.toList ++
      ' ' :: (f.type.text.toList ++ (Attribute.trailingBy w f.attributes ++ rest)) := by
    simp [Part.charsBy]
  rw [hchars]
  refine (yields_field_of_trailing hf.name hf.type
    (endsAttribute_trailing w f.attributes hrest.endsAttribute)
    (yields_trailing h.attributes hrest)).mono ?_
  rintro m r ⟨i, written, span, rfl, hi, hwritten, hr⟩
  exact ⟨Part.isMeantBy_field hi hwritten, hr⟩

theorem yields_enumValue {v : EnumValue} (h : (Part.value v).IsReadableBy w)
    (hrest : EndsMember rest) :
    enumValue.Yields ((Part.value v).charsBy w ++ rest)
      fun m r => (Part.value v).IsMeantBy m ∧ afterGap r = afterGap rest := by
  have hv : v.IsWritable := h.writable
  have hends := endsAttribute_trailing w v.attributes hrest.endsAttribute
  have hbody : (symbol .enumValue do
      let name ← identifier
      let attributes ← gapThen (many fieldAttribute)
      return (name, attributes)).Yields ((Part.value v).charsBy w ++ rest) fun body r =>
        (body.1.name = v.name.name ∧
          List.Forall₂ (Attribute.IsMeantBy "@") v.attributes body.2) ∧
        afterGap r = afterGap rest := by
    rw [Part.charsBy, List.append_assoc]
    refine Yields.symbol ((yields_identifier hv.name hends.word).bind ?_) _
    rintro i r ⟨hname, rfl⟩
    refine (yields_trailing h.attributes hrest).bind ?_
    rintro written r ⟨hwritten, hr⟩
    exact yields_pure ⟨⟨hname, hwritten⟩, hr⟩
  refine hbody.located.bind ?_
  rintro ⟨⟨name, written⟩, span⟩ r ⟨⟨hname, hwritten⟩, hr⟩
  obtain ⟨attributes, hattributes, hbare⟩ := attributes_of_isMeantBy hwritten
  refine yields_pure ⟨⟨.value ⟨name, attributes, span⟩, ?_, ?_⟩, hr⟩
  · simp only [Part.ofMember?, hattributes]
    rfl
  · dsimp only at hname
    simp [Part.bare, EnumValue.bare, Ident.bare, hname, hbare]

/-- The parts that a kind of block may have. -/
def Part.Fits (kind : BlockKind) : Part → Prop
  | .field _ => kind = .model ∨ kind = .view ∨ kind = .type
  | .value _ => kind = .enum
  | .attribute _ => kind = .model ∨ kind = .view ∨ kind = .enum

theorem refuses_blockAttribute_of_isIdentifier {s : String} (h : IsIdentifier s)
    (cs : List Char) : blockAttribute.Refuses (s.toList ++ cs) := by
  obtain ⟨c, w, heq, hc, _⟩ := isWord_iff.mp h
  have hmark : (s.toList ++ cs).head? ≠ some '@' := by
    rw [heq]
    rintro ⟨⟩
    exact absurd hc (by decide)
  exact (((refuses_exactly_of_head rfl hmark).bind _).symbol _).located.bind _

theorem yields_member {kind : BlockKind} {p : Part} (hfits : p.Fits kind) (h : p.IsReadableBy w)
    (hrest : EndsMember rest) :
    (member kind).Yields (p.charsBy w ++ rest)
      fun m r => p.IsMeantBy m ∧ afterGap r = afterGap rest := by
  rcases p with f | v | a
  · have hf : f.IsWritable := h.writable
    have hfield := yields_field h hrest
    have hrefuse : blockAttribute.Refuses ((Part.field f).charsBy w ++ rest) := by
      rw [Part.charsBy, List.append_assoc]
      exact refuses_blockAttribute_of_isIdentifier hf.name _
    rcases hfits with rfl | rfl | rfl
    · exact hrefuse.orElse_yields (hfield.orElse _)
    · exact hrefuse.orElse_yields (hfield.orElse _)
    · exact hfield
  · have hv : v.IsWritable := h.writable
    have hrefuse : blockAttribute.Refuses ((Part.value v).charsBy w ++ rest) := by
      rw [Part.charsBy, List.append_assoc]
      exact refuses_blockAttribute_of_isIdentifier hv.name _
    cases hfits
    exact hrefuse.orElse_yields ((yields_enumValue h hrest).orElse _)
  · have ha : a.IsReadFrom (w a) := h.attributes a List.mem_cons_self
    have hattribute : blockAttribute.Yields ((Part.attribute a).charsBy w ++ rest)
        fun m r => (Part.attribute a).IsMeantBy m ∧ afterGap r = afterGap rest := by
      refine (ha.yields_blockAttribute hrest.endsAttribute).mono ?_
      rintro m r ⟨⟨written, rfl, b, hb, hbare⟩, rfl⟩
      refine ⟨⟨.attribute b, ?_, by rw [Part.bare, Part.bare, hbare]⟩, rfl⟩
      simp only [Part.ofMember?, hb]
      rfl
    rcases hfits with rfl | rfl | rfl <;> exact hattribute.orElse _

/-- The brace that closes a block starts no member. -/
theorem refuses_member (kind : BlockKind) (cs : List Char) :
    (member kind).Refuses ('\x7d' :: cs) := by
  have hidentifier : identifier.Refuses ('\x7d' :: cs) := refuses_identifier (by rfl)
  have hassignment : assignment.Refuses ('\x7d' :: cs) :=
    ((hidentifier.bind _).symbol _).located.bind _
  have hattribute : blockAttribute.Refuses ('\x7d' :: cs) :=
    (((refuses_exactly_of_head (c := '@') rfl (by simp)).bind _).symbol _).located.bind _
  have hfield : Grammar.field.Refuses ('\x7d' :: cs) :=
    ((hidentifier.bind _).symbol _).located.bind _
  have hvalue : enumValue.Refuses ('\x7d' :: cs) :=
    ((hidentifier.bind _).symbol _).located.bind _
  cases kind with
  | datasource => exact hassignment
  | generator => exact hassignment
  | model => exact hattribute.orElse (hfield.orElse refuses_fail)
  | enum => exact hattribute.orElse (hvalue.orElse refuses_fail)
  | type => exact hfield
  | view => exact hattribute.orElse (hfield.orElse refuses_fail)

/-- A line that starts with a word, a brace or the mark of a block's attribute. -/
theorem endsMember_cons {c : Char} {cs : List Char} (hcs : afterGap rest = c :: cs)
    (hopen : c ≠ '(') (hmark : c = '@' → cs.head? = some '@') (hline : rest.head? = some '\n') :
    EndsMember rest where
  line := hline
  call := by
    rw [hcs]
    simpa using hopen
  mark := by
    intro ds hds
    rw [hcs] at hds
    cases hds
    exact hmark rfl

theorem afterGap_line {text : List Char} (h : text.head?.any isSolid = true)
    (rest : List Char) : afterGap ("\n  ".toList ++ text ++ rest) = text ++ rest := by
  rw [List.append_assoc, afterGap_append_of_isGap (List.all_eq_true.mp rfl),
    afterGap_append_of_isSolid h]

theorem endsMember_line_of_isIdentifier {s : String} (h : IsIdentifier s) (more rest : List Char) :
    EndsMember ("\n  ".toList ++ (s.toList ++ more) ++ rest) := by
  have hhead := isSolid_head_of_isIdentifier h
  obtain ⟨c, w, heq, hc, _⟩ := isWord_iff.mp h
  have hsolid : (s.toList ++ more).head?.any isSolid = true := by
    rw [heq] at hhead ⊢
    exact hhead
  have hgap : afterGap ("\n  ".toList ++ (s.toList ++ more) ++ rest) =
      c :: (w ++ more ++ rest) := by
    rw [afterGap_line hsolid, heq]
    simp
  refine endsMember_cons hgap ?_ ?_ rfl
  · rintro rfl
    exact absurd hc (by decide)
  · rintro rfl
    exact absurd hc (by decide)

/-- The parts of a block are its members. -/
theorem readsItems_parts {kind : BlockKind} {parts : List Part}
    (hfits : ∀ p ∈ parts, p.Fits kind) (h : ∀ p ∈ parts, p.IsReadableBy w) :
    ReadsItems (member kind) "\n  ".toList (Part.charsBy w) Part.IsMeantBy EndsMember parts where
  gap := List.all_eq_true.mp rfl
  solid := by
    intro p hp
    rcases p with f | v | a
    · have hf : f.IsWritable := (h _ hp).writable
      rw [Part.charsBy, List.head?_append_of_ne_nil _ hf.name.ne_nil]
      exact isSolid_head_of_isIdentifier hf.name
    · have hv : v.IsWritable := (h _ hp).writable
      rw [Part.charsBy, List.head?_append_of_ne_nil _ hv.name.ne_nil]
      exact isSolid_head_of_isIdentifier hv.name
    · rfl
  follows := by
    intro p hp following
    rcases p with f | v | a
    · have hf : f.IsWritable := (h _ hp).writable
      exact endsMember_line_of_isIdentifier hf.name _ following
    · have hv : v.IsWritable := (h _ hp).writable
      exact endsMember_line_of_isIdentifier hv.name _ following
    · exact endsMember_cons (afterGap_line (by rfl) following) (by decide) (fun _ => rfl) rfl
  reads := fun p hp _ hfollowing => yields_member (hfits p hp) (h p hp) hfollowing

/-- The settings of a block are its members. -/
theorem readsItems_settings {kind : BlockKind} (hkind : kind = .datasource ∨ kind = .generator)
    {b : SettingsBlock} (h : b.IsWritable) :
    ReadsItems (member kind) "\n  ".toList
      (fun setting => setting.1.toList ++ " = ".toList ++ setting.2.chars)
      (fun setting m => ∃ span, m = .property setting.1 setting.2 span) EndsMember
      b.properties where
  gap := List.all_eq_true.mp rfl
  solid := by
    intro setting hsetting
    have hkey := h.keys setting hsetting
    rw [List.append_assoc, List.head?_append_of_ne_nil _ hkey.ne_nil]
    exact isSolid_head_of_isIdentifier hkey
  follows := by
    intro setting hsetting following
    rw [List.append_assoc setting.1.toList]
    exact endsMember_line_of_isIdentifier (h.keys setting hsetting) _ following
  reads := by
    intro setting hsetting following hfollowing
    have hassignment := yields_assignment (h.keys setting hsetting) (h.values setting hsetting)
      hfollowing.endsValue
    rcases hkind with rfl | rfl <;>
      exact hassignment.mono fun m r ⟨hm, hr⟩ => ⟨hm, by rw [hr]⟩

end Members

/-! ## Blocks -/

section Blocks

variable {ι : Type} {kind : BlockKind} {name : String} {items : List ι} {text : ι → List Char}
  {Rel : ι → Member → Prop} {rest : List Char}

theorem yields_block (hname : IsIdentifier name)
    (hitems : ReadsItems (member kind) "\n  ".toList text Rel EndsMember items)
    (rest : List Char) :
    (block kind).Yields (kind.chars name (items.map text) ++ rest)
      fun b r => (b.kind = kind ∧ b.name.name = name ∧ List.Forall₂ Rel items b.members) ∧
        r = rest := by
  let lines := items.flatMap (fun i => "\n  ".toList ++ text i) ++ '\n' :: '\x7d' :: rest
  have hend : afterGap ('\n' :: '\x7d' :: rest) = '\x7d' :: rest := by
    rw [afterGap_cons_of_isGap (by rfl), afterGap_of_isSolid (by rfl)]
  have hstop : EndsMember ('\n' :: '\x7d' :: rest) :=
    endsMember_cons hend (by decide) (fun hmark => absurd hmark (by decide)) rfl
  have hchars : kind.chars name (items.map text) ++ rest =
      kind.keyword.toList ++ ' ' :: (name.toList ++ ' ' :: '\x7b' :: lines) := by
    simp [BlockKind.chars, lines, List.flatMap_map]
  have hname' : afterGap (' ' :: (name.toList ++ ' ' :: '\x7b' :: lines)) =
      name.toList ++ ' ' :: '\x7b' :: lines := by
    rw [afterGap_cons_of_isGap (by rfl),
      afterGap_append_of_isSolid (isSolid_head_of_isIdentifier hname)]
  have hopen : afterGap (' ' :: '\x7b' :: lines) = '\x7b' :: lines := by
    rw [afterGap_cons_of_isGap (by rfl), afterGap_of_isSolid (by rfl)]
  have hbody : (symbol (.block kind) do
      let _ ← symbol (.keyword kind) (lexeme (Lexeme.keyword kind))
      let name ← gapThen identifier
      gapThen (exactly "\x7b")
      let members ← gapThen (many (member kind))
      gapThen (exactly "\x7d")
      return (name, members)).Yields (kind.chars name (items.map text) ++ rest) fun body r =>
        (body.1.name = name ∧ List.Forall₂ Rel items body.2) ∧ r = rest := by
    rw [hchars]
    refine Yields.symbol (((yields_lexeme (wholeWord_append (by rfl))).symbol _).bind ?_) _
    rintro _ r ⟨_, rfl⟩
    refine (yields_gapThen hname' (yields_identifier hname (by rfl))).bind ?_
    rintro i r ⟨hi, rfl⟩
    refine (yields_mark "\x7b" lines hopen).bind ?_
    rintro _ r rfl
    refine (Yields.afterGap (hitems.many hstop (hend ▸ refuses_member kind rest))).bind ?_
    rintro members r ⟨hmembers, hr⟩
    refine (yields_mark "\x7d" rest (hr.trans hend)).bind ?_
    rintro _ r rfl
    exact yields_pure ⟨⟨hi, hmembers⟩, rfl⟩
  refine hbody.located.bind ?_
  rintro ⟨⟨i, members⟩, span⟩ r ⟨⟨hi, hmembers⟩, rfl⟩
  exact yields_pure ⟨⟨rfl, hi, hmembers⟩, rfl⟩

/-- No block of another kind is read. -/
theorem refuses_block {other : BlockKind} (h : other ≠ kind)
    (hrest : rest.head?.any isWordChar = false) :
    (block other).Refuses (kind.keyword.toList ++ rest) := by
  have hword (kind : BlockKind) : ∀ c ∈ kind.keyword.toList, isWordChar c = true :=
    List.all_eq_true.mp (by cases kind <;> rfl)
  have hne : kind.keyword.toList ≠ other.keyword.toList := by
    intro heq
    refine h ?_
    revert heq
    cases kind <;> cases other <;> decide
  have hkeyword : Lexeme.keyword other (kind.keyword.toList ++ rest) = none :=
    wholeWord_eq_none (hword other) (hword kind) hrest hne
  exact (((((refuses_lexeme hkeyword).symbol _).bind _).symbol _).located).bind _

/-- A block of any kind. -/
def Grammar.anyBlock : Parser Block :=
  first (BlockKind.all.map block)

/-- A block behind its keyword is read as a block of any kind. -/
theorem Grammar.Parser.Yields.anyBlock {Q : Block → List Char → Prop} {cs : List Char}
    (h : (block kind).Yields (kind.keyword.toList ++ cs) Q)
    (hcs : cs.head?.any isWordChar = false) :
    anyBlock.Yields (kind.keyword.toList ++ cs) Q := by
  have hmem : block kind ∈ BlockKind.all.map block :=
    List.mem_map_of_mem (by cases kind <;> decide)
  refine yields_first hmem h fun p hp => ?_
  obtain ⟨other, _, rfl⟩ := List.mem_map.mp hp
  by_cases hother : other = kind
  · exact .inl (congrArg block hother)
  · exact .inr (refuses_block hother hcs)

theorem refuses_anyBlock_nil : anyBlock.Refuses [] := by
  refine refuses_first fun p hp => ?_
  obtain ⟨kind, _, rfl⟩ := List.mem_map.mp hp
  have hkeyword : Lexeme.keyword kind [] = none := by cases kind <;> rfl
  exact (((((refuses_lexeme hkeyword).symbol _).bind _).symbol _).located).bind _

/-- Blocks with a line end behind each make up an outline. -/
theorem yields_outline_of_items {Rel : ι → Block → Prop}
    (hsolid : ∀ i ∈ items, (text i).head?.any isSolid = true)
    (hreads : ∀ i ∈ items, ∀ rest,
      anyBlock.Yields (text i ++ rest) fun b r => Rel i b ∧ r = rest) :
    outline.Yields (items.flatMap fun i => text i ++ ['\n'])
      fun blocks _ => List.Forall₂ Rel items blocks := by
  have hitems : ReadsItems anyBlock [] (fun i => text i ++ ['\n']) Rel (fun _ => True) items := {
    gap := List.forall_mem_nil _
    solid := by
      intro i hi
      have hhead := hsolid i hi
      have hne : text i ≠ [] := by
        intro hnil
        rw [hnil] at hhead
        cases hhead
      rwa [List.head?_append_of_ne_nil _ hne]
    follows := fun _ _ _ => trivial
    reads := by
      intro i hi following _
      rw [List.append_assoc]
      refine (hreads i hi _).mono ?_
      rintro b r ⟨hb, rfl⟩
      exact ⟨hb, afterGap_cons_of_isGap (by rfl)⟩ }
  have hend : anyBlock.Refuses (afterGap []) := refuses_anyBlock_nil
  have hmany := hitems.many trivial hend
  rw [List.append_nil] at hmany
  refine Yields.symbol ((Yields.afterGap hmany).bind ?_) _
  rintro blocks r ⟨hblocks, hr⟩
  refine (yields_gapThen hr (yields_atEnd.symbol _)).bind ?_
  rintro _ r _
  exact yields_pure hblocks

end Blocks

end SchemaMigration
