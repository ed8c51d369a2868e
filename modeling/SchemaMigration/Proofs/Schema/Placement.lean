import SchemaMigration.Proofs.Text.Position
import SchemaMigration.Schema.Reading

/-! # Places of a document in its text

What it means that the parts of a document stand in a text at the ranges they carry. A name stands
where its range says, letter for letter; an attribute takes its mark, its name and its arguments in
parentheses; the parts of a list lie inside the whole, one behind the other; and what is outside of
all declarations is blanks and comments. Ranges are counted in bytes, and all of them start and stop
between characters.
-/

namespace SchemaMigration

open Grammar.Parser (isGap isLineEnd)
open Text (byteLength byteLength_append)

/-! ## Ranges -/

namespace Span

/-- A range of bytes of a text holds a part of it. -/
def Holds (s : Span) (text part : List Char) : Prop :=
  ∃ before after, text = before ++ part ++ after ∧
    s.start = byteLength before ∧ s.stop = s.start + byteLength part

/-- A range holds one part of a text only. -/
theorem Holds.unique {s : Span} {text part part' : List Char} (h : s.Holds text part)
    (h' : s.Holds text part') : part = part' := by
  obtain ⟨before, after, htext, hstart, hstop⟩ := h
  obtain ⟨before', after', htext', hstart', hstop'⟩ := h'
  have hsame : before ++ (part ++ after) = before' ++ (part' ++ after') := by
    rw [← List.append_assoc, ← htext, htext', List.append_assoc]
  obtain rfl := Text.eq_of_byteLength_eq hsame (hstart.symm.trans hstart')
  exact Text.eq_of_byteLength_eq (List.append_cancel_left hsame) (by omega)

/-- Ranges inside another one that are not empty, each behind the ones before it. -/
structure Row (whole : Span) (spans : List Span) : Prop where
  inside : ∀ s ∈ spans, whole.start ≤ s.start ∧ s.stop ≤ whole.stop
  nonempty : ∀ s ∈ spans, s.start < s.stop
  inOrder : spans.Pairwise fun s t => s.stop ≤ t.start

namespace Row

variable {whole wider s : Span} {spans part : List Span}

theorem nil (whole : Span) : whole.Row [] :=
  ⟨List.forall_mem_nil _, List.forall_mem_nil _, .nil⟩

theorem cons (hstart : whole.start ≤ s.start) (hs : s.start < s.stop) (hstop : s.stop ≤ whole.stop)
    (h : (Span.mk s.stop whole.stop).Row spans) : whole.Row (s :: spans) where
  inside := List.forall_mem_cons.mpr ⟨⟨hstart, hstop⟩, fun t ht =>
    ⟨Nat.le_trans hstart (Nat.le_trans (Nat.le_of_lt hs) (h.inside t ht).1), (h.inside t ht).2⟩⟩
  nonempty := List.forall_mem_cons.mpr ⟨hs, h.nonempty⟩
  inOrder := List.pairwise_cons.mpr ⟨fun t ht => (h.inside t ht).1, h.inOrder⟩

theorem widen (h : whole.Row spans) (hstart : wider.start ≤ whole.start)
    (hstop : whole.stop ≤ wider.stop) : wider.Row spans where
  inside s hs := ⟨Nat.le_trans hstart (h.inside s hs).1, Nat.le_trans (h.inside s hs).2 hstop⟩
  nonempty := h.nonempty
  inOrder := h.inOrder

theorem sublist (h : whole.Row spans) (hpart : part.Sublist spans) : whole.Row part where
  inside s hs := h.inside s (hpart.subset hs)
  nonempty s hs := h.nonempty s (hpart.subset hs)
  inOrder := h.inOrder.sublist hpart

end Row

end Span

/-! ## What is between declarations -/

/-- Blanks and comments. A comment goes up to the end of its line; behind everything else it may also
go up to the end of the text. -/
inductive IsGap : (last : Bool) → List Char → Prop
  | nil {last : Bool} : IsGap last []
  | blank {last : Bool} {c : Char} {cs : List Char} (hc : isGap c = true) (hcs : IsGap last cs) :
      IsGap last (c :: cs)
  | comment {last : Bool} {body : List Char} {lineEnd : Char} {cs : List Char}
      (hbody : ∀ c ∈ body, isLineEnd c = false) (hend : isLineEnd lineEnd = true)
      (hcs : IsGap last cs) : IsGap last ('/' :: '/' :: (body ++ lineEnd :: cs))
  | lastComment {body : List Char} (hbody : ∀ c ∈ body, isLineEnd c = false) :
      IsGap true ('/' :: '/' :: body)

/-- A text that starts at an offset holds parts at the given ranges, and nothing but gaps between
them, before them and behind them. -/
inductive Span.Fill : Nat → List Span → List Char → Prop
  | last {offset : Nat} {gap : List Char} (hgap : IsGap true gap) : Fill offset [] gap
  | part {offset : Nat} {spans : List Span} {gap part rest : List Char} (hgap : IsGap false gap)
      (hpart : part ≠ []) (hrest : Fill (offset + byteLength (gap ++ part)) spans rest) :
      Fill offset
        (⟨offset + byteLength gap, offset + byteLength (gap ++ part)⟩ :: spans) (gap ++ part ++ rest)

/-- Ranges that fill a text stand in a row. -/
theorem Span.Fill.row {offset : Nat} {spans : List Span} {text : List Char}
    (h : Fill offset spans text) : Row ⟨offset, offset + byteLength text⟩ spans := by
  induction h with
  | last => exact .nil _
  | @part offset spans gap part rest _ hpart _ ih =>
      have hlength := Text.byteLength_pos hpart
      simp only [byteLength_append] at ih ⊢
      refine .cons (Nat.le_add_right _ _) ?_ ?_ (ih.widen (Nat.le_refl _) ?_) <;> dsimp only <;> omega

/-! ## Parts of a document -/

/-- A name stands where its range says. -/
def Ident.IsPlaced (text : List Char) (i : Ident) : Prop :=
  i.span.Holds text i.name.toList

/-- The arguments of an attribute, if there are any, as they are written. -/
def Grammar.inParentheses : (arguments : Option String) → List Char
  | none => []
  | some raw => '(' :: (raw.toList ++ [')'])

/-- What stands at the range of an attribute is its mark, directly behind it its name, and the
arguments from which its own are interpreted. -/
structure Attribute.IsPlaced (text : List Char) (mark : String) (a : Attribute) : Prop where
  nameInText : a.name.IsPlaced text
  behindMark : a.name.span.start = a.span.start + byteLength mark.toList
  whole : ∃ arguments, Attribute.ofText mark ⟨a.name, arguments, a.span⟩ = .ok a ∧
    a.span.Holds text (mark.toList ++ a.name.name.toList ++ Grammar.inParentheses arguments)

/-- A field or an enum value, with its name and its attributes, starts with its name and has its
attributes in a row. -/
structure IsPlacedMember (text : List Char) (name : Ident) (attributes : List Attribute)
    (span : Span) : Prop where
  inText : ∃ part, span.Holds text part
  nameInText : name.IsPlaced text
  startsWithName : name.span.start = span.start
  placed : ∀ a ∈ attributes, a.IsPlaced text "@"
  row : span.Row (attributes.map Attribute.span)

def Field.IsPlaced (text : List Char) (f : Field) : Prop :=
  IsPlacedMember text f.name f.attributes f.span

def EnumValue.IsPlaced (text : List Char) (v : EnumValue) : Prop :=
  IsPlacedMember text v.name v.attributes v.span

namespace Declaration

def ident : Declaration → Ident
  | .datasource b | .generator b => b.name
  | .model m => m.name
  | .enum e => e.name
  | .composite t => t.name
  | .view v => v.name

def span : Declaration → Span
  | .datasource b | .generator b => b.span
  | .model m => m.span
  | .enum e => e.span
  | .composite t => t.span
  | .view v => v.span

def fields : Declaration → List Field
  | .model m => m.fields
  | .composite t => t.fields
  | .view v => v.fields
  | _ => []

def values : Declaration → List EnumValue
  | .enum e => e.values
  | _ => []

def attributes : Declaration → List Attribute
  | .model m => m.attributes
  | .enum e => e.attributes
  | .view v => v.attributes
  | _ => []

structure IsPlaced (text : List Char) (d : Declaration) : Prop where
  inText : ∃ part, d.span.Holds text part
  nameInText : d.ident.IsPlaced text
  nameInside : d.span.start ≤ d.ident.span.start ∧ d.ident.span.stop ≤ d.span.stop
  fields : ∀ f ∈ d.fields, f.IsPlaced text
  fieldRow : d.span.Row (d.fields.map Field.span)
  values : ∀ v ∈ d.values, v.IsPlaced text
  valueRow : d.span.Row (d.values.map EnumValue.span)
  attributes : ∀ a ∈ d.attributes, a.IsPlaced text "@@"
  attributeRow : d.span.Row (d.attributes.map Attribute.span)

end Declaration

structure Document.IsPlaced (text : List Char) (d : Document) : Prop where
  declarations : ∀ declaration ∈ d.declarations, declaration.IsPlaced text
  row : (Span.mk 0 (byteLength text)).Row (d.declarations.map Declaration.span)
  outside : Span.Fill 0 (d.declarations.map Declaration.span) text

end SchemaMigration
