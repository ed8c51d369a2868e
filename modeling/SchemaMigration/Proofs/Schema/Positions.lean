import SchemaMigration.Proofs.Schema.Grammar.Advance
import SchemaMigration.Proofs.Schema.Grammar.Outline
import SchemaMigration.Proofs.Schema.Meaning

/-! # Every part of a document is placed

A cursor counts the bytes of what has been passed. So the range that a parser notes holds what it has
read, and ranges that are noted one after another stand in a row. This is carried from names and
attributes through every rule of the grammar up to the document.
-/

namespace SchemaMigration

open Grammar
open SchemaMigration.Grammar.Parser
open Text (byteLength byteLength_append byteLength_pos)

namespace Grammar

variable {c d e : Cursor} {text part : List Char}

/-! ## Cursors in a text -/

/-- A cursor stands in a text at the offset that it counts. -/
def Cursor.IsIn (text : List Char) (c : Cursor) : Prop :=
  ∃ before, text = before ++ c.rest ∧ c.offset = byteLength before

namespace Cursor

theorem isIn_start (text : List Char) : (start text).IsIn text :=
  ⟨[], rfl, rfl⟩

theorem IsIn.reaches (hc : c.IsIn text) (h : c.Reaches d) : d.IsIn text := by
  obtain ⟨before, htext, hoffset⟩ := hc
  obtain ⟨part, hpart⟩ := h
  refine ⟨before ++ part, ?_, ?_⟩
  · rw [htext, hpart.rest, List.append_assoc]
  · rw [hpart.offset, hoffset, byteLength_append]

/-- The range between two cursors holds what is passed between them. -/
theorem IsIn.holds (hc : c.IsIn text) (h : c.Passes part d) :
    (Span.mk c.offset d.offset).Holds text part := by
  obtain ⟨before, htext, hoffset⟩ := hc
  refine ⟨before, d.rest, ?_, hoffset, h.offset⟩
  rw [htext, h.rest, List.append_assoc]

theorem Passes.offset_lt (h : c.Passes part d) (hpart : part ≠ []) : c.offset < d.offset := by
  have hlength := byteLength_pos hpart
  have hoffset := h.offset
  omega

end Cursor

/-! ## Parsers that note where they read -/

section Places

variable {α : Type} {p : Parser α} {span : α → Span} {Q : α → Prop}

/-- The parser leads on in the text, and notes the range between the cursors; and everything that
is read in the text has a property. -/
def Parser.Places (text : List Char) (p : Parser α) (span : α → Span) (Q : α → Prop) : Prop :=
  ∀ c a d, p.Reads c a d → c.IsIn text →
    c.Reaches d ∧ span a = ⟨c.offset, d.offset⟩ ∧ c.offset < d.offset ∧ Q a

theorem places_first {ps : List (Parser α)} (h : ∀ p ∈ ps, p.Places text span Q) :
    (first ps).Places text span Q := by
  intro c a d hreads hc
  obtain ⟨before, p, after, rfl, -, hp⟩ := hreads.of_first
  exact h p (by simp) c a d hp hc

theorem Parser.Places.behindGaps (hp : p.Places text span Q) {as : List α}
    (h : ReadsItemsBehindGaps p c as d) (hc : c.IsIn text) :
    c.Reaches d ∧ (∀ a ∈ as, Q a) ∧ (Span.mk c.offset d.offset).Row (as.map span) := by
  induction h with
  | nil => exact ⟨.refl _, List.forall_mem_nil _, .nil _⟩
  | @cons c e d a as hitem _ ih =>
      have hgap := c.reaches_pastGap
      obtain ⟨he, hspan, hlt, hQ⟩ := hp _ a e hitem (hc.reaches hgap)
      obtain ⟨hd, hQs, hrow⟩ := ih (hc.reaches (hgap.trans he))
      refine ⟨(hgap.trans he).trans hd, List.forall_mem_cons.mpr ⟨hQ, hQs⟩, ?_⟩
      rw [List.map_cons, hspan]
      exact .cons hgap.offset_le hlt hd.offset_le hrow

/-- Things that are read one after another stand in a row. -/
theorem Parser.Places.many (hp : p.Places text span Q) {as : List α}
    (h : (many p).Reads c as d) (hc : c.IsIn text) :
    c.Reaches d ∧ (∀ a ∈ as, Q a) ∧ (Span.mk c.offset d.offset).Row (as.map span) := by
  rcases h.of_many with ⟨rfl, rfl⟩ | ⟨a, rest, e, rfl, ha, hrest, -⟩
  · exact ⟨.refl _, List.forall_mem_nil _, .nil _⟩
  · obtain ⟨he, hspan, hlt, hQ⟩ := hp c a e ha hc
    obtain ⟨hd, hQs, hrow⟩ := hp.behindGaps hrest (hc.reaches he)
    refine ⟨he.trans hd, List.forall_mem_cons.mpr ⟨hQ, hQs⟩, ?_⟩
    rw [List.map_cons, hspan]
    exact .cons (Nat.le_refl _) hlt hd.offset_le hrow

end Places

/-! ## Names and attributes -/

theorem places_identifier (text : List Char) :
    identifier.Places text Ident.span (Ident.IsPlaced text) := by
  intro c i d h hc
  have hlexeme := Reads.of_symbol h
  obtain ⟨hpasses, hspan⟩ := hlexeme.passes_lexeme cuts_word
  obtain ⟨l, hscan, hi, -⟩ := hlexeme.of_lexeme
  have hne : i.name.toList ≠ [] := by
    obtain ⟨first, more, hl, -⟩ := isWord_iff.mp (word_eq_some hscan).1
    simp [hi, hl]
  refine ⟨hpasses.reaches, hspan, hpasses.offset_lt hne, ?_⟩
  rw [Ident.IsPlaced, hspan]
  exact hc.holds hpasses

theorem passes_attributeArgs {raw : String} (h : attributeArgs.Reads c raw d) :
    c.Passes (inParentheses (some raw)) d := by
  obtain ⟨_, e, hopen, hrest⟩ := Reads.of_bind (Reads.of_symbol h)
  obtain ⟨i, f, hraw, hrest⟩ := Reads.of_bind hrest
  obtain ⟨_, g, hclose, hpure⟩ := Reads.of_bind hrest
  obtain ⟨rfl, rfl⟩ := hpure.of_pure
  have hargument := (hraw.of_symbol.passes_lexeme cuts_rawArgument).1
  exact hopen.of_exactly.trans (hargument.trans hclose.of_exactly)

/-- What comes to a written attribute is placed, and takes its range. -/
def AttributeText.IsPlaced (text : List Char) (mark : String) (written : AttributeText) : Prop :=
  ∀ a, Attribute.ofText mark written = .ok a → a.IsPlaced text mark ∧ a.span = written.span

/-- The name of an attribute stands behind its mark, and its arguments behind its name. -/
theorem placed_of_attributeBody {mark : String} {body : Ident × Option String} (hc : c.IsIn text)
    (hmark : c.Passes mark.toList e) (h : attributeBody.Reads e body d) :
    c.Reaches d ∧ c.offset < d.offset ∧
      AttributeText.IsPlaced text mark ⟨body.1, body.2, ⟨c.offset, d.offset⟩⟩ := by
  obtain ⟨name, f, hname, hrest⟩ := Reads.of_bind h
  obtain ⟨arguments, g, hargs, hpure⟩ := Reads.of_bind hrest
  obtain ⟨rfl, rfl⟩ := hpure.of_pure
  obtain ⟨hpasses, hspan⟩ := hname.of_symbol.passes_lexeme cuts_attributeName
  obtain ⟨l, hscan, hl, -⟩ := hname.of_symbol.of_lexeme
  have harguments : f.Passes (inParentheses arguments) d := by
    rcases hargs.of_optional with ⟨raw, rfl, hraw⟩ | ⟨rfl, rfl⟩
    · exact passes_attributeArgs hraw
    · exact .refl _
  have hne : name.name.toList ≠ [] := by
    have hhead := head_isDottedName (attributeName_eq_some hscan).1
    intro hnil
    rw [hl] at hnil
    simp [hnil] at hhead
  have hwhole := (hmark.trans hpasses).trans harguments
  refine ⟨hwhole.reaches, hwhole.offset_lt (by simp [hne]), ?_⟩
  intro a ha
  obtain ⟨haname, haspan⟩ := Attribute.ofText_eq_ok ha
  refine ⟨⟨?_, ?_, arguments, ?_, ?_⟩, haspan⟩
  · rw [Ident.IsPlaced, haname, hspan]
    exact (hc.reaches hmark.reaches).holds hpasses
  · rw [haname, haspan, hspan]
    exact hmark.offset
  · rw [haname, haspan]
    exact ha
  · rw [haname, haspan]
    exact hc.holds hwhole

theorem places_fieldAttribute (text : List Char) :
    fieldAttribute.Places text AttributeText.span (AttributeText.IsPlaced text "@") := by
  intro c written d h hc
  obtain ⟨⟨body, span⟩, e, hlocated, hpure⟩ := Reads.of_bind h
  obtain ⟨rfl, rfl⟩ := hpure.of_pure
  obtain ⟨hbody, rfl⟩ := hlocated.of_located
  obtain ⟨_, f, hmark, hrest⟩ := Reads.of_bind hbody.of_symbol
  obtain ⟨_, g, hnot, hattribute⟩ := Reads.of_bind hrest
  obtain ⟨rfl, -⟩ := hnot.of_notNext
  obtain ⟨hreaches, hlt, hplaced⟩ := placed_of_attributeBody hc hmark.of_exactly hattribute
  exact ⟨hreaches, rfl, hlt, hplaced⟩

/-- The attributes that are read behind something stand in a row. -/
theorem attributes_placed {written : List AttributeText} {attributes : List Attribute}
    (h : (many fieldAttribute).Reads c written d) (hc : c.IsIn text)
    (hattributes : Attribute.ofTexts written = .ok attributes) :
    c.Reaches d ∧ (∀ a ∈ attributes, a.IsPlaced text "@") ∧
      (Span.mk c.offset d.offset).Row (attributes.map Attribute.span) := by
  obtain ⟨hreaches, hplaced, hrow⟩ := (places_fieldAttribute text).many h hc
  have hmeant := mapM_eq_ok_iff.mp hattributes
  refine ⟨hreaches, ?_, ?_⟩
  · intro a ha
    obtain ⟨w, hw, hread⟩ := exists_of_mem_right hmeant ha
    exact (hplaced w hw a hread).1
  · rw [map_eq_of_mapM_eq_ok hattributes fun w a ha => (Attribute.ofText_eq_ok ha).2]
    exact hrow

/-! ## Members -/

def Member.span : Member → Span
  | .property _ _ span | .field _ _ _ span | .value _ _ span => span
  | .attribute written => written.span

end Grammar

namespace Part

def span : Part → Span
  | .field f => f.span
  | .value v => v.span
  | .attribute a => a.span

def IsPlaced (text : List Char) : Part → Prop
  | .field f => f.IsPlaced text
  | .value v => v.IsPlaced text
  | .attribute a => a.IsPlaced text "@@"

end Part

namespace Grammar

/-- What comes to a member is placed, and takes its range. -/
def Member.IsPlaced (text : List Char) (m : Member) : Prop :=
  ∀ p, Part.ofMember? m = .ok (some p) → p.IsPlaced text ∧ p.span = m.span

section Members

variable {c d e : Cursor} {text : List Char}

theorem places_assignment (text : List Char) :
    assignment.Places text Member.span (Member.IsPlaced text) := by
  intro c m d h hc
  obtain ⟨⟨⟨key, value⟩, span⟩, e, hlocated, hpure⟩ := Reads.of_bind h
  obtain ⟨rfl, rfl⟩ := hpure.of_pure
  obtain ⟨hbody, rfl⟩ := hlocated.of_located
  obtain ⟨key', f, hkey, hrest⟩ := Reads.of_bind hbody.of_symbol
  obtain ⟨hreaches, -, hlt, -⟩ := places_identifier text c key' f hkey hc
  have hbehind : f.Reaches d := by
    have hadvances : Advances (do
        gapThen (exactly "=")
        let value ← gapThen anyValue
        return (key', value)) :=
      (advances_exactly "=").gapThen.bind fun _ => advances_anyValue.gapThen.bind fun _ =>
        advances_pure _
    exact hadvances f _ d hrest
  refine ⟨hreaches.trans hbehind, rfl, Nat.lt_of_lt_of_le hlt hbehind.offset_le, ?_⟩
  intro p hp
  cases hp

theorem places_blockAttribute (text : List Char) :
    blockAttribute.Places text Member.span (Member.IsPlaced text) := by
  intro c m d h hc
  obtain ⟨⟨body, span⟩, e, hlocated, hpure⟩ := Reads.of_bind h
  obtain ⟨rfl, rfl⟩ := hpure.of_pure
  obtain ⟨hbody, rfl⟩ := hlocated.of_located
  obtain ⟨_, f, hmark, hattribute⟩ := Reads.of_bind hbody.of_symbol
  obtain ⟨hreaches, hlt, hplaced⟩ := placed_of_attributeBody hc hmark.of_exactly hattribute
  refine ⟨hreaches, rfl, hlt, ?_⟩
  intro p hp
  obtain ⟨a, ha, rfl⟩ := Part.ofMember?_attribute_eq_ok hp
  exact hplaced a ha

/-- A name, something behind it, and attributes behind a gap make up a field or an enum value. -/
theorem placed_of_name_attributes {name : Ident} {written : List AttributeText} {f : Cursor}
    (hc : c.IsIn text) (hname : identifier.Reads c name e) (hbetween : e.Reaches f)
    (hwritten : (gapThen (many fieldAttribute)).Reads f written d) :
    c.Reaches d ∧ c.offset < d.offset ∧ ∀ attributes, Attribute.ofTexts written = .ok attributes →
      IsPlacedMember text name attributes ⟨c.offset, d.offset⟩ := by
  obtain ⟨hreaches, hspan, hlt, hnamed⟩ := places_identifier text c name e hname hc
  have hbehind := hbetween.trans f.reaches_pastGap
  have hf := hreaches.trans hbehind
  have hmany := Reads.of_afterGap hwritten
  have hd := ((places_fieldAttribute text).many hmany (hc.reaches hf)).1
  refine ⟨hf.trans hd, Nat.lt_of_lt_of_le hlt (hbehind.trans hd).offset_le, ?_⟩
  intro attributes hattributes
  obtain ⟨-, hplaced, hrow⟩ := attributes_placed hmany (hc.reaches hf) hattributes
  obtain ⟨part, hpart⟩ := hf.trans hd
  exact {
    inText := ⟨part, hc.holds hpart⟩
    nameInText := hnamed
    startsWithName := by rw [hspan]
    placed := hplaced
    row := hrow.widen hf.offset_le (Nat.le_refl _) }

theorem places_field (text : List Char) :
    Grammar.field.Places text Member.span (Member.IsPlaced text) := by
  intro c m d h hc
  obtain ⟨⟨⟨name, type, written⟩, span⟩, e, hlocated, hpure⟩ := Reads.of_bind h
  obtain ⟨rfl, rfl⟩ := hpure.of_pure
  obtain ⟨hbody, rfl⟩ := hlocated.of_located
  obtain ⟨name', f, hname, hrest⟩ := Reads.of_bind hbody.of_symbol
  obtain ⟨type', g, htype, hrest⟩ := Reads.of_bind hrest
  obtain ⟨written', k, hwritten, hpure⟩ := Reads.of_bind hrest
  obtain ⟨heq, rfl⟩ := hpure.of_pure
  cases heq
  obtain ⟨hreaches, hlt, hplaced⟩ :=
    placed_of_name_attributes hc hname (advances_fieldType.gapThen f type g htype) hwritten
  refine ⟨hreaches, rfl, hlt, ?_⟩
  intro p hp
  obtain ⟨attributes, hattributes, rfl⟩ := Part.ofMember?_field_eq_ok hp
  exact ⟨hplaced attributes hattributes, rfl⟩

theorem places_enumValue (text : List Char) :
    enumValue.Places text Member.span (Member.IsPlaced text) := by
  intro c m d h hc
  obtain ⟨⟨⟨name, written⟩, span⟩, e, hlocated, hpure⟩ := Reads.of_bind h
  obtain ⟨rfl, rfl⟩ := hpure.of_pure
  obtain ⟨hbody, rfl⟩ := hlocated.of_located
  obtain ⟨name', f, hname, hrest⟩ := Reads.of_bind hbody.of_symbol
  obtain ⟨written', k, hwritten, hpure⟩ := Reads.of_bind hrest
  obtain ⟨heq, rfl⟩ := hpure.of_pure
  cases heq
  obtain ⟨hreaches, hlt, hplaced⟩ := placed_of_name_attributes hc hname (.refl f) hwritten
  refine ⟨hreaches, rfl, hlt, ?_⟩
  intro p hp
  obtain ⟨attributes, hattributes, rfl⟩ := Part.ofMember?_value_eq_ok hp
  exact ⟨hplaced attributes hattributes, rfl⟩

theorem places_member (text : List Char) (kind : BlockKind) :
    (member kind).Places text Member.span (Member.IsPlaced text) := by
  have hfields : (first [blockAttribute, Grammar.field]).Places text Member.span
      (Member.IsPlaced text) :=
    places_first (List.forall_mem_cons.mpr
      ⟨places_blockAttribute text, List.forall_mem_singleton.mpr (places_field text)⟩)
  cases kind with
  | datasource | generator => exact places_assignment text
  | model | view => exact hfields
  | type => exact places_field text
  | enum =>
      exact places_first (List.forall_mem_cons.mpr
        ⟨places_blockAttribute text, List.forall_mem_singleton.mpr (places_enumValue text)⟩)

end Members

/-! ## Blocks -/

/-- What comes to a block is placed. -/
def Block.IsPlaced (text : List Char) (b : Block) : Prop :=
  ∀ x, Declaration.ofBlock b = .ok x → x.IsPlaced text

theorem span_of_ofBlock {b : Block} {x : Declaration} (h : Declaration.ofBlock b = .ok x) :
    x.span = b.span := by
  cases Declaration.ofBlock_eq_ok_iff.mp h with
  | datasource | generator => rfl
  | data => cases b.kind <;> rfl

section Blocks

variable {c d e : Cursor} {text : List Char}

/-- The parts that placed members add are placed, and their ranges are among those of the
members. -/
theorem parts_placed {members : List Member} {given : List (Option Part)}
    (h : members.mapM Part.ofMember? = .ok given) (hplaced : ∀ m ∈ members, m.IsPlaced text) :
    (∀ p ∈ given.filterMap id, p.IsPlaced text) ∧
      ((given.filterMap id).map Part.span).Sublist (members.map Member.span) := by
  have hgiven := mapM_eq_ok_iff.mp h
  clear h
  induction hgiven with
  | nil => exact ⟨List.forall_mem_nil _, .slnil⟩
  | @cons m o members given hm _ ih =>
      obtain ⟨hparts, hspans⟩ := ih fun m hm => hplaced m (List.mem_cons_of_mem _ hm)
      cases o with
      | none => exact ⟨hparts, hspans.cons _⟩
      | some p =>
          obtain ⟨hp, hspan⟩ := hplaced m List.mem_cons_self p hm
          refine ⟨List.forall_mem_cons.mpr ⟨hp, hparts⟩, ?_⟩
          rw [List.map_cons, ← hspan]
          exact hspans.cons_cons _

/-- The parts of one kind stand in a row when all parts do. -/
theorem row_filterMap {α : Type} {select : Part → Option α} {span : α → Span} {whole : Span}
    {parts : List Part} (h : whole.Row (parts.map Part.span))
    (hspan : ∀ p a, select p = some a → span a = p.span) :
    whole.Row ((parts.filterMap select).map span) := by
  refine h.sublist ?_
  clear h
  induction parts with
  | nil => exact .slnil
  | cons p parts ih =>
      cases hp : select p with
      | none =>
          rw [List.filterMap_cons_none hp]
          exact ih.cons _
      | some a =>
          rw [List.filterMap_cons_some hp, List.map_cons, hspan p a hp]
          exact ih.cons_cons _

theorem isPlaced_ofParts (kind : BlockKind) {name : Ident} {parts : List Part} {span : Span}
    (hrange : ∃ part, span.Holds text part) (hname : name.IsPlaced text)
    (hinside : span.start ≤ name.span.start ∧ name.span.stop ≤ span.stop)
    (hparts : ∀ p ∈ parts, p.IsPlaced text) (hrow : span.Row (parts.map Part.span)) :
    (Declaration.ofParts kind name parts span).IsPlaced text := by
  have hfields : ∀ f ∈ parts.filterMap Part.field?, f.IsPlaced text := by
    intro f hf
    obtain ⟨p, hp, hselect⟩ := List.mem_filterMap.mp hf
    obtain rfl := Part.field?_eq_some_iff.mp hselect
    exact hparts _ hp
  have hvalues : ∀ v ∈ parts.filterMap Part.value?, v.IsPlaced text := by
    intro v hv
    obtain ⟨p, hp, hselect⟩ := List.mem_filterMap.mp hv
    obtain rfl := Part.value?_eq_some_iff.mp hselect
    exact hparts _ hp
  have hattributes : ∀ a ∈ parts.filterMap Part.attribute?, a.IsPlaced text "@@" := by
    intro a ha
    obtain ⟨p, hp, hselect⟩ := List.mem_filterMap.mp ha
    obtain rfl := Part.attribute?_eq_some_iff.mp hselect
    exact hparts _ hp
  have hfieldRow : span.Row ((parts.filterMap Part.field?).map Field.span) :=
    row_filterMap hrow fun p f h => Part.field?_eq_some_iff.mp h ▸ rfl
  have hvalueRow : span.Row ((parts.filterMap Part.value?).map EnumValue.span) :=
    row_filterMap hrow fun p v h => Part.value?_eq_some_iff.mp h ▸ rfl
  have hattributeRow : span.Row ((parts.filterMap Part.attribute?).map Attribute.span) :=
    row_filterMap hrow fun p a h => Part.attribute?_eq_some_iff.mp h ▸ rfl
  cases kind with
  | enum => exact ⟨hrange, hname, hinside, List.forall_mem_nil _, .nil _, hvalues, hvalueRow,
      hattributes, hattributeRow⟩
  | type => exact ⟨hrange, hname, hinside, hfields, hfieldRow, List.forall_mem_nil _, .nil _,
      List.forall_mem_nil _, .nil _⟩
  | _ => exact ⟨hrange, hname, hinside, hfields, hfieldRow, List.forall_mem_nil _, .nil _,
      hattributes, hattributeRow⟩

/-- A block is read as its keyword, its name, and its members between braces. -/
theorem Parser.Reads.of_block {kind : BlockKind} {b : Block} (h : (block kind).Reads c b d) :
    b.kind = kind ∧ b.span = ⟨c.offset, d.offset⟩ ∧ ∃ c₁ c₂ c₃ c₄, c.Reaches c₁ ∧
      identifier.Reads c₁ b.name c₂ ∧ c₂.Reaches c₃ ∧ (many (member kind)).Reads c₃ b.members c₄ ∧
      c₄.Reaches d := by
  obtain ⟨⟨⟨name, members⟩, span⟩, e, hlocated, hpure⟩ := Reads.of_bind h
  obtain ⟨rfl, rfl⟩ := hpure.of_pure
  obtain ⟨hbody, rfl⟩ := hlocated.of_located
  obtain ⟨keyword, c₁, hkeyword, hrest⟩ := Reads.of_bind hbody.of_symbol
  obtain ⟨name', c₂, hname, hrest⟩ := Reads.of_bind hrest
  obtain ⟨_, c₃, hopen, hrest⟩ := Reads.of_bind hrest
  obtain ⟨members', c₄, hmembers, hrest⟩ := Reads.of_bind hrest
  obtain ⟨_, c₅, hclose, hpure⟩ := Reads.of_bind hrest
  obtain ⟨heq, rfl⟩ := hpure.of_pure
  cases heq
  have h₁ : c.Reaches c₁.pastGap :=
    (((advances_lexeme (cuts_keyword kind)).symbol _) c keyword c₁ hkeyword).trans
      c₁.reaches_pastGap
  have h₃ : c₂.Reaches c₃.pastGap :=
    ((advances_exactly _).gapThen c₂ _ c₃ hopen).trans c₃.reaches_pastGap
  exact ⟨rfl, rfl, c₁.pastGap, c₂, c₃.pastGap, c₄, h₁, Reads.of_afterGap hname, h₃,
    Reads.of_afterGap hmembers, (advances_exactly _).gapThen c₄ _ d hclose⟩

theorem places_block (text : List Char) (kind : BlockKind) :
    (block kind).Places text Block.span (Block.IsPlaced text) := by
  intro c b d h hc
  obtain ⟨rfl, hwholeSpan, c₁, c₂, c₃, c₄, h₁, hname, h₃, hmembers, h₅⟩ := h.of_block
  obtain ⟨h₂, hspan, hlt, hnamed⟩ := places_identifier text c₁ b.name c₂ hname (hc.reaches h₁)
  have hbefore := (h₁.trans h₂).trans h₃
  obtain ⟨h₄, hplaced, hrow⟩ := (places_member text b.kind).many hmembers (hc.reaches hbefore)
  have hbehind := h₃.trans (h₄.trans h₅)
  have hwhole := (h₁.trans h₂).trans hbehind
  have hstart := h₁.offset_le
  have hstop := hbehind.offset_le
  refine ⟨hwhole, hwholeSpan, by omega, ?_⟩
  intro x hx
  obtain ⟨part, hpart⟩ := hwhole
  have hrange : ∃ part, b.span.Holds text part := ⟨part, hwholeSpan ▸ hc.holds hpart⟩
  have hinside : b.span.start ≤ b.name.span.start ∧ b.name.span.stop ≤ b.span.stop := by
    rw [hspan, hwholeSpan]
    exact ⟨hstart, hstop⟩
  cases Declaration.ofBlock_eq_ok_iff.mp hx with
  | datasource | generator =>
      exact ⟨hrange, hnamed, hinside, List.forall_mem_nil _, .nil _, List.forall_mem_nil _,
        .nil _, List.forall_mem_nil _, .nil _⟩
  | data hkind hgiven =>
      obtain ⟨hparts, hspans⟩ := parts_placed hgiven hplaced
      have hwide : b.span.Row (b.members.map Member.span) := by
        rw [hwholeSpan]
        exact hrow.widen hbefore.offset_le h₅.offset_le
      exact isPlaced_ofParts b.kind hrange hnamed hinside hparts (hwide.sublist hspans)

end Blocks

/-! ## Outlines -/

section Outlines

variable {c d : Cursor} {text : List Char} {α : Type} {p : Parser α} {span : α → Span}
  {Q : α → Prop}

/-- Things that are read up to the gap at the end of a text fill the text. -/
theorem Parser.Places.fill (hp : p.Places text span Q) {as : List α}
    (h : ReadsItemsBehindGaps p c as d) (hc : c.IsIn text) (hend : d.pastGap.rest = []) :
    Span.Fill c.offset (as.map span) c.rest := by
  induction h with
  | @nil c =>
      obtain ⟨gap, hgap, hisGap⟩ := c.passes_pastGap true fun _ => rfl
      rw [hgap.rest, hend, List.append_nil]
      exact .last hisGap
  | @cons c e d a as hitem _ ih =>
      have hin := hc.reaches c.reaches_pastGap
      obtain ⟨he, hspan, hlt, -⟩ := hp _ a e hitem hin
      obtain ⟨part, hpart⟩ := he
      have hne : part ≠ [] := by
        rintro rfl
        rw [hpart.offset] at hlt
        exact absurd hlt (Nat.lt_irrefl _)
      obtain ⟨gap, hgap, hisGap⟩ := c.passes_pastGap false fun hnil => by
        rw [hpart.rest] at hnil
        exact absurd (List.append_eq_nil_iff.mp hnil).1 hne
      have hfill := ih (hin.reaches hpart.reaches) hend
      have hwhole := hgap.trans hpart
      rw [List.map_cons, hspan, hgap.offset, hwhole.offset, hwhole.rest]
      rw [hwhole.offset] at hfill
      exact .part hisGap hne hfill

theorem places_anyBlock (text : List Char) :
    anyBlock.Places text Block.span (Block.IsPlaced text) := by
  apply places_first
  intro p hp
  obtain ⟨kind, -, rfl⟩ := List.mem_map.mp hp
  exact places_block text kind

/-- An outline is blocks behind gaps, up to the end of the text. -/
theorem Parser.Reads.of_outline {blocks : List Block} (h : outline.Reads (.start text) blocks c) :
    ∃ d, ReadsItemsBehindGaps anyBlock (.start text) blocks d ∧ d.pastGap.rest = [] := by
  obtain ⟨blocks', d, hblocks, hrest⟩ := Reads.of_bind (Reads.of_symbol h)
  obtain ⟨_, e, hend, hpure⟩ := Reads.of_bind hrest
  obtain ⟨rfl, rfl⟩ := hpure.of_pure
  obtain ⟨f, hitems, hpast⟩ := Reads.of_gap_many hblocks
  refine ⟨f, hitems, ?_⟩
  rw [hpast]
  exact (Reads.of_atEnd (Reads.of_symbol (Reads.of_afterGap hend))).2

theorem outline_placed {blocks : List Block} (h : outline.Reads (.start text) blocks c) :
    (∀ b ∈ blocks, b.IsPlaced text) ∧ Span.Fill 0 (blocks.map Block.span) text := by
  have hplaces := places_anyBlock text
  obtain ⟨d, hitems, hend⟩ := h.of_outline
  obtain ⟨-, hplaced, -⟩ := hplaces.behindGaps hitems (Cursor.isIn_start text)
  exact ⟨hplaced, hplaces.fill hitems (Cursor.isIn_start text) hend⟩

end Outlines

end Grammar

/-! ## Documents -/

/-- In a text that is accepted, the parts of a declaration are placed. -/
theorem Declaration.isPlaced_of_mem {text : String} {d : Document}
    (h : Document.ofText text = .ok d) {x : Declaration} (hx : x ∈ d.declarations) :
    x.IsPlaced text.toList := by
  obtain ⟨blocks, c, houtline, hdeclarations⟩ := Document.ofText_eq_ok h
  obtain ⟨b, hb, hread⟩ := exists_of_mem_right (mapM_eq_ok_iff.mp hdeclarations) hx
  exact (outline_placed houtline).1 b hb x hread

/-- In every text that is accepted, the parts of the document are placed. -/
theorem Document.isPlaced_of_ofText {text : String} {d : Document}
    (h : Document.ofText text = .ok d) : d.IsPlaced text.toList := by
  obtain ⟨blocks, c, houtline, hdeclarations⟩ := Document.ofText_eq_ok h
  have hfill := (outline_placed houtline).2
  rw [← map_eq_of_mapM_eq_ok hdeclarations fun b x hx => span_of_ofBlock hx] at hfill
  refine ⟨fun x hx => Declaration.isPlaced_of_mem h hx, ?_, hfill⟩
  simpa using hfill.row

/-- Offsets count bytes: a comment in front that has a character of two bytes moves everything behind
it by one more than it has characters. -/
theorem Document.isPlaced_of_ofText_enum :
    ∃ d, Document.ofText "// é\nenum E \x7b a @map(\"b\") \x7d" = .ok d ∧
      d.enums = [⟨⟨"E", ⟨11, 12⟩⟩, [⟨⟨"a", ⟨15, 16⟩⟩,
        [⟨⟨"map", ⟨18, 21⟩⟩, .literal (.string "b"), ⟨17, 26⟩⟩], ⟨15, 26⟩⟩], [], ⟨6, 28⟩⟩] ∧
      d.IsPlaced "// é\nenum E \x7b a @map(\"b\") \x7d".toList := by
  have hread : (Document.ofText "// é\nenum E \x7b a @map(\"b\") \x7d").toOption.map Document.enums =
      some [⟨⟨"E", ⟨11, 12⟩⟩, [⟨⟨"a", ⟨15, 16⟩⟩,
        [⟨⟨"map", ⟨18, 21⟩⟩, .literal (.string "b"), ⟨17, 26⟩⟩], ⟨15, 26⟩⟩], [], ⟨6, 28⟩⟩] := by
    decide +kernel
  obtain ⟨d, hd, henums⟩ := toOption_map_eq_some_iff.mp hread
  exact ⟨d, hd, henums, Document.isPlaced_of_ofText hd⟩

end SchemaMigration
