import SchemaMigration.Proofs.Schema.Positions

/-! # Outlines keep the order of the text

In an outline the blocks, their members, and the attributes at every member stand in the order in
which they are written, each at a range of the text and none reaching into the next. Settings stand in
blocks of settings only.
-/

namespace SchemaMigration

open Grammar
open SchemaMigration.Grammar.Parser

namespace Grammar

/-! ## What is written at a member -/

namespace Member

/-- The attributes that are written at a member, each with its mark. -/
def written : Member → List (String × AttributeText)
  | .property .. => []
  | .field _ _ attributes _ | .value _ attributes _ => attributes.map fun w => ("@", w)
  | .attribute w => [("@@", w)]

def isSetting : Member → Bool
  | .property .. => true
  | _ => false

/-- A member stands at a range of the text, and its attributes in a row inside of it. -/
structure IsOrderly (text : List Char) (m : Member) : Prop where
  inText : ∃ part, m.span.Holds text part
  writtenInText : ∀ w ∈ m.written, ∃ part, w.2.span.Holds text part
  row : m.span.Row (m.written.map fun w => w.2.span)

end Member

/-- A block has its members in a row, and they are settings or not as its kind says. -/
structure Block.IsOrderly (text : List Char) (b : Block) : Prop where
  members : ∀ m ∈ b.members, m.IsOrderly text
  row : b.span.Row (b.members.map Member.span)
  settings : ∀ m ∈ b.members,
    (m.isSetting = true ↔ b.kind = .datasource ∨ b.kind = .generator)

variable {c d e f : Cursor} {text : List Char}

/-- Whatever is placed in a text holds a part of it. -/
theorem Parser.Places.inText {α : Type} {p : Parser α} {span : α → Span} {Q : α → Prop}
    (h : p.Places text span Q) :
    p.Places text span fun a => Q a ∧ ∃ part, (span a).Holds text part := by
  intro c a d hreads hc
  obtain ⟨hreaches, hspan, hlt, hQ⟩ := h c a d hreads hc
  refine ⟨hreaches, hspan, hlt, hQ, ?_⟩
  obtain ⟨part, hpart⟩ := hreaches
  exact ⟨part, hspan ▸ hc.holds hpart⟩

theorem Parser.Places.imp {α : Type} {p : Parser α} {span : α → Span} {Q R : α → Prop}
    (h : p.Places text span Q) (hR : ∀ a, Q a → R a) : p.Places text span R := by
  intro c a d hreads hc
  obtain ⟨hreaches, hspan, hlt, hQ⟩ := h c a d hreads hc
  exact ⟨hreaches, hspan, hlt, hR a hQ⟩

/-! ## Members -/

/-- The attributes behind a name and something more stand in a row, each at a range of the text. -/
theorem row_of_name_attributes {name : Ident} {attributes : List AttributeText} (hc : c.IsIn text)
    (hname : identifier.Reads c name e) (hbetween : e.Reaches f)
    (hattributes : (gapThen (many fieldAttribute)).Reads f attributes d) :
    (∀ w ∈ attributes, ∃ part, w.span.Holds text part) ∧
      (Span.mk c.offset d.offset).Row (attributes.map AttributeText.span) := by
  have hbefore := ((places_identifier text c name e hname hc).1.trans hbetween).trans
    f.reaches_pastGap
  obtain ⟨-, hholds, hrow⟩ := (places_fieldAttribute text).inText.many
    (Reads.of_afterGap hattributes) (hc.reaches hbefore)
  exact ⟨fun w hw => (hholds w hw).2, hrow.widen hbefore.offset_le (Nat.le_refl _)⟩

theorem written_of_field {m : Member} (h : Grammar.field.Reads c m d) (hc : c.IsIn text) :
    m.isSetting = false ∧ (∀ w ∈ m.written, ∃ part, w.2.span.Holds text part) ∧
      (Span.mk c.offset d.offset).Row (m.written.map fun w => w.2.span) := by
  obtain ⟨⟨⟨name, type, attributes⟩, span⟩, e, hlocated, hpure⟩ := Reads.of_bind h
  obtain ⟨rfl, rfl⟩ := hpure.of_pure
  obtain ⟨hbody, rfl⟩ := hlocated.of_located
  obtain ⟨name', f, hname, hrest⟩ := Reads.of_bind hbody.of_symbol
  obtain ⟨type', g, htype, hrest⟩ := Reads.of_bind hrest
  obtain ⟨attributes', k, hattributes, hpure⟩ := Reads.of_bind hrest
  obtain ⟨heq, rfl⟩ := hpure.of_pure
  cases heq
  obtain ⟨hholds, hrow⟩ :=
    row_of_name_attributes hc hname (advances_fieldType.gapThen f type g htype) hattributes
  refine ⟨rfl, List.forall_mem_map.mpr hholds, ?_⟩
  rwa [Member.written, List.map_map]

theorem written_of_enumValue {m : Member} (h : enumValue.Reads c m d) (hc : c.IsIn text) :
    m.isSetting = false ∧ (∀ w ∈ m.written, ∃ part, w.2.span.Holds text part) ∧
      (Span.mk c.offset d.offset).Row (m.written.map fun w => w.2.span) := by
  obtain ⟨⟨⟨name, attributes⟩, span⟩, e, hlocated, hpure⟩ := Reads.of_bind h
  obtain ⟨rfl, rfl⟩ := hpure.of_pure
  obtain ⟨hbody, rfl⟩ := hlocated.of_located
  obtain ⟨name', f, hname, hrest⟩ := Reads.of_bind hbody.of_symbol
  obtain ⟨attributes', k, hattributes, hpure⟩ := Reads.of_bind hrest
  obtain ⟨heq, rfl⟩ := hpure.of_pure
  cases heq
  obtain ⟨hholds, hrow⟩ := row_of_name_attributes hc hname (.refl f) hattributes
  refine ⟨rfl, List.forall_mem_map.mpr hholds, ?_⟩
  rwa [Member.written, List.map_map]

theorem written_of_blockAttribute {m : Member} (h : blockAttribute.Reads c m d)
    (hc : c.IsIn text) :
    m.isSetting = false ∧ (∀ w ∈ m.written, ∃ part, w.2.span.Holds text part) ∧
      (Span.mk c.offset d.offset).Row (m.written.map fun w => w.2.span) := by
  obtain ⟨-, hspan, hlt, -, hpart⟩ := (places_blockAttribute text).inText c m d h hc
  obtain ⟨⟨body, span⟩, e, -, hpure⟩ := Reads.of_bind h
  obtain ⟨rfl, rfl⟩ := hpure.of_pure
  obtain rfl : span = ⟨c.offset, d.offset⟩ := hspan
  refine ⟨rfl, List.forall_mem_singleton.mpr hpart, ?_⟩
  -- The attribute takes the whole range of its member.
  exact .cons (Nat.le_refl _) hlt (Nat.le_refl _) (.nil _)

theorem written_of_assignment {m : Member} (h : assignment.Reads c m d) :
    m.isSetting = true ∧ m.written = [] := by
  obtain ⟨⟨body, span⟩, e, -, hpure⟩ := Reads.of_bind h
  obtain ⟨rfl, rfl⟩ := hpure.of_pure
  exact ⟨rfl, rfl⟩

/-- A member is in order when what is written at it is. -/
theorem Parser.Places.orderly {p : Parser Member} {Q : Member → Prop} {isSetting : Bool}
    (h : p.Places text Member.span Q)
    (hwritten : ∀ {c m d}, p.Reads c m d → c.IsIn text →
      m.isSetting = isSetting ∧ (∀ w ∈ m.written, ∃ part, w.2.span.Holds text part) ∧
        (Span.mk c.offset d.offset).Row (m.written.map fun w => w.2.span)) :
    p.Places text Member.span fun m => m.IsOrderly text ∧ m.isSetting = isSetting := by
  intro c m d hreads hc
  obtain ⟨hreaches, hspan, hlt, -, hpart⟩ := h.inText c m d hreads hc
  obtain ⟨hkind, hholds, hrow⟩ := hwritten hreads hc
  exact ⟨hreaches, hspan, hlt, ⟨hpart, hholds, hspan ▸ hrow⟩, hkind⟩

theorem orderly_member (text : List Char) (kind : BlockKind) :
    (member kind).Places text Member.span fun m => m.IsOrderly text ∧
      (m.isSetting = true ↔ kind = .datasource ∨ kind = .generator) := by
  have hattribute := (places_blockAttribute text).orderly written_of_blockAttribute
  have hfield := (places_field text).orderly written_of_field
  have hvalue := (places_enumValue text).orderly written_of_enumValue
  have hsetting := (places_assignment text).orderly fun {c m d} hreads _ => show m.isSetting = true ∧ _ ∧ _ by
    obtain ⟨hkind, hnone⟩ := written_of_assignment hreads
    rw [hnone]
    exact ⟨hkind, List.forall_mem_nil _, .nil _⟩
  cases kind with
  | datasource | generator => exact hsetting.imp fun m hm => ⟨hm.1, by simp [hm.2]⟩
  | type => exact hfield.imp fun m hm => ⟨hm.1, by simp [hm.2]⟩
  | model | view =>
      have hfirst := places_first (List.forall_mem_cons.mpr
        ⟨hattribute, List.forall_mem_singleton.mpr hfield⟩)
      exact Parser.Places.imp hfirst fun m hm => ⟨hm.1, by simp [hm.2]⟩
  | enum =>
      have hfirst := places_first (List.forall_mem_cons.mpr
        ⟨hattribute, List.forall_mem_singleton.mpr hvalue⟩)
      exact Parser.Places.imp hfirst fun m hm => ⟨hm.1, by simp [hm.2]⟩

/-! ## Blocks and outlines -/

theorem orderly_block (text : List Char) (kind : BlockKind) :
    (block kind).Places text Block.span (Block.IsOrderly text) := by
  intro c b d h hc
  obtain ⟨hreaches, hspan, hlt, -⟩ := places_block text kind c b d h hc
  obtain ⟨rfl, -, c₁, c₂, c₃, c₄, h₁, hname, h₃, hmembers, h₅⟩ := h.of_block
  have hnamed := (places_identifier text c₁ b.name c₂ hname (hc.reaches h₁)).1
  have hbefore := (h₁.trans hnamed).trans h₃
  obtain ⟨-, horderly, hrow⟩ := (orderly_member text b.kind).many hmembers (hc.reaches hbefore)
  refine ⟨hreaches, hspan, hlt, fun m hm => (horderly m hm).1, ?_, fun m hm => (horderly m hm).2⟩
  rw [hspan]
  exact hrow.widen hbefore.offset_le h₅.offset_le

theorem orderly_anyBlock (text : List Char) :
    anyBlock.Places text Block.span (Block.IsOrderly text) := by
  apply places_first
  intro p hp
  obtain ⟨kind, -, rfl⟩ := List.mem_map.mp hp
  exact orderly_block text kind

/-- The blocks of an outline stand in a row, and each is in order. -/
theorem outline_orderly {blocks : List Block} (h : outline.Reads (.start text) blocks c) :
    (∀ b ∈ blocks, b.IsOrderly text) ∧
      ∃ whole : Span, whole.Row (blocks.map Block.span) := by
  obtain ⟨d, hitems, -⟩ := h.of_outline
  obtain ⟨-, horderly, hrow⟩ :=
    (orderly_anyBlock text).behindGaps hitems (Cursor.isIn_start text)
  exact ⟨horderly, _, hrow⟩

end Grammar

end SchemaMigration
