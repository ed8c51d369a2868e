import SchemaMigration.Proofs.Schema.Grammar.Advance
import SchemaMigration.Proofs.Schema.Grammar.Extension.Setting
import SchemaMigration.Proofs.Schema.Grammar.Outline

/-! # Blocks in a longer text

The members of a block are read in a longer text as they are read in the text itself, up to the brace
that closes the block. Behind that brace nothing is looked at, so a block asks nothing of what
follows it.
-/

namespace SchemaMigration.Grammar

open SchemaMigration.Grammar.Parser
open Text (isWordChar isWordStart)

/-! ## Shifted outlines -/

def AttributeText.shift (k : Nat) (written : AttributeText) : AttributeText :=
  ⟨written.name.shift k, written.arguments, written.span.shift k⟩

def Member.shift (k : Nat) : Member → Member
  | .property key setting span => .property key setting (span.shift k)
  | .field name type attributes span =>
    .field (name.shift k) type (attributes.map (AttributeText.shift k)) (span.shift k)
  | .value name attributes span =>
    .value (name.shift k) (attributes.map (AttributeText.shift k)) (span.shift k)
  | .attribute written => .attribute (written.shift k)

def Block.shift (k : Nat) (b : Block) : Block :=
  ⟨b.kind, b.name.shift k, b.members.map (Member.shift k), b.span.shift k⟩

variable {ext : List Char} {k : Nat} {c d : Cursor} {cs : List Char}

/-! ## Attributes -/

theorem carries_attributeArgs (ext : List Char) (k : Nat) :
    Carries ext k attributeArgs attributeArgs id fun _ => True := by
  intro c raw d hreads _
  obtain ⟨_, c₁, hopen, hrest⟩ := Reads.of_bind (Reads.of_symbol hreads)
  obtain ⟨i, c₂, hraw, hrest⟩ := Reads.of_bind hrest
  obtain ⟨_, c₃, hclose, hpure⟩ := Reads.of_bind hrest
  obtain ⟨rfl, rfl⟩ := hpure.of_pure
  have hend : c₂.rest.head? = some ')' := hclose.of_exactly.rest ▸ rfl
  refine Gives.symbol (hopen.exactly_extended.bind ?_) _
  refine ((hraw.of_symbol.lexeme_extended keeps_rawArgument hend).symbol _).bind ?_
  exact hclose.exactly_extended.bind (gives_pure _ _)

theorem carries_attributeBody (ext : List Char) (k : Nat) :
    Carries ext k attributeBody attributeBody (fun body => (body.1.shift k, body.2)) EndsPart := by
  intro c body d hreads hd
  obtain ⟨name, e, hname, hrest⟩ := Reads.of_bind hreads
  obtain ⟨arguments, f, harguments, hpure⟩ := Reads.of_bind hrest
  obtain ⟨rfl, rfl⟩ := hpure.of_pure
  have hne : d.rest ≠ [] := ne_nil_of_afterGap hd.solid
  rcases harguments.of_optional with ⟨raw, rfl, hraw⟩ | ⟨rfl, rfl⟩
  · obtain ⟨_, c₁, hopen, -⟩ := Reads.of_bind (Reads.of_symbol hraw)
    have hnext : e.rest ≠ [] ∧ e.rest.head? ≠ some '.' := by
      rw [hopen.of_exactly.rest]
      exact ⟨List.cons_ne_nil _ _, by simp⟩
    refine ((hname.of_symbol.lexeme_extended keeps_attributeName hnext).symbol _).bind ?_
    exact (carries_attributeArgs ext k e raw d hraw trivial).optional.bind (gives_pure _ _)
  · have hnext : d.rest ≠ [] ∧ d.rest.head? ≠ some '.' := ⟨hne, hd.head?_ne (by decide)⟩
    have hnone : attributeArgs.Refuses (d.extended ext k).rest := by
      refine ((refuses_exactly_of_head (c := '(') rfl ?_).bind _).symbol _
      rw [Cursor.extended, List.head?_append_of_ne_nil _ hne]
      exact hd.head?_ne (by decide)
    refine ((hname.of_symbol.lexeme_extended keeps_attributeName hnext).symbol _).bind ?_
    exact hnone.optional_gives.bind (gives_pure _ _)

theorem carries_fieldAttribute (ext : List Char) (k : Nat) :
    Carries ext k fieldAttribute fieldAttribute (AttributeText.shift k) EndsPart := by
  intro c written d hreads hd
  obtain ⟨⟨⟨name, arguments⟩, span⟩, e, hlocated, hpure⟩ := Reads.of_bind hreads
  obtain ⟨rfl, rfl⟩ := hpure.of_pure
  obtain ⟨hbody, rfl⟩ := hlocated.of_located
  obtain ⟨_, f, hmark, hrest⟩ := Reads.of_bind hbody.of_symbol
  obtain ⟨_, g, hnot, hattribute⟩ := Reads.of_bind hrest
  obtain ⟨hsame, hhead⟩ := hnot.of_notNext
  subst g
  have hne : f.rest ≠ [] := by
    obtain ⟨name, _, hname, -⟩ := Reads.of_bind hattribute
    obtain ⟨l, hscan, -, -⟩ := hname.of_symbol.of_lexeme
    rintro hnil
    rw [hnil] at hscan
    cases hscan
  have hnot' : (f.extended ext k).rest.head? ≠ some '@' := by
    rwa [Cursor.extended, List.head?_append_of_ne_nil _ hne]
  have hbody' : attributeBody.Gives (f.extended ext k) (name.shift k, arguments)
      (d.extended ext k) := carries_attributeBody ext k f (name, arguments) d hattribute hd
  have hmarked : (symbol .fieldAttribute do
      exactly "@"
      notNext '@'
      attributeBody).Gives (c.extended ext k) (name.shift k, arguments) (d.extended ext k) :=
    (hmark.exactly_extended.bind ((gives_notNext hnot').bind hbody')).symbol _
  exact hmarked.located.bind (gives_pure _ _)

theorem carries_blockAttribute (ext : List Char) (k : Nat) :
    Carries ext k blockAttribute blockAttribute (Member.shift k) EndsPart := by
  intro c m d hreads hd
  obtain ⟨⟨⟨name, arguments⟩, span⟩, e, hlocated, hpure⟩ := Reads.of_bind hreads
  obtain ⟨rfl, rfl⟩ := hpure.of_pure
  obtain ⟨hbody, rfl⟩ := hlocated.of_located
  obtain ⟨_, f, hmark, hattribute⟩ := Reads.of_bind hbody.of_symbol
  have hbody' : attributeBody.Gives (f.extended ext k) (name.shift k, arguments)
      (d.extended ext k) := carries_attributeBody ext k f (name, arguments) d hattribute hd
  refine Gives.bind (Gives.located (Gives.symbol (hmark.exactly_extended.bind hbody') _)) ?_
  exact gives_pure _ _

/-! ## Members -/

/-- What may follow a member: the next one, which starts with a word or with the mark of a block's
attribute, or the brace that closes the block. -/
inductive NextMember : List Char → Prop
  | word {ch : Char} {rest : List Char} (h : isWordStart ch = true) : NextMember (ch :: rest)
  | mark {rest : List Char} : NextMember ('@' :: '@' :: rest)
  | close {rest : List Char} : NextMember ('\x7d' :: rest)

theorem NextMember.endsPart (h : NextMember cs) : EndsPart cs := by
  cases h with
  | @word ch rest hch =>
      refine ⟨ch, rest, rfl, isSolid_of_isWordChar (isWordChar_of_isWordStart hch), ?_⟩
      intro hmem
      have hother : ['(', '.', '[', '?'].all (fun c => !isWordStart c) = true := rfl
      have hnot := List.all_eq_true.mp hother ch hmem
      rw [hch] at hnot
      cases hnot
  | mark => exact ⟨'@', _, rfl, by decide, by decide⟩
  | close => exact ⟨'\x7d', _, rfl, by decide, by decide⟩

theorem NextMember.refuses_fieldAttribute (h : NextMember cs) (ext : List Char) :
    fieldAttribute.Refuses (cs ++ ext) := by
  refine Refuses.bind (Refuses.located (Refuses.symbol ?_ _)) _
  cases h with
  | word hch =>
      refine (refuses_exactly_of_head (c := '@') rfl ?_).bind _
      rintro ⟨⟩
      exact absurd hch (by decide)
  | @mark rest =>
      refine (yields_exactly "@" ('@' :: rest ++ ext)).bind_refuses ?_
      rintro _ r rfl
      exact (refuses_notNext '@' _).bind _
  | close => exact (refuses_exactly_of_head (c := '@') rfl (by simp)).bind _

theorem carriesItems_fieldAttribute (ext : List Char) (k : Nat) :
    CarriesItems ext k fieldAttribute fieldAttribute (AttributeText.shift k) EndsPart
      NextMember where
  carries := carries_fieldAttribute ext k
  starts := by
    intro c written d hreads
    obtain ⟨⟨body, span⟩, e, hlocated, -⟩ := Reads.of_bind hreads
    obtain ⟨_, f, hmark, -⟩ := Reads.of_bind hlocated.of_located.1.of_symbol
    rw [hmark.of_exactly.rest]
    exact ⟨'@', f.rest, rfl, by decide, by decide⟩
  solid := fun _ => EndsPart.solid
  stops := fun _ => NextMember.endsPart
  refuses := fun _ hcs => hcs.refuses_fieldAttribute ext

/-- A mark that may be left out is read again, or left out again, when no such mark follows. -/
theorem optional_mark_extended {mark : String} {ch : Char} {l : List Char}
    (hmark : mark.toList = ch :: l) {s : Symbol} {o : Option Unit}
    (h : (optional (symbol s (exactly mark))).Reads c o d) (hd : d.rest ≠ [])
    (hhead : d.rest.head? ≠ some ch) :
    (optional (symbol s (exactly mark))).Gives (c.extended ext k) o (d.extended ext k) := by
  rcases h.of_optional with ⟨u, rfl, hu⟩ | ⟨rfl, rfl⟩
  · exact (hu.of_symbol.exactly_extended.symbol s).optional
  · have hhead' : (d.extended ext k).rest.head? ≠ some ch := by
      rwa [Cursor.extended, List.head?_append_of_ne_nil _ hd]
    exact ((refuses_exactly_of_head hmark hhead').symbol s).optional_gives

theorem carries_fieldType (ext : List Char) (k : Nat) :
    Carries ext k fieldType fieldType id EndsPart := by
  intro c t d hreads hd
  obtain ⟨base, c₁, hbase, hrest⟩ := Reads.of_bind (Reads.of_symbol hreads)
  obtain ⟨list, c₂, hlist, hrest⟩ := Reads.of_bind hrest
  obtain ⟨opt, c₃, hopt, hpure⟩ := Reads.of_bind hrest
  obtain ⟨rfl, rfl⟩ := hpure.of_pure
  have hne : d.rest ≠ [] := ne_nil_of_afterGap hd.solid
  have hreaches : c₂.Reaches d := ((advances_exactly _).symbol _).optional c₂ opt d hopt
  have hreaches' : c₁.Reaches d :=
    (((advances_exactly _).symbol _).optional c₁ list c₂ hlist).trans hreaches
  have hbracket : c₂.rest.head? ≠ some '[' := by
    rcases hopt.of_optional with ⟨u, -, hu⟩ | ⟨-, rfl⟩
    · rw [hu.of_symbol.of_exactly.rest]
      simp
    · exact hd.head?_ne (by decide)
  have hquestion : d.rest.head? ≠ some '?' := hd.head?_ne (by decide)
  refine Gives.symbol (Gives.bind (Gives.symbol
    (hbase.of_symbol.lexeme_extended keeps_word (hreaches'.rest_ne_nil hne)) _) ?_) _
  refine (optional_mark_extended rfl hlist (hreaches.rest_ne_nil hne) hbracket).bind ?_
  refine (optional_mark_extended rfl hopt hne hquestion).bind ?_
  exact gives_pure _ _

theorem starts_fieldType {t : FieldType} (h : fieldType.Reads c t d) : StartsSolid c.rest := by
  obtain ⟨base, e, hbase, -⟩ := Reads.of_bind h.of_symbol
  obtain ⟨ch, rest, hrest, hch⟩ := starts_of_identifier hbase
  exact startsSolid_of_isWordStart hrest hch

theorem carries_assignment (ext : List Char) (k : Nat) :
    Carries ext k assignment assignment (Member.shift k) NextMember := by
  intro c m d hreads hd
  obtain ⟨⟨⟨key, setting⟩, span⟩, e, hlocated, hpure⟩ := Reads.of_bind hreads
  obtain ⟨rfl, rfl⟩ := hpure.of_pure
  obtain ⟨hbody, rfl⟩ := hlocated.of_located
  obtain ⟨key', c₁, hkey, hrest⟩ := Reads.of_bind hbody.of_symbol
  obtain ⟨_, c₂, hmark, hrest⟩ := Reads.of_bind hrest
  obtain ⟨setting', c₃, hsetting, hpure⟩ := Reads.of_bind hrest
  obtain ⟨heq, rfl⟩ := hpure.of_pure
  cases heq
  have hvalue := Reads.of_afterGap hsetting
  have hmarked : StartsSolid (afterGap c₁.rest) := rest_of_mark hmark ▸ rfl
  have hkey' := carries_identifier ext k c key c₁ hkey hmarked
  have hmark' : (gapThen (exactly "=")).Gives (c₁.extended ext k) () (c₂.extended ext k) :=
    mark_extended hmark ⟨'=', [], rfl, rfl⟩
  have hsetting' : (gapThen anyValue).Gives (c₂.extended ext k) setting (d.extended ext k) :=
    .afterGap_extended (starts_anyValue hvalue)
      (carries_anyValue ext k c₂.pastGap setting d hvalue hd.endsPart)
  have hbody' : (symbol .assignment do
      let key ← identifier
      gapThen (exactly "=")
      let value ← gapThen anyValue
      return (key, value)).Gives (c.extended ext k) (key.shift k, setting) (d.extended ext k) := by
    refine Gives.symbol (hkey'.bind (hmark'.bind (hsetting'.bind ?_))) _
    exact gives_pure _ _
  exact hbody'.located.bind (gives_pure _ _)

theorem carries_field (ext : List Char) (k : Nat) :
    Carries ext k field field (Member.shift k) NextMember := by
  intro c m d hreads hd
  obtain ⟨⟨⟨name, type, written⟩, span⟩, e, hlocated, hpure⟩ := Reads.of_bind hreads
  obtain ⟨rfl, rfl⟩ := hpure.of_pure
  obtain ⟨hbody, rfl⟩ := hlocated.of_located
  obtain ⟨name', c₁, hname, hrest⟩ := Reads.of_bind hbody.of_symbol
  obtain ⟨type', c₂, htype, hrest⟩ := Reads.of_bind hrest
  obtain ⟨written', c₃, hwritten, hpure⟩ := Reads.of_bind hrest
  obtain ⟨heq, rfl⟩ := hpure.of_pure
  cases heq
  have hitems := carriesItems_fieldAttribute ext k
  have htype := Reads.of_afterGap htype
  have hmany := Reads.of_afterGap hwritten
  have hsolid := starts_fieldType htype
  have hname' := carries_identifier ext k c name c₁ hname (c₁.rest_pastGap ▸ hsolid)
  have htype' : (gapThen fieldType).Gives (c₁.extended ext k) type (c₂.extended ext k) :=
    .afterGap_extended hsolid
      (carries_fieldType ext k c₁.pastGap type c₂ htype (hitems.follow_of_many hmany hd))
  have hwritten' : (gapThen (many fieldAttribute)).Gives (c₂.extended ext k)
      (written.map (AttributeText.shift k)) (d.extended ext k) := .afterGap (hitems.many hmany hd)
  have hbody' : (symbol .field do
      let name ← identifier
      let type ← gapThen fieldType
      let attributes ← gapThen (many fieldAttribute)
      return (name, type, attributes)).Gives (c.extended ext k)
        (name.shift k, type, written.map (AttributeText.shift k)) (d.extended ext k) := by
    refine Gives.symbol (hname'.bind (htype'.bind (hwritten'.bind ?_))) _
    exact gives_pure _ _
  exact hbody'.located.bind (gives_pure _ _)

theorem carries_enumValue (ext : List Char) (k : Nat) :
    Carries ext k enumValue enumValue (Member.shift k) NextMember := by
  intro c m d hreads hd
  obtain ⟨⟨⟨name, written⟩, span⟩, e, hlocated, hpure⟩ := Reads.of_bind hreads
  obtain ⟨rfl, rfl⟩ := hpure.of_pure
  obtain ⟨hbody, rfl⟩ := hlocated.of_located
  obtain ⟨name', c₁, hname, hrest⟩ := Reads.of_bind hbody.of_symbol
  obtain ⟨written', c₂, hwritten, hpure⟩ := Reads.of_bind hrest
  obtain ⟨heq, rfl⟩ := hpure.of_pure
  cases heq
  have hitems := carriesItems_fieldAttribute ext k
  have hmany := Reads.of_afterGap hwritten
  have hname' := carries_identifier ext k c name c₁ hname (hitems.follow_of_many hmany hd).solid
  have hwritten' : (gapThen (many fieldAttribute)).Gives (c₁.extended ext k)
      (written.map (AttributeText.shift k)) (d.extended ext k) := .afterGap (hitems.many hmany hd)
  have hbody' : (symbol .enumValue do
      let name ← identifier
      let attributes ← gapThen (many fieldAttribute)
      return (name, attributes)).Gives (c.extended ext k)
        (name.shift k, written.map (AttributeText.shift k)) (d.extended ext k) := by
    refine Gives.symbol (hname'.bind (hwritten'.bind ?_)) _
    exact gives_pure _ _
  exact hbody'.located.bind (gives_pure _ _)

/-- A field, an enum value and a setting start with a word. -/
theorem starts_of_located_identifier {α : Type} {s : Symbol} {g : Ident → Parser α}
    {r : α × Span} (h : (located (symbol s (identifier >>= g))).Reads c r d) :
    ∃ ch rest, c.rest = ch :: rest ∧ isWordStart ch = true := by
  obtain ⟨i, e, hi, -⟩ := Reads.of_bind h.of_located.1.of_symbol
  exact starts_of_identifier hi

theorem starts_field {m : Member} (h : field.Reads c m d) :
    ∃ ch rest, c.rest = ch :: rest ∧ isWordStart ch = true := by
  obtain ⟨r, e, hlocated, -⟩ := Reads.of_bind h
  exact starts_of_located_identifier hlocated

theorem starts_enumValue {m : Member} (h : enumValue.Reads c m d) :
    ∃ ch rest, c.rest = ch :: rest ∧ isWordStart ch = true := by
  obtain ⟨r, e, hlocated, -⟩ := Reads.of_bind h
  exact starts_of_located_identifier hlocated

/-- A member that starts with a word is read again where an attribute of the block may stand too. -/
theorem carries_first_blockAttribute {p : Parser Member}
    (hp : Carries ext k p p (Member.shift k) NextMember)
    (hstarts : ∀ c m d, p.Reads c m d → ∃ ch rest, c.rest = ch :: rest ∧ isWordStart ch = true) :
    Carries ext k (first [blockAttribute, p]) (first [blockAttribute, p]) (Member.shift k)
      NextMember := by
  intro c m d hreads hd
  rcases Reads.of_orElse hreads with hattribute | ⟨-, hfirst⟩
  · exact (carries_blockAttribute ext k c m d hattribute hd.endsPart).orElse _
  · rcases Reads.of_orElse hfirst with hm | ⟨-, hfail⟩
    · obtain ⟨ch, rest, hrest, hch⟩ := hstarts c m d hm
      have hmark : (c.extended ext k).rest.head? ≠ some '@' := by
        rw [Cursor.extended, hrest]
        rintro ⟨⟩
        exact absurd hch (by decide)
      have hrefuses : blockAttribute.Refuses (c.extended ext k).rest :=
        (((refuses_exactly_of_head rfl hmark).bind _).symbol _).located.bind _
      exact hrefuses.orElse_gives ((hp c m d hm hd).orElse _)
    · exact absurd hfail not_reads_fail

theorem starts_first_blockAttribute {p : Parser Member} {m : Member}
    (hstarts : ∀ c m d, p.Reads c m d → ∃ ch rest, c.rest = ch :: rest ∧ isWordStart ch = true)
    (h : (first [blockAttribute, p]).Reads c m d) : NextMember c.rest := by
  rcases Reads.of_orElse h with hattribute | ⟨-, hfirst⟩
  · obtain ⟨r, e, hlocated, -⟩ := Reads.of_bind hattribute
    obtain ⟨_, f, hmark, -⟩ := Reads.of_bind hlocated.of_located.1.of_symbol
    rw [hmark.of_exactly.rest]
    exact .mark
  · rcases Reads.of_orElse hfirst with hm | ⟨-, hfail⟩
    · obtain ⟨ch, rest, hrest, hch⟩ := hstarts c m d hm
      exact hrest ▸ .word hch
    · exact absurd hfail not_reads_fail

theorem carries_member (ext : List Char) (k : Nat) (kind : BlockKind) :
    Carries ext k (member kind) (member kind) (Member.shift k) NextMember := by
  cases kind with
  | datasource | generator => exact carries_assignment ext k
  | model | view =>
      exact carries_first_blockAttribute (carries_field ext k) fun _ _ _ => starts_field
  | type => exact carries_field ext k
  | enum =>
      exact carries_first_blockAttribute (carries_enumValue ext k) fun _ _ _ => starts_enumValue

theorem starts_member {kind : BlockKind} {m : Member} (h : (member kind).Reads c m d) :
    NextMember c.rest := by
  cases kind with
  | datasource | generator =>
      obtain ⟨r, e, hlocated, -⟩ := Reads.of_bind h
      obtain ⟨ch, rest, hrest, hch⟩ := starts_of_located_identifier hlocated
      exact hrest ▸ .word hch
  | model | view => exact starts_first_blockAttribute (fun _ _ _ => starts_field) h
  | type =>
      obtain ⟨ch, rest, hrest, hch⟩ := starts_field h
      exact hrest ▸ .word hch
  | enum => exact starts_first_blockAttribute (fun _ _ _ => starts_enumValue) h

theorem carriesItems_member (ext : List Char) (k : Nat) (kind : BlockKind) :
    CarriesItems ext k (member kind) (member kind) (Member.shift k) NextMember
      (fun cs => cs.head? = some '\x7d') where
  carries := carries_member ext k kind
  starts := fun _ _ _ => starts_member
  solid := fun _ hcs => hcs.endsPart.solid
  stops := by
    intro cs hcs
    obtain ⟨rest, rfl⟩ := List.head?_eq_some_iff.mp hcs
    exact .close
  refuses := by
    intro cs hcs
    obtain ⟨rest, rfl⟩ := List.head?_eq_some_iff.mp hcs
    exact refuses_member kind (rest ++ ext)

/-! ## Blocks -/

/-- A block is read in a longer text whatever follows it. -/
theorem carries_block (ext : List Char) (k : Nat) (kind : BlockKind) :
    Carries ext k (block kind) (block kind) (Block.shift k) fun _ => True := by
  intro c b d hreads _
  obtain ⟨⟨⟨name, members⟩, span⟩, e, hlocated, hpure⟩ := Reads.of_bind hreads
  obtain ⟨rfl, rfl⟩ := hpure.of_pure
  obtain ⟨hbody, rfl⟩ := hlocated.of_located
  obtain ⟨keyword, c₁, hkeyword, hrest⟩ := Reads.of_bind hbody.of_symbol
  obtain ⟨name', c₂, hname, hrest⟩ := Reads.of_bind hrest
  obtain ⟨_, c₃, hopen, hrest⟩ := Reads.of_bind hrest
  obtain ⟨members', c₄, hmembers, hrest⟩ := Reads.of_bind hrest
  obtain ⟨_, c₅, hclose, hpure⟩ := Reads.of_bind hrest
  obtain ⟨heq, rfl⟩ := hpure.of_pure
  cases heq
  have hname := Reads.of_afterGap hname
  have hopened : StartsSolid (afterGap c₂.rest) := rest_of_mark hopen ▸ rfl
  have hclosed : (afterGap c₄.rest).head? = some '\x7d' := rest_of_mark hclose ▸ rfl
  have hnamed : StartsSolid c₁.pastGap.rest := by
    obtain ⟨ch, rest, hrest, hch⟩ := starts_of_identifier hname
    exact startsSolid_of_isWordStart hrest hch
  have hkeyword' : (symbol (.keyword kind) (lexeme (Lexeme.keyword kind))).Gives
      (c.extended ext k) (keyword.shift k) (c₁.extended ext k) :=
    (hkeyword.of_symbol.lexeme_extended (keeps_wholeWord _)
      (ne_nil_of_afterGap (c₁.rest_pastGap ▸ hnamed))).symbol _
  have hname' : (gapThen identifier).Gives (c₁.extended ext k) (name.shift k) (c₂.extended ext k) :=
    .afterGap_extended hnamed (carries_identifier ext k c₁.pastGap name c₂ hname hopened)
  have hopen' : (gapThen (exactly "\x7b")).Gives (c₂.extended ext k) () (c₃.extended ext k) :=
    mark_extended hopen ⟨'\x7b', [], rfl, rfl⟩
  have hmembers' : (gapThen (many (member kind))).Gives (c₃.extended ext k)
      (members.map (Member.shift k)) (c₄.extended ext k) :=
    .afterGap ((carriesItems_member ext k kind).many (Reads.of_afterGap hmembers) hclosed)
  have hclose' : (gapThen (exactly "\x7d")).Gives (c₄.extended ext k) () (d.extended ext k) :=
    mark_extended hclose ⟨'\x7d', [], rfl, rfl⟩
  have hbody' : (symbol (.block kind) do
      let _ ← symbol (.keyword kind) (lexeme (Lexeme.keyword kind))
      let name ← gapThen identifier
      gapThen (exactly "\x7b")
      let members ← gapThen (many (member kind))
      gapThen (exactly "\x7d")
      return (name, members)).Gives (c.extended ext k)
        (name.shift k, members.map (Member.shift k)) (d.extended ext k) := by
    refine Gives.symbol (hkeyword'.bind (hname'.bind (hopen'.bind (hmembers'.bind ?_)))) _
    exact hclose'.bind (gives_pure _ _)
  exact hbody'.located.bind (gives_pure _ _)

/-- What a block starts with: its keyword, which ends there. -/
theorem starts_block {kind : BlockKind} {b : Block} (h : (block kind).Reads c b d) :
    ∃ rest, c.rest = kind.keyword.toList ++ rest ∧ rest.head?.any isWordChar = false ∧
      rest ≠ [] := by
  obtain ⟨r, e, hlocated, -⟩ := Reads.of_bind h
  obtain ⟨keyword, c₁, hkeyword, hrest⟩ := Reads.of_bind hlocated.of_located.1.of_symbol
  obtain ⟨name, c₂, hname, -⟩ := Reads.of_bind hrest
  obtain ⟨l, hscan, -, -⟩ := hkeyword.of_symbol.of_lexeme
  obtain ⟨-, hrest, hhead⟩ := wholeWord_eq_some hscan
  obtain ⟨ch, rest, hstart, hch⟩ := starts_of_identifier (Reads.of_afterGap hname)
  have hsolid := startsSolid_of_isWordStart hstart hch
  exact ⟨c₁.rest, hrest, hhead, ne_nil_of_afterGap (c₁.rest_pastGap ▸ hsolid)⟩

/-- A block is read in a longer text as a block of the same kind. -/
theorem carries_anyBlock (ext : List Char) (k : Nat) :
    Carries ext k anyBlock anyBlock (Block.shift k) fun _ => True := by
  intro c b d hreads _
  obtain ⟨before, p, after, hsplit, -, hp⟩ := hreads.of_first
  have hmem : p ∈ BlockKind.all.map block := hsplit ▸ by simp
  obtain ⟨kind, -, rfl⟩ := List.mem_map.mp hmem
  obtain ⟨rest, hrest, hhead, hne⟩ := starts_block hp
  refine gives_first hmem (carries_block ext k kind c b d hp trivial) ?_
  intro q hq
  obtain ⟨other, -, rfl⟩ := List.mem_map.mp hq
  by_cases hother : other = kind
  · exact .inl (hother ▸ rfl)
  · right
    rw [Cursor.extended, hrest, List.append_assoc]
    exact refuses_block hother (by rwa [head?_any_append hne])

theorem starts_anyBlock {b : Block} (h : anyBlock.Reads c b d) : StartsSolid c.rest := by
  obtain ⟨before, p, after, hsplit, -, hp⟩ := h.of_first
  have hmem : p ∈ BlockKind.all.map block := hsplit ▸ by simp
  obtain ⟨kind, -, rfl⟩ := List.mem_map.mp hmem
  obtain ⟨rest, hrest, -⟩ := starts_block hp
  rw [hrest]
  cases kind <;> rfl

end SchemaMigration.Grammar
