import SchemaMigration.Proofs.Schema.Grammar.Outline
import SchemaMigration.Proofs.Schema.Meaning

/-! # Reading what is written

A document that can be written, with tidy arguments, is read back from its canonical text: the same
declarations in the same order, apart from where they stand. It need not be the canonical text: the
attributes may be written in any way in which each of them is read back.
-/

namespace SchemaMigration

open Grammar
open SchemaMigration.Grammar.Parser

/-! ## Parts of a block -/

namespace Part

theorem filterMap_field?_bare (parts : List Part) :
    (parts.filterMap field?).map Field.bare = (parts.map bare).filterMap field? := by
  rw [List.map_filterMap, List.filterMap_map]
  exact List.filterMap_congr fun p _ => by cases p <;> rfl

theorem filterMap_value?_bare (parts : List Part) :
    (parts.filterMap value?).map EnumValue.bare = (parts.map bare).filterMap value? := by
  rw [List.map_filterMap, List.filterMap_map]
  exact List.filterMap_congr fun p _ => by cases p <;> rfl

theorem filterMap_attribute?_bare (parts : List Part) :
    (parts.filterMap attribute?).map Attribute.bare = (parts.map bare).filterMap attribute? := by
  rw [List.map_filterMap, List.filterMap_map]
  exact List.filterMap_congr fun p _ => by cases p <;> rfl

/-- The parts that the members of a block add to it. -/
theorem exists_of_isMeantBy {parts : List Part} {members : List Member}
    (h : List.Forall₂ IsMeantBy parts members) :
    ∃ given, members.mapM ofMember? = .ok given ∧
      (given.filterMap id).map bare = parts.map bare := by
  have hsome : List.Forall₂
      (fun p m => ∃ given, ofMember? m = .ok given ∧ given.map bare = some p.bare) parts members :=
    h.imp fun p m ⟨q, hq, hbare⟩ => ⟨some q, hq, congrArg some hbare⟩
  obtain ⟨given, hgiven, hbare⟩ := mapM_eq_ok_of_forall₂ hsome
  refine ⟨given, hgiven, ?_⟩
  calc (given.filterMap id).map bare
      = (given.map (Option.map bare)).filterMap id := by
        rw [List.map_filterMap, List.filterMap_map]
        rfl
    _ = (parts.map fun p => some p.bare).filterMap id := by rw [hbare]
    _ = parts.map bare := by
        rw [List.filterMap_map]
        exact congrFun (List.filterMap_eq_map' (f := bare)) parts

end Part

/-! ## Settings -/

theorem SettingsBlock.settingsAfter_eq {block : String} {settings : List (String × SettingValue)}
    {members : List Member} (known : List (String × SettingValue))
    (h : List.Forall₂ (fun setting m => ∃ span, m = .property setting.1 setting.2 span)
      settings members)
    (hnodup : ((known ++ settings).map Prod.fst).Nodup) :
    settingsAfter block known members = .ok (known ++ settings) := by
  induction h generalizing known with
  | nil => rw [settingsAfter, List.append_nil]
  | @cons setting m settings members hm _ ih =>
      obtain ⟨span, rfl⟩ := hm
      have hnew : (known.any fun other => other.1 == setting.1) = false := by
        rw [List.map_append, List.map_cons] at hnodup
        have hdisjoint := (List.nodup_append.mp hnodup).2.2
        refine List.any_eq_false.mpr fun other hother => ?_
        simpa using hdisjoint _ (List.mem_map_of_mem hother) _ List.mem_cons_self
      rw [settingsAfter, hnew, if_neg Bool.false_ne_true, ih]
      · simp
      · simpa using hnodup

/-! ## Declarations -/

/-- A block means a declaration, apart from where it stands. -/
def Declaration.IsMeantBy (x : Declaration) (b : Block) : Prop :=
  ∃ y, Declaration.ofBlock b = .ok y ∧ y.bare = x.bare

/-- A declaration that can be written and is read back. -/
structure Declaration.IsReadable (x : Declaration) : Prop where
  writable : x.IsWritable
  tidy : ∀ p ∈ x.parts, ∀ a ∈ p.attributes, a.args.IsTidy

/-- A declaration that can be written with attributes that are read back. -/
structure Declaration.IsReadableBy (w : Attribute → List Char) (x : Declaration) : Prop where
  writable : x.IsWritable
  attributes : ∀ p ∈ x.parts, ∀ a ∈ p.attributes, a.IsReadFrom (w a)

namespace Declaration

variable {w : Attribute → List Char} {x : Declaration}

/-- The kind of block that a declaration is written as. -/
def blockKind : Declaration → BlockKind
  | .datasource _ => .datasource
  | .generator _ => .generator
  | .model _ => .model
  | .enum _ => .enum
  | .composite _ => .type
  | .view _ => .view

theorem fits_of_mem_parts : ∀ p ∈ x.parts, p.Fits x.blockKind := by
  cases x <;> simp [parts, blockKind, Part.Fits, or_imp, forall_and]

theorem IsReadable.isReadable_attribute (h : x.IsReadable) {p : Part} (hp : p ∈ x.parts) {a : Attribute}
    (ha : a ∈ p.attributes) : a.IsReadable where
  writable := by
    have hwritable : p.IsWritable := by
      have hx := h.writable
      cases x with
      | datasource | generator => cases hp
      | _ => exact hx.2 p hp
    rcases p with f | v | b
    · exact hwritable.attributes a ha
    · exact hwritable.attributes a ha
    · exact List.mem_singleton.mp ha ▸ hwritable
  tidy := h.tidy p hp a ha

theorem IsReadable.isReadableBy (h : x.IsReadable) : x.IsReadableBy Attribute.body :=
  ⟨h.writable, fun _ hp _ ha => Attribute.isReadFrom_body (h.isReadable_attribute hp ha)⟩

/-- A declaration whose attributes are written in a given way. -/
def charsBy (w : Attribute → List Char) (x : Declaration) : List Char :=
  match x with
  | .datasource b => b.chars .datasource
  | .generator b => b.chars .generator
  | _ => x.blockKind.chars x.name (x.parts.map (Part.charsBy w))

theorem charsBy_body : charsBy Attribute.body = chars := by
  funext x
  cases x with
  | datasource | generator => rfl
  | _ =>
      rw [charsBy, Part.charsBy_body]
      · rfl
      all_goals nofun

theorem charsBy_eq (w : Attribute → List Char) (x : Declaration) :
    ∃ more, x.charsBy w = x.blockKind.keyword.toList ++ ' ' :: more := by
  cases x <;> exact ⟨_, rfl⟩

theorem isMeantBy_of_settings {b : Block} {s : SettingsBlock} (h : s.IsWritable)
    (hname : b.name.name = s.name.name) (hmembers : List.Forall₂ (fun setting m =>
      ∃ span, m = .property setting.1 setting.2 span) s.properties b.members) :
    ∃ read, SettingsBlock.ofBlock b = .ok read ∧ read.bare = s.bare := by
  have hsettings : SettingsBlock.settingsAfter b.name.name [] b.members = .ok s.properties :=
    SettingsBlock.settingsAfter_eq [] hmembers h.distinct
  refine ⟨⟨b.name, s.properties, b.span⟩, ?_, ?_⟩
  · rw [SettingsBlock.ofBlock, hsettings]
    rfl
  · simp [SettingsBlock.bare, Ident.bare, hname]

/-- The members of a block that describes data mean what was written. -/
theorem isMeantBy_of_parts {b : Block} (hkind : b.kind = x.blockKind) (hname : b.name.name = x.name)
    (hmembers : List.Forall₂ Part.IsMeantBy x.parts b.members)
    (hdata : x.blockKind ≠ .datasource ∧ x.blockKind ≠ .generator) : x.IsMeantBy b := by
  obtain ⟨kind, name, members, span⟩ := b
  obtain ⟨given, hgiven, hbare⟩ := Part.exists_of_isMeantBy hmembers
  have hfields := Part.filterMap_field?_bare (given.filterMap id)
  have hvalues := Part.filterMap_value?_bare (given.filterMap id)
  have hattributes := Part.filterMap_attribute?_bare (given.filterMap id)
  rw [hbare] at hfields hvalues hattributes
  dsimp only at hkind hname hgiven
  subst hkind
  have hbareName : name.bare = ⟨x.name, .empty⟩ := congrArg (Ident.mk · Span.empty) hname
  cases x with
  | datasource s => exact absurd rfl hdata.1
  | generator s => exact absurd rfl hdata.2
  | model m =>
      refine ⟨.model ⟨name, _, _, span⟩, by simp only [ofBlock, blockKind, hgiven]; rfl, ?_⟩
      rw [bare, Model.bare, hbareName, hfields, hattributes]
      simp [bare, Model.bare, Ident.bare, Declaration.name, parts, Part.bare, Part.field?,
        Part.attribute?, Function.comp_def]
  | enum e =>
      refine ⟨.enum ⟨name, _, _, span⟩, by simp only [ofBlock, blockKind, hgiven]; rfl, ?_⟩
      rw [bare, EnumType.bare, hbareName, hvalues, hattributes]
      simp [bare, EnumType.bare, Ident.bare, Declaration.name, parts, Part.bare, Part.value?,
        Part.attribute?, Function.comp_def]
  | composite t =>
      refine ⟨.composite ⟨name, _, span⟩, by simp only [ofBlock, blockKind, hgiven]; rfl, ?_⟩
      rw [bare, CompositeType.bare, hbareName, hfields]
      simp [bare, CompositeType.bare, Ident.bare, Declaration.name, parts, Part.bare, Part.field?,
        Function.comp_def]
  | view v =>
      refine ⟨.view ⟨name, _, _, span⟩, by simp only [ofBlock, blockKind, hgiven]; rfl, ?_⟩
      rw [bare, View.bare, hbareName, hfields, hattributes]
      simp [bare, View.bare, Ident.bare, Declaration.name, parts, Part.bare, Part.field?,
        Part.attribute?, Function.comp_def]

/-- A block of settings is read as the block that means it. -/
theorem yields_settings {kind : BlockKind} (hkind : kind = .datasource ∨ kind = .generator)
    {s : SettingsBlock} (h : s.IsWritable) (rest : List Char) :
    (block kind).Yields (s.chars kind ++ rest) fun b r =>
      (b.kind = kind ∧ ∃ read, SettingsBlock.ofBlock b = .ok read ∧ read.bare = s.bare) ∧
        r = rest :=
  (yields_block h.name (readsItems_settings hkind h) rest).mono
    fun _ _ ⟨⟨hb, hname, hmembers⟩, hr⟩ => ⟨⟨hb, isMeantBy_of_settings h hname hmembers⟩, hr⟩

/-- A block that describes data is read as the block that means it. -/
theorem yields_data (h : x.IsReadableBy w)
    (hdata : x.blockKind ≠ .datasource ∧ x.blockKind ≠ .generator)
    (hwritable : IsIdentifier x.name ∧ ∀ p ∈ x.parts, p.IsWritable) (rest : List Char) :
    (block x.blockKind).Yields
      (x.blockKind.chars x.name (x.parts.map (Part.charsBy w)) ++ rest)
      fun b r => x.IsMeantBy b ∧ r = rest := by
  have hreadable : ∀ p ∈ x.parts, p.IsReadableBy w :=
    fun p hp => ⟨hwritable.2 p hp, h.attributes p hp⟩
  refine (yields_block hwritable.1 (readsItems_parts fits_of_mem_parts hreadable) rest).mono ?_
  rintro b r ⟨⟨hb, hname, hmembers⟩, hr⟩
  exact ⟨isMeantBy_of_parts hb hname hmembers hdata, hr⟩

/-- A declaration is read as the block that means it. -/
theorem yields_charsBy (h : x.IsReadableBy w) (rest : List Char) :
    (block x.blockKind).Yields (x.charsBy w ++ rest) fun b r => x.IsMeantBy b ∧ r = rest := by
  have hwritable := h.writable
  cases x with
  | datasource s =>
      refine (yields_settings (.inl rfl) hwritable rest).mono ?_
      rintro ⟨kind, name, members, span⟩ r ⟨⟨rfl, read, hread, hbare⟩, hr⟩
      exact ⟨⟨.datasource read, by simp only [ofBlock, hread]; rfl,
        congrArg Declaration.datasource hbare⟩, hr⟩
  | generator s =>
      refine (yields_settings (.inr rfl) hwritable rest).mono ?_
      rintro ⟨kind, name, members, span⟩ r ⟨⟨rfl, read, hread, hbare⟩, hr⟩
      exact ⟨⟨.generator read, by simp only [ofBlock, hread]; rfl,
        congrArg Declaration.generator hbare⟩, hr⟩
  | _ => exact yields_data h (by simp [blockKind]) hwritable rest

theorem yields_anyBlock (h : x.IsReadableBy w) (rest : List Char) :
    anyBlock.Yields (x.charsBy w ++ rest) fun b r => x.IsMeantBy b ∧ r = rest := by
  obtain ⟨more, hmore⟩ := charsBy_eq w x
  have hblock := yields_charsBy h rest
  rw [hmore, List.append_assoc] at hblock ⊢
  exact hblock.anyBlock rfl

end Declaration

/-! ## Documents -/

namespace Document

variable {w : Attribute → List Char} {d : Document}

/-- A document whose attributes are written in a given way. -/
def charsBy (w : Attribute → List Char) (d : Document) : List Char :=
  d.declarations.flatMap fun x => x.charsBy w ++ ['\n']

theorem charsBy_body (d : Document) : d.charsBy Attribute.body = d.chars := by
  rw [charsBy, Declaration.charsBy_body, chars]

theorem toList_text (d : Document) : d.text.toList = d.chars :=
  String.toList_ofList

theorem yields_outline_charsBy (h : ∀ x ∈ d.declarations, x.IsReadableBy w) :
    outline.Yields (d.charsBy w) fun blocks _ =>
      List.Forall₂ Declaration.IsMeantBy d.declarations blocks := by
  refine yields_outline_of_items (fun x _ => ?_) fun x hx => Declaration.yields_anyBlock (h x hx)
  obtain ⟨more, hmore⟩ := Declaration.charsBy_eq w x
  rw [hmore]
  cases x.blockKind <;> rfl

/-- When all its attributes are read back, a document is read back. -/
theorem ofText_charsBy (h : ∀ x ∈ d.declarations, x.IsReadableBy w) :
    ∃ read, ofText (String.ofList (d.charsBy w)) = .ok read ∧ read.bare = d.bare := by
  obtain ⟨blocks, c, trail, heq, hblocks⟩ := yields_outline_charsBy h 0 {}
  obtain ⟨declarations, hdeclarations, hbare⟩ := mapM_eq_ok_of_forall₂ hblocks
  have hstart : outline (.start (String.ofList (d.charsBy w)).toList) {} =
      (some (blocks, c), trail) := by
    rw [String.toList_ofList, Cursor.start, heq]
  exact ⟨⟨declarations⟩, ofText_of_outline hstart hdeclarations, congrArg Document.mk hbare⟩

theorem yields_outline (h : ∀ x ∈ d.declarations, x.IsReadable) :
    outline.Yields d.chars fun blocks _ =>
      List.Forall₂ Declaration.IsMeantBy d.declarations blocks := by
  rw [← charsBy_body]
  exact yields_outline_charsBy fun x hx => (h x hx).isReadableBy

/-- Reading the canonical text of a document gives the document, apart from where its parts
stand. -/
theorem ofText_text (h : d.IsWritable) (htidy : d.IsTidy) :
    ∃ read, ofText d.text = .ok read ∧ read.bare = d.bare := by
  have hreadable : ∀ x ∈ d.declarations, x.IsReadable := fun x hx => ⟨h x hx, htidy x hx⟩
  have houtline := yields_outline hreadable
  obtain ⟨blocks, c, trail, heq, hblocks⟩ := houtline 0 {}
  obtain ⟨declarations, hdeclarations, hbare⟩ := mapM_eq_ok_of_forall₂ hblocks
  refine ⟨⟨declarations⟩, ?_, congrArg Document.mk hbare⟩
  have hchars : ofChars d.chars = .ok ⟨declarations⟩ := by
    rw [ofChars, Cursor.start, heq]
    simp only [ofOutline, hdeclarations]
    rfl
  unfold ofText
  rw [toList_text, hchars]

/-! ## A store -/

def writtenAttribute (name : String) (args : Arguments) : Attribute :=
  ⟨⟨name, .empty⟩, args, .empty⟩

/-- A model of items with a price. -/
def pricedItem (price : FunctionCall) (checked : CheckArgs) : Declaration :=
  .model ⟨⟨"Item", .empty⟩,
    [⟨⟨"price", .empty⟩, ⟨"Int", false, true⟩, [writtenAttribute "default" (.call price)], .empty⟩],
    [writtenAttribute "check" (.check checked)], .empty⟩

/-- A data source with values of all kinds. -/
def storeSource : Declaration :=
  .datasource ⟨⟨"db", .empty⟩, [("url", .call "env" [.string "a\"b"]),
    ("tags", .array [.number "-1.5", .boolean true, .ident "main"])], .empty⟩

def store : Document :=
  ⟨[storeSource, pricedItem ⟨.dbgenerated, ["\"1, 2\""]⟩ ⟨"price > 0", some "positive"⟩]⟩

theorem isWritable_storeSource : storeSource.IsWritable where
  name := by decide
  keys := by decide
  distinct := by decide
  values := by
    have hnumber : IsNumeral "-1.5" :=
      ⟨['-'], ['1'], ['.', '5'], .inr rfl, rfl, .inr ⟨['5'], rfl, rfl⟩, rfl⟩
    have hname : IsPlainName "main" := ⟨by decide, by decide, by decide⟩
    have hurl : (SettingValue.call "env" [.string "a\"b"]).IsWritable :=
      .call (by decide) (List.forall_mem_singleton.mpr (.string _))
    have htags : (SettingValue.array [.number "-1.5", .boolean true, .ident "main"]).IsWritable :=
      .array (List.forall_mem_cons.mpr ⟨.number hnumber, List.forall_mem_cons.mpr
        ⟨.boolean true, List.forall_mem_singleton.mpr (.ident hname)⟩⟩)
    exact List.forall_mem_cons.mpr ⟨hurl, List.forall_mem_singleton.mpr htags⟩

theorem isWritable_pricedItem {price : FunctionCall} {checked : CheckArgs}
    (hprice : price.IsWritable) (hchecked : checked.IsWritable) :
    (pricedItem price checked).IsWritable := by
  have hdefault : (writtenAttribute "default" (.call price)).IsWritable :=
    ⟨isDottedName_of_isIdentifier (by decide : IsIdentifier "default"), rfl, hprice⟩
  have hcheck : (writtenAttribute "check" (.check checked)).IsWritable :=
    ⟨isDottedName_of_isIdentifier (by decide : IsIdentifier "check"), rfl, hchecked⟩
  refine ⟨(by decide : IsIdentifier "Item"),
    List.forall_mem_cons.mpr ⟨?_, List.forall_mem_singleton.mpr hcheck⟩⟩
  exact ⟨(by decide : IsIdentifier "price"), (by decide : IsIdentifier "Int"),
    List.forall_mem_singleton.mpr hdefault⟩

/-- The store is read back from its text. -/
theorem ofText_text_of_store : store.IsWritable ∧ store.IsTidy ∧
    store.text = "datasource db \x7b
  url = env(\"a\\\"b\")
  tags = [-1.5, true, main]
\x7d
model Item \x7b
  price Int? @default(dbgenerated(\"1, 2\"))
  @@check(price > 0, name: \"positive\")
\x7d
" ∧ ∃ read, ofText store.text = .ok read ∧ read.bare = store.bare := by
  have hquoted : ArgumentText.Balanced false ('"' :: (['1', ',', ' ', '2'] ++ ['"'])) :=
    .quoted (.inl rfl) rfl .nil
  have hchecked : CheckArgs.IsWritable ⟨"price > 0", some "positive"⟩ :=
    ⟨.of_bare (List.all_eq_true.mp rfl), by decide, by decide⟩
  have hprice : FunctionCall.IsWritable ⟨.dbgenerated, ["\"1, 2\""]⟩ :=
    List.forall_mem_singleton.mpr ⟨by decide, hquoted⟩
  have hwritable : store.IsWritable := List.forall_mem_cons.mpr ⟨isWritable_storeSource,
    List.forall_mem_singleton.mpr (isWritable_pricedItem hprice hchecked)⟩
  have hdefault : FunctionCall.IsTidy ⟨.dbgenerated, ["\"1, 2\""]⟩ :=
    List.forall_mem_singleton.mpr (by decide)
  have hcheck : CheckArgs.IsTidy ⟨"price > 0", some "positive"⟩ := ⟨by decide, by decide⟩
  have htidy : store.IsTidy :=
    List.forall_mem_cons.mpr ⟨List.forall_mem_nil _, List.forall_mem_singleton.mpr
      (List.forall_mem_cons.mpr ⟨List.forall_mem_singleton.mpr hdefault,
        List.forall_mem_singleton.mpr (List.forall_mem_singleton.mpr hcheck)⟩)⟩
  exact ⟨hwritable, htidy, by decide +kernel, ofText_text hwritable htidy⟩

/-- A document that can be written but is not what its text is read as. -/
def IsLost (d : Document) : Prop :=
  d.IsWritable ∧ ¬∃ read, ofText d.text = .ok read ∧ read.bare = d.bare

/-- Whether a document is read back with the same models, apart from where they stand. -/
def keepsModels (d : Document) : Bool :=
  match ofChars d.chars with
  | .ok read => read.bare.models == d.bare.models
  | .error _ => false

theorem isLost_of_keepsModels (h : d.IsWritable) (hmodels : d.keepsModels = false) : d.IsLost := by
  refine ⟨h, fun ⟨read, hread, hbare⟩ => Bool.eq_false_iff.mp hmodels ?_⟩
  unfold ofText at hread
  rw [toList_text] at hread
  unfold keepsModels
  cases hchars : ofChars d.chars with
  | ok document =>
      rw [hchars] at hread
      obtain rfl : document = read := Except.ok.inj hread
      exact beq_iff_eq.mpr (congrArg models hbare)
  | error fault =>
      rw [hchars] at hread
      cases hread

/-- Blanks around the argument of a call are lost, a check constraint without an expression is read
as one without arguments, and the name of a constraint may be taken for the end of a string that its
expression begins. -/
theorem isLost_of_untidy :
    IsLost ⟨[pricedItem ⟨.dbgenerated, [" 1 "]⟩ ⟨"price > 0", none⟩]⟩ ∧
      IsLost ⟨[pricedItem ⟨.dbgenerated, ["1"]⟩ ⟨"", none⟩]⟩ ∧
      IsLost ⟨[pricedItem ⟨.dbgenerated, ["1"]⟩ ⟨"price > 'name: \"'", some "positive"⟩]⟩ := by
  have hspaced : FunctionCall.IsWritable ⟨.dbgenerated, [" 1 "]⟩ :=
    List.forall_mem_singleton.mpr ⟨by decide, .char rfl (by decide) (.char rfl (by decide)
      (.char rfl (by decide) .nil))⟩
  have hone : FunctionCall.IsWritable ⟨.dbgenerated, ["1"]⟩ :=
    List.forall_mem_singleton.mpr ⟨by decide, .char rfl (by decide) .nil⟩
  have hpositive : CheckArgs.IsWritable ⟨"price > 0", none⟩ :=
    ⟨.of_bare (List.all_eq_true.mp rfl), by decide, by decide⟩
  have hempty : CheckArgs.IsWritable ⟨"", none⟩ := ⟨.nil, by decide, by decide⟩
  have hquoted : ArgumentText.Balanced true
      ("price > ".toList ++ '\'' :: ("name: \"".toList ++ ['\''])) :=
    .append (.of_bare (List.all_eq_true.mp rfl)) (.quoted (.inr rfl) (by decide) .nil)
  have hopening : CheckArgs.IsWritable ⟨"price > 'name: \"'", some "positive"⟩ :=
    ⟨hquoted, by decide, by decide⟩
  have hwritable {price : FunctionCall} {checked : CheckArgs} (hprice : price.IsWritable)
      (hchecked : checked.IsWritable) : Document.IsWritable ⟨[pricedItem price checked]⟩ :=
    List.forall_mem_singleton.mpr (isWritable_pricedItem hprice hchecked)
  exact ⟨isLost_of_keepsModels (hwritable hspaced hpositive) (by decide +kernel),
    isLost_of_keepsModels (hwritable hone hempty) (by decide +kernel),
    isLost_of_keepsModels (hwritable hone hopening) (by decide +kernel)⟩

end Document

end SchemaMigration
