import SchemaMigration.Proofs.Plan.Correctness
import SchemaMigration.Proofs.Schema.Bare

/-! # Rearranged documents

A document is rearranged when its declarations and the fields of its models are put in another
order, wherever they stand in the text. A valid document differs from no rearrangement of itself:
members are looked up by their names, which are distinct, and nothing that is compared depends on
ranges.
-/

namespace SchemaMigration

open Sql (Index)

/-! ## Rearrangement -/

/-- Two models say the same, but for the order of their fields. -/
structure Model.Rearranges (m n : Model) : Prop where
  name : m.name.name = n.name.name
  fields : (m.fields.map Field.bare).Perm (n.fields.map Field.bare)
  attributes : m.attributes.map Attribute.bare = n.attributes.map Attribute.bare

/-- Two declarations say the same, but for the order of the fields of a model. -/
inductive Declaration.Rearranges : Declaration → Declaration → Prop
  | model {m n : Model} (h : m.Rearranges n) : Rearranges (.model m) (.model n)
  | other {a b : Declaration} (h : a.bare = b.bare) : Rearranges a b

/-- Two documents say the same, but for the order of declarations and of the fields of models. -/
def Document.Rearranges (old new : Document) : Prop :=
  ∃ declarations, declarations.Perm new.declarations ∧
    List.Forall₂ Declaration.Rearranges old.declarations declarations

theorem Document.Rearranges.refl (d : Document) : d.Rearranges d :=
  ⟨d.declarations, .refl _, List.forall₂_same.mpr fun _ _ => .other rfl⟩

theorem forall₂_filterMap {α β γ δ : Type} {rel : α → β → Prop} {rel' : γ → δ → Prop}
    {f : α → Option γ} {g : β → Option δ} {as : List α} {bs : List β}
    (h : List.Forall₂ rel as bs) (hrel : ∀ a b, rel a b → Option.Rel rel' (f a) (g b)) :
    List.Forall₂ rel' (as.filterMap f) (bs.filterMap g) := by
  induction h with
  | nil => exact .nil
  | @cons a b as bs hab _ ih =>
      have hoption := hrel a b hab
      rw [List.filterMap_cons, List.filterMap_cons]
      cases hf : f a <;> cases hg : g b <;> rw [hf, hg] at hoption
      · exact ih
      · nomatch hoption
      · nomatch hoption
      · cases hoption with
        | some hcd => exact .cons hcd ih

theorem Declaration.Rearranges.model? {a b : Declaration} (h : a.Rearranges b) :
    Option.Rel Model.Rearranges a.model? b.model? := by
  cases h with
  | model h => exact .some h
  | other h =>
      cases a <;> cases b <;> simp only [bare, Declaration.model.injEq, reduceCtorEq] at h <;>
        try exact .none
      case model.model m n =>
        simp only [Model.bare, Model.mk.injEq, Ident.bare, Ident.mk.injEq, and_true] at h
        exact .some ⟨h.1, .of_eq h.2.1, h.2.2⟩

/-- A rearrangement has the same models, rearranged and in some order. -/
theorem Document.Rearranges.models {old new : Document} (h : old.Rearranges new) :
    ∃ models, models.Perm new.models ∧ List.Forall₂ Model.Rearranges old.models models := by
  obtain ⟨declarations, hperm, hall⟩ := h
  exact ⟨_, hperm.filterMap Declaration.model?,
    forall₂_filterMap hall fun _ _ => Declaration.Rearranges.model?⟩

/-! ## What does not depend on ranges -/

theorem Number.Binary64.same_refl (x : Number.Binary64) : x.same x = true := by
  unfold same
  split
  · rfl
  · exact beq_self_eq_true x

theorem Arguments.same_refl (args : Arguments) : args.same args = true := by
  cases args with
  | literal value =>
      cases value with
      | float value => exact value.same_refl
      | _ => exact beq_self_eq_true _
  | _ => exact beq_self_eq_true _

theorem forall₂_same_of_bare {as bs : List Attribute}
    (h : as.map Attribute.bare = bs.map Attribute.bare) :
    List.Forall₂ (fun a b => a.same b = true) as bs := by
  rw [← List.forall₂_eq_eq_eq, List.forall₂_map_left_iff, List.forall₂_map_right_iff] at h
  refine h.imp fun a b hbare => ?_
  obtain ⟨hname, hargs⟩ := Attribute.bare_eq_iff.mp hbare
  exact Attribute.same_iff.mpr ⟨hname, hargs ▸ Arguments.same_refl _⟩

theorem Field.same_of_bare {f g : Field} (h : f.bare = g.bare) : f.same g = true := by
  simp only [bare, Field.mk.injEq, and_true] at h
  refine same_iff.mpr ⟨h.2.1, forall₂_same_of_bare ?_⟩
  have hkept := congrArg (List.filter fun a => a.name.name != "index") h.2.2
  simpa only [List.filter_map, Function.comp_def, Attribute.bare_name] using hkept

/-! ## Members by name -/

/-- A search by key finds the same among members with distinct keys in any order. -/
theorem find?_eq_of_perm {α β : Type} [BEq β] [LawfulBEq β] (key : α → β) {as bs : List α}
    (h : as.Perm bs) (hnodup : (bs.map key).Nodup) (k : β) :
    (as.find? fun a => key a == k) = bs.find? fun b => key b == k := by
  cases hfind : as.find? fun a => key a == k with
  | none =>
      rw [eq_comm, List.find?_eq_none]
      exact fun b hb => List.find?_eq_none.mp hfind b (h.mem_iff.mpr hb)
  | some a =>
      obtain rfl : key a = k := by simpa using List.find?_some hfind
      exact (find?_eq_some_of_nodup hnodup (h.mem_iff.mp (List.mem_of_find?_eq_some hfind))).symm

namespace Model.Rearranges

variable {m n : Model}

theorem tableName_eq (h : m.Rearranges n) : m.tableName = n.tableName := by
  have hmapped := congrArg Attribute.mapped? h.attributes
  rw [Attribute.mapped?_bare, Attribute.mapped?_bare] at hmapped
  rw [tableName, tableName, mapped?, mapped?, hmapped, h.name]

theorem attributesNamed_eq (h : m.Rearranges n) (label : String) :
    (m.attributesNamed label).map Attribute.bare =
      (n.attributesNamed label).map Attribute.bare := by
  rw [attributesNamed, attributesNamed, ← Attribute.named_bare, ← Attribute.named_bare,
    h.attributes]

theorem field?_bare (h : m.Rearranges n) (hnodup : (n.fields.map fun f => f.name.name).Nodup)
    (name : String) : (m.field? name).map Field.bare = (n.field? name).map Field.bare := by
  have hfind := find?_eq_of_perm (fun f : Field => f.name.name) h.fields
    (by simpa only [List.map_map, Function.comp_def, Field.bare_name] using hnodup) name
  rwa [List.find?_map, List.find?_map] at hfind

/-- The field that a field comes from. -/
theorem exists_field? (h : m.Rearranges n) (hnodup : (n.fields.map fun f => f.name.name).Nodup)
    {g : Field} (hg : g ∈ n.fields) : ∃ f, m.field? g.name.name = some f ∧ f.bare = g.bare := by
  have hbare := h.field?_bare hnodup g.name.name
  rw [field?_eq_some_of_mem hnodup hg] at hbare
  exact Option.map_eq_some_iff.mp hbare

theorem columnNameOf_eq (h : m.Rearranges n) (hnodup : (n.fields.map fun f => f.name.name).Nodup)
    (name : String) : m.columnNameOf name = n.columnNameOf name := by
  have hbare := h.field?_bare hnodup name
  unfold columnNameOf
  cases hn : n.field? name with
  | none =>
      rw [hn, Option.map_none, Option.map_eq_none_iff] at hbare
      rw [hbare]
  | some g =>
      rw [hn, Option.map_some, Option.map_eq_some_iff] at hbare
      obtain ⟨f, hf, hfg⟩ := hbare
      have hname := congrArg Field.columnName hfg
      rw [Field.bare_columnName, Field.bare_columnName] at hname
      rw [hf]
      exact hname

end Model.Rearranges

/-! ## What a rearrangement keeps -/

theorem Document.Rearranges.modelNames_perm {old new : Document} (h : old.Rearranges new) :
    (old.models.map fun m => m.name.name).Perm (new.models.map fun m => m.name.name) := by
  obtain ⟨models, hperm, hall⟩ := h.models
  have hnames : old.models.map (fun m => m.name.name) = models.map fun m => m.name.name := by
    rw [← List.forall₂_eq_eq_eq, List.forall₂_map_left_iff, List.forall₂_map_right_iff]
    exact hall.imp fun _ _ h => h.name
  rw [hnames]
  exact hperm.map _

theorem Document.Rearranges.isColumn_eq {old new : Document} (h : old.Rearranges new) :
    old.isColumn = new.isColumn := by
  funext f
  have hmodel : old.isModel f.type.base = new.isModel f.type.base := by
    rw [Bool.eq_iff_iff, isModel_iff, isModel_iff]
    simpa using h.modelNames_perm.mem_iff
  simp only [isColumn, hmodel]

/-- The indexes of single fields, by what the fields say. -/
theorem Document.fieldIndexes_eq (d : Document) (m : Model) :
    ((d.columnFields m).filter fun f => f.has "index").map
        (fun f => m.index (f.attributeName? "index") [f.columnName]) =
      (((m.fields.map Field.bare).filter d.isColumn).filter fun f => f.has "index").map
        fun f => m.index (f.attributeName? "index") [f.columnName] := by
  simp only [columnFields, List.filter_map, List.map_map, Function.comp_def, isColumn_bare,
    Field.bare_has, Field.bare_attributeName?, Field.bare_columnName]

/-- A rearranged model has the same indexes, in some order. -/
theorem Model.Rearranges.indexes_perm {old new : Document} {m n : Model} (h : m.Rearranges n)
    (hcolumn : old.isColumn = new.isColumn)
    (hnodup : (n.fields.map fun f => f.name.name).Nodup) :
    (old.indexes m).Perm (new.indexes n) := by
  have hindex : m.index = n.index := by
    funext name columns
    simp only [index, h.tableName_eq]
  have hname : m.columnNameOf = n.columnNameOf := funext (h.columnNameOf_eq hnodup)
  have hlisted (k : Model) (label : String) (g : Attribute → Option Index)
      (hg : ∀ a, g a.bare = g a) :
      ((k.attributesNamed label).map Attribute.bare).filterMap g =
        (k.attributesNamed label).filterMap g := by
    rw [List.filterMap_map]
    exact List.filterMap_congr fun a _ => hg a
  unfold Document.indexes
  rw [Document.fieldIndexes_eq, Document.fieldIndexes_eq, hcolumn, hindex, hname]
  refine List.Perm.append (((h.fields.filter _).filter _).map _) (.of_eq ?_)
  rw [← hlisted m, ← hlisted n, h.attributesNamed_eq] <;> exact fun _ => rfl

/-! ## No changes -/

/-- The same indexes in another order differ in nothing, when their names are distinct. -/
theorem indexDifference_eq_nil {old new : List Index} (h : old.Perm new)
    (hnodup : (new.map Index.name).Nodup) : indexDifference old new = [] := by
  have hold : (old.map Index.name).Nodup := (h.map Index.name).nodup_iff.mpr hnodup
  unfold indexDifference
  rw [lastByName_of_nodup hnodup, lastByName_of_nodup hold, List.append_eq_nil_iff]
  constructor
  · refine List.flatMap_eq_nil_iff.mpr fun index hindex => ?_
    have hfind : withName? Index.name old index.name = some index :=
      find?_eq_some_of_nodup hold (h.mem_iff.mpr hindex)
    simp [indexChanges, hfind]
  · refine List.map_eq_nil_iff.mpr (List.filter_eq_nil_iff.mpr fun index hindex => ?_)
    have hfind : withName? Index.name new index.name = some index :=
      find?_eq_some_of_nodup hnodup (h.mem_iff.mp hindex)
    simp [hfind]

/-- A rearranged model brings no changes but those of its indexes. -/
theorem Model.Rearranges.alteration_indexes {old new : Document} {m n : Model}
    (h : m.Rearranges n) (hcolumn : old.isColumn = new.isColumn)
    (hnodup : (n.fields.map fun f => f.name.name).Nodup) :
    alteration old new m n = .ok (indexDifference (old.indexes m) (new.indexes n)) := by
  refine alteration_eq_ok_iff.mpr ⟨?_, ?_, n.fields.map fun _ => [], ?_, ?_⟩
  · intro label _
    exact Model.sameAttributes_iff.mpr (forall₂_same_of_bare (h.attributesNamed_eq label))
  · intro f hf
    -- The field is still there, and a column if it was one.
    obtain ⟨g, hg, hbare⟩ := List.mem_map.mp (h.fields.mem_iff.mp (List.mem_map_of_mem hf))
    have hname : f.name.name = g.name.name := by
      rw [← Field.bare_name f, ← hbare, Field.bare_name]
    have hsame : new.isColumn g = new.isColumn f := by
      rw [← Document.isColumn_bare, hbare, Document.isColumn_bare]
    rw [Field.isRemoved, hname, field?_eq_some_of_mem hnodup hg]
    simp [hcolumn, hsame]
  · rw [List.forall₂_map_right_iff]
    refine List.forall₂_same.mpr fun g hg => ?_
    obtain ⟨f, hf, hbare⟩ := h.exists_field? hnodup hg
    exact Document.fieldChanges_eq_ok_iff.mpr (.inl ⟨f, hf, Field.same_of_bare hbare, rfl⟩)
  · simp

/-- A rearranged model brings no changes. -/
theorem Model.Rearranges.alteration_eq {old new : Document} {m n : Model} (h : m.Rearranges n)
    (hcolumn : old.isColumn = new.isColumn)
    (hnodup : (n.fields.map fun f => f.name.name).Nodup)
    (hindexes : ((new.indexes n).map Index.name).Nodup) : alteration old new m n = .ok [] := by
  rw [h.alteration_indexes hcolumn hnodup,
    indexDifference_eq_nil (h.indexes_perm hcolumn hnodup) hindexes]

/-- The model that a model of a rearrangement comes from. -/
theorem Document.Rearranges.exists_model? {old new : Document} (h : old.Rearranges new)
    (hnodup : (new.models.map fun m => m.name.name).Nodup) {n : Model} (hn : n ∈ new.models) :
    ∃ m, old.model? n.name.name = some m ∧ m.Rearranges n := by
  obtain ⟨models, hperm, hall⟩ := h.models
  obtain ⟨m, hm, hmn⟩ := exists_of_mem_right hall (hperm.mem_iff.mpr hn)
  have hold := h.modelNames_perm.nodup_iff.mpr hnodup
  refine ⟨m, ?_, hmn⟩
  rw [← hmn.name]
  exact find?_eq_some_of_nodup hold hm

/-- No changes lead from a rearrangement of a valid document to the document, when each of its
models has indexes of distinct names. In particular none lead from the document to itself. -/
theorem Document.difference_of_rearranges {new : Document} (hvalid : new.validate = .ok ())
    (hindexes : ∀ n ∈ new.models, ((new.indexes n).map Index.name).Nodup) :
    (∀ old : Document, old.Rearranges new → old.difference new = .ok []) ∧
      new.difference new = .ok [] := by
  have hnames := modelNames_nodup hvalid
  have hall (old : Document) (h : old.Rearranges new) : old.difference new = .ok [] := by
    have hold := h.modelNames_perm.nodup_iff.mpr hnames
    refine difference_eq_ok_iff.mpr ⟨hvalid, new.models.map fun _ => [], ?_, ?_⟩
    · rw [List.forall₂_map_right_iff]
      refine List.forall₂_same.mpr fun n hn => ?_
      obtain ⟨m, hm, hmn⟩ := h.exists_model? hnames hn
      rw [lastByName_of_nodup hold, modelChanges]
      rw [show withName? _ old.models n.name.name = some m from hm]
      exact hmn.alteration_eq h.isColumn_eq (fieldNames_nodup hvalid hn) (hindexes n hn)
    · -- Every model of the rearrangement is still there.
      have hkept : (lastByName (·.name.name) old.models).filter
          (fun m => !new.isModel m.name.name) = [] := by
        refine List.filter_eq_nil_iff.mpr fun m hm => ?_
        rw [lastByName_of_nodup hold] at hm
        have hmem := h.modelNames_perm.mem_iff.mp (List.mem_map_of_mem hm)
        simp [isModel_iff, List.mem_map.mp hmem]
      rw [hkept]
      simp
  exact ⟨hall, hall new (.refl new)⟩

/-! ## Rearranged users -/

def userFields : List Field :=
  [Document.bareField "id" "Int" [Document.bareAttribute "id" .none],
    Document.bareField "mail" "String" [Document.bareAttribute "index" .none]]

/-- A model of users that stands somewhere in a text. -/
def userModel (fields : List Field) (span : Span) : Declaration :=
  .model ⟨⟨"User", span⟩, fields, [Document.bareAttribute "map" (.literal (.string "user"))], span⟩

/-- Users before posts, with their fields the other way round and at other places, are the same as
posts before users. -/
theorem Document.difference_of_rearranged_users :
    (⟨[postModel, userModel userFields ⟨40, 90⟩]⟩ : Document).validate = .ok () ∧
      (⟨[userModel userFields.reverse ⟨7, 50⟩, postModel]⟩ : Document).difference
        ⟨[postModel, userModel userFields ⟨40, 90⟩]⟩ = .ok [] := by
  have hvalid : (⟨[postModel, userModel userFields ⟨40, 90⟩]⟩ : Document).validate = .ok () := rfl
  have hindexes : ∀ n ∈ (⟨[postModel, userModel userFields ⟨40, 90⟩]⟩ : Document).models,
      (((⟨[postModel, userModel userFields ⟨40, 90⟩]⟩ : Document).indexes n).map
        Index.name).Nodup := by
    decide
  have hrearranges : (⟨[userModel userFields.reverse ⟨7, 50⟩, postModel]⟩ : Document).Rearranges
      ⟨[postModel, userModel userFields ⟨40, 90⟩]⟩ :=
    ⟨[userModel userFields ⟨40, 90⟩, postModel], .swap _ _ _,
      .cons (.model ⟨rfl, (List.reverse_perm userFields).map _, rfl⟩)
        (.cons (.other rfl) .nil)⟩
  exact ⟨hvalid, (difference_of_rearranges hvalid hindexes).1 _ hrearranges⟩

end SchemaMigration
