import Mathlib.Data.List.Nodup
import SchemaMigration.Schema.Validation

/-! # What validity gives

A document is valid when it has no problems. Then no two models share a name and no model has two
fields of one name, so looking up a member by its name finds that member.
-/

namespace SchemaMigration

section Repetition

variable {α β : Type} [BEq β] [LawfulBEq β]

theorem repeatedAfter_eq_nil_iff (key : α → β) (seen : List β) (as : List α) :
    repeatedAfter key seen as = [] ↔ (as.map key).Nodup ∧ ∀ a ∈ as, key a ∉ seen := by
  induction as generalizing seen with
  | nil => simp [repeatedAfter]
  | cons a as ih =>
      by_cases hseen : key a ∈ seen
      · simp [repeatedAfter, hseen]
      · simp only [repeatedAfter, List.contains_iff_mem, hseen, if_false, ih, List.mem_cons,
          not_or, List.map_cons, List.nodup_cons, List.mem_map, forall_eq_or_imp]
        constructor
        · rintro ⟨hnodup, hnew⟩
          refine ⟨⟨?_, hnodup⟩, not_false, fun b hb => (hnew b hb).2⟩
          rintro ⟨b, hb, heq⟩
          exact (hnew b hb).1 heq
        · rintro ⟨⟨hhead, hnodup⟩, _, hrest⟩
          exact ⟨hnodup, fun b hb => ⟨fun heq => hhead ⟨b, hb, heq⟩, hrest b hb⟩⟩

/-- Nothing is repeated exactly when the keys are distinct. -/
theorem repeated_eq_nil_iff (key : α → β) (as : List α) :
    repeated key as = [] ↔ (as.map key).Nodup := by
  simp [repeated, repeatedAfter_eq_nil_iff]

end Repetition

/-! ## Members by name -/

section Lookup

variable {α β : Type} {key : α → β}

theorem eq_of_nodup_map {as : List α} (hnodup : (as.map key).Nodup) {a b : α} (ha : a ∈ as)
    (hb : b ∈ as) (heq : key a = key b) : a = b :=
  List.inj_on_of_nodup_map hnodup ha hb heq

/-- Among members with distinct keys, a search by key finds the member that has it. -/
theorem find?_eq_some_of_nodup [BEq β] [LawfulBEq β] {as : List α} (hnodup : (as.map key).Nodup)
    {a : α} (ha : a ∈ as) : (as.find? fun b => key b == key a) = some a := by
  cases hfind : as.find? fun b => key b == key a with
  | none => simpa using List.find?_eq_none.mp hfind a ha
  | some b =>
      have hkey : key b = key a := by simpa using List.find?_some hfind
      rw [eq_of_nodup_map hnodup (List.mem_of_find?_eq_some hfind) ha hkey]

end Lookup

namespace Model

variable {m : Model} {f : Field} {name : String}

theorem mem_of_field?_eq_some (h : m.field? name = some f) : f ∈ m.fields :=
  List.mem_of_find?_eq_some h

theorem name_of_field?_eq_some (h : m.field? name = some f) : f.name.name = name := by
  simpa using List.find?_some h

theorem field?_eq_some_of_mem (hnodup : (m.fields.map fun f => f.name.name).Nodup)
    (hf : f ∈ m.fields) : m.field? f.name.name = some f :=
  find?_eq_some_of_nodup hnodup hf

end Model

namespace Document

variable {d : Document} {m : Model} {name : String}

theorem mem_of_model?_eq_some (h : d.model? name = some m) : m ∈ d.models :=
  List.mem_of_find?_eq_some h

theorem name_of_model?_eq_some (h : d.model? name = some m) : m.name.name = name := by
  simpa using List.find?_some h

theorem model?_eq_none_iff : d.model? name = none ↔ ∀ m ∈ d.models, m.name.name ≠ name := by
  simp [model?]

theorem isModel_iff : d.isModel name = true ↔ ∃ m ∈ d.models, m.name.name = name := by
  simp [isModel, model?]

theorem mem_declarations_of_mem_models (hm : m ∈ d.models) :
    Declaration.model m ∈ d.declarations := by
  obtain ⟨declaration, hmem, hmodel⟩ := List.mem_filterMap.mp hm
  cases declaration <;> simp_all [Declaration.model?]

/-! ## Valid documents -/

theorem errors_foldl_note (v : Validator) (declarations : List Declaration)
    (f : Declaration → List SchemaError) :
    (declarations.foldl (fun v declaration => v.note (f declaration)) v).errors =
      v.errors ++ declarations.flatMap f := by
  induction declarations generalizing v with
  | nil => simp
  | cons declaration rest ih => rw [List.foldl_cons, ih, List.flatMap_cons, ← List.append_assoc]; rfl

/-- Whatever a validator has noted before, it then has the problems of the document. -/
theorem errors_inspect (v : Validator) (d : Document) : (v.inspect d).errors = d.problems :=
  errors_foldl_note _ _ _

theorem validate_eq_ok_iff : d.validate = .ok () ↔ d.problems = [] := by
  unfold validate Validator.validate
  rw [errors_inspect]
  split <;> simp_all

/-- The declarations of a valid document have distinct keys. -/
theorem declarationKeys_nodup (h : d.validate = .ok ()) :
    (d.declarations.map Declaration.key).Nodup := by
  have hproblems := validate_eq_ok_iff.mp h
  simp only [problems, List.append_eq_nil_iff, List.map_eq_nil_iff] at hproblems
  exact (repeated_eq_nil_iff _ _).mp hproblems.1

/-- A model of a valid document has no problems. -/
theorem modelProblems_eq_nil (h : d.validate = .ok ()) (hm : m ∈ d.models) :
    m.problems d = [] := by
  have hproblems := validate_eq_ok_iff.mp h
  simp only [problems, List.append_eq_nil_iff, List.flatMap_eq_nil_iff] at hproblems
  exact hproblems.2 _ (mem_declarations_of_mem_models hm)

/-- The models of a valid document have distinct names. -/
theorem modelNames_nodup (h : d.validate = .ok ()) :
    (d.models.map fun m => m.name.name).Nodup := by
  have hkeys := declarationKeys_nodup h
  unfold models
  generalize d.declarations = declarations at hkeys
  induction declarations with
  | nil => exact List.nodup_nil
  | cons declaration rest ih =>
      obtain ⟨hhead, hrest⟩ := List.nodup_cons.mp hkeys
      cases declaration with
      | model m =>
          refine List.nodup_cons.mpr ⟨?_, ih hrest⟩
          intro hmem
          obtain ⟨n, hn, heq⟩ := List.mem_map.mp hmem
          obtain ⟨other, hother, hmodel⟩ := List.mem_filterMap.mp hn
          refine hhead (List.mem_map.mpr ⟨other, hother, ?_⟩)
          cases other <;> simp_all [Declaration.model?, Declaration.key, Declaration.name]
      | _ => exact ih hrest

/-- The fields of a model of a valid document have distinct names. -/
theorem fieldNames_nodup (h : d.validate = .ok ()) (hm : m ∈ d.models) :
    (m.fields.map fun f => f.name.name).Nodup := by
  have hproblems := modelProblems_eq_nil h hm
  simp only [Model.problems, duplicateFields, List.append_eq_nil_iff, List.map_eq_nil_iff]
    at hproblems
  exact (repeated_eq_nil_iff _ _).mp hproblems.1.1.1

theorem model?_eq_some_of_mem (h : d.validate = .ok ()) (hm : m ∈ d.models) :
    d.model? m.name.name = some m :=
  find?_eq_some_of_nodup (modelNames_nodup h) hm

/-- Models of one name in a valid document are the same model. -/
theorem model_eq_of_name_eq (h : d.validate = .ok ()) {n : Model} (hm : m ∈ d.models)
    (hn : n ∈ d.models) (heq : m.name.name = n.name.name) : m = n :=
  eq_of_nodup_map (modelNames_nodup h) hm hn heq

/-! ## Names in lists -/

theorem undeclared_eq_nil_iff {fields : List Field} {names : List String} :
    undeclared fields names = [] ↔ ∀ name ∈ names, ∃ f, findField? fields name = some f := by
  simp only [undeclared, List.filter_eq_nil_iff, Option.isNone_iff_eq_none, Option.ne_none_iff_exists']

/-- What an index, a unique constraint or the primary key of a model lists is not empty, and consists
of fields of the model. -/
theorem listedFields_of_valid (h : d.validate = .ok ()) (hm : m ∈ d.models) {label : String}
    (hlabel : label = "index" ∨ label = "unique" ∨ label = "id") {a : Attribute}
    (ha : a ∈ m.attributesNamed label) :
    Model.listedFields a ≠ [] ∧ ∀ name ∈ Model.listedFields a, ∃ f, m.field? name = some f := by
  have hproblems := modelProblems_eq_nil h hm
  simp only [Model.problems, List.append_eq_nil_iff, List.flatMap_eq_nil_iff] at hproblems
  obtain ⟨hmem, heq⟩ := List.mem_filter.mp ha
  have hlist := hproblems.2 a hmem
  rw [beq_iff_eq] at heq
  simp only [Model.listProblems, heq, hlabel, if_true, List.append_eq_nil_iff,
    List.map_eq_nil_iff] at hlist
  obtain ⟨hempty, hundeclared⟩ := hlist
  refine ⟨fun hnil => ?_, undeclared_eq_nil_iff.mp hundeclared⟩
  simp [hnil] at hempty

section Relation

variable {f : Field} {relation : RelationArgs}

/-- The relation of a field has no faults. -/
theorem relationFaults_eq_nil (h : d.validate = .ok ()) (hm : m ∈ d.models) (hf : f ∈ m.fields)
    (hrelation : f.relation? = some relation) : relation.faults m f.type.base d = [] := by
  have hproblems := modelProblems_eq_nil h hm
  simp only [Model.problems, List.append_eq_nil_iff, List.flatMap_eq_nil_iff] at hproblems
  have hfield := hproblems.1.2 f hf
  simpa only [Model.relationProblems, hrelation, List.map_eq_nil_iff] using hfield

/-- What a relation lists as local are fields of its own model. -/
theorem exists_field_of_local (h : d.validate = .ok ()) (hm : m ∈ d.models) (hf : f ∈ m.fields)
    (hrelation : f.relation? = some relation) (hname : name ∈ relation.fields) :
    ∃ g, m.field? name = some g := by
  have hfaults := relationFaults_eq_nil h hm hf hrelation
  simp only [RelationArgs.faults, List.append_eq_nil_iff, List.map_eq_nil_iff] at hfaults
  exact undeclared_eq_nil_iff.mp hfaults.1.1.1 name hname

/-- A relation leads to a model, and what it lists as referenced are fields there. -/
theorem exists_target_of_relation (h : d.validate = .ok ()) (hm : m ∈ d.models) (hf : f ∈ m.fields)
    (hrelation : f.relation? = some relation) :
    ∃ target, d.model? f.type.base = some target ∧
      ∀ name ∈ relation.references, ∃ g, target.field? name = some g := by
  have hfaults := relationFaults_eq_nil h hm hf hrelation
  simp only [RelationArgs.faults, List.append_eq_nil_iff] at hfaults
  obtain ⟨⟨_, htarget⟩, _⟩ := hfaults
  cases hmodel : d.model? f.type.base with
  | none => simp [hmodel] at htarget
  | some target =>
      simp only [hmodel, List.map_eq_nil_iff] at htarget
      exact ⟨target, rfl, undeclared_eq_nil_iff.mp htarget⟩

end Relation

end Document

end SchemaMigration
