import SchemaMigration.Proofs.Schema.Validity

/-! # Well-formed documents

What makes a document meaningful, said of its declarations and without the checks that find the
problems. Validation succeeds on the well-formed documents and on no others; on the others it reports
the one problem there is, or several together with their number.
-/

namespace SchemaMigration

/-! ## What is asked of a document -/

/-- The name by which fields refer to a declaration. Blocks of settings have none. -/
def Declaration.typeName? : Declaration → Option String
  | .datasource _ | .generator _ => none
  | declaration => some declaration.name

/-- A name that one of the fields has. -/
def Declares (fields : List Field) (name : String) : Prop :=
  name ∈ fields.map fun f => f.name.name

/-- A relation from a field of a model, whose type has the name `target`. -/
structure RelationArgs.IsSound (r : RelationArgs) (owner : Model) (target : String)
    (d : Document) : Prop where
  fields : ∀ name ∈ r.fields, Declares owner.fields name
  even : r.fields.length = r.references.length
  target : ∃ m ∈ d.models, m.name.name = target ∧ ∀ name ∈ r.references, Declares m.fields name
  actions : ∀ keyword, r.onDelete = some keyword ∨ r.onUpdate = some keyword →
    ∃ action : ReferentialAction, action.keyword = keyword

/-- An attribute that lists at least one field of a model, and nothing else. -/
def Attribute.ListsFields (a : Attribute) (m : Model) : Prop :=
  ∃ list, a.fieldList? = some list ∧ list.fields ≠ [] ∧ ∀ name ∈ list.fields, Declares m.fields name

/-- A field stands for one relation, the one that its first `relation` attribute gives. -/
structure Model.IsWellFormed (m : Model) (d : Document) : Prop where
  fieldNames : (m.fields.map fun f => f.name.name).Nodup
  oneId : m.fields.countP Field.isId ≤ 1
  oneKey : ¬((∃ f ∈ m.fields, f.isId = true) ∧ ∃ a ∈ m.attributes, a.name.name = "id")
  relations : ∀ f ∈ m.fields, ∀ r, f.relation? = some r → r.IsSound m f.type.base d
  lists : ∀ a ∈ m.attributes,
    a.name.name = "index" ∨ a.name.name = "unique" ∨ a.name.name = "id" → a.ListsFields m

structure Document.IsWellFormed (d : Document) : Prop where
  typeNames : (d.declarations.filterMap Declaration.typeName?).Nodup
  datasourceNames :
    ((d.declarations.filterMap Declaration.datasource?).map fun b => b.name.name).Nodup
  generatorNames : (d.generators.map fun b => b.name.name).Nodup
  models : ∀ m ∈ d.models, m.IsWellFormed d
  enums : ∀ e ∈ d.enums, (e.values.map fun v => v.name.name).Nodup
  composites : ∀ t ∈ d.composites, (t.fields.map fun f => f.name.name).Nodup
  views : ∀ v ∈ d.views, (v.fields.map fun f => f.name.name).Nodup

/-- Whether an error reports problems together. -/
def SchemaError.isSeveral : SchemaError → Bool
  | .several .. => true
  | _ => false

/-! ## Names of declarations -/

section Names

variable {declarations : List Declaration} {name : String}

theorem typeKey_mem_iff : (none, name) ∈ declarations.map Declaration.key ↔
    name ∈ declarations.filterMap Declaration.typeName? := by
  simp only [List.mem_map, List.mem_filterMap]
  refine exists_congr fun declaration => and_congr_right fun _ => ?_
  cases declaration <;> simp [Declaration.key, Declaration.typeName?]

theorem datasource?_iff (declaration : Declaration) : declaration.key = (some "datasource", name) ↔
    ∃ b, declaration.datasource? = some b ∧ b.name.name = name := by
  cases declaration <;>
    simp [Declaration.key, Declaration.kind, Declaration.name, Declaration.datasource?]

theorem generator?_iff (declaration : Declaration) : declaration.key = (some "generator", name) ↔
    ∃ b, declaration.generator? = some b ∧ b.name.name = name := by
  cases declaration <;>
    simp [Declaration.key, Declaration.kind, Declaration.name, Declaration.generator?]

/-- A block of settings has the key of its kind. -/
theorem settingsKey_mem_iff {kind : String} {select : Declaration → Option SettingsBlock}
    (hselect : ∀ declaration : Declaration, declaration.key = (some kind, name) ↔
      ∃ b, select declaration = some b ∧ b.name.name = name) :
    (some kind, name) ∈ declarations.map Declaration.key ↔
      name ∈ (declarations.filterMap select).map fun b => b.name.name := by
  simp only [List.mem_map, List.mem_filterMap, hselect]
  constructor
  · rintro ⟨declaration, hmem, b, hblock, rfl⟩
    exact ⟨b, ⟨declaration, hmem, hblock⟩, rfl⟩
  · rintro ⟨b, ⟨declaration, hmem, hblock⟩, rfl⟩
    exact ⟨declaration, hmem, b, hblock, rfl⟩

/-- Declarations have distinct keys when their names are distinct within each of three kinds. -/
theorem keys_nodup_iff : (declarations.map Declaration.key).Nodup ↔
    (declarations.filterMap Declaration.typeName?).Nodup ∧
    ((declarations.filterMap Declaration.datasource?).map fun b => b.name.name).Nodup ∧
    ((declarations.filterMap Declaration.generator?).map fun b => b.name.name).Nodup := by
  induction declarations with
  | nil => simp
  | cons declaration rest ih =>
      rw [List.map_cons, List.nodup_cons, ih]
      cases declaration with
      | datasource b =>
          have hkey : (Declaration.datasource b).key = (some "datasource", b.name.name) := rfl
          simp only [hkey, settingsKey_mem_iff datasource?_iff, Declaration.typeName?, Declaration.datasource?,
            Declaration.generator?, List.filterMap_cons, List.map_cons, List.nodup_cons]
          tauto
      | generator b =>
          have hkey : (Declaration.generator b).key = (some "generator", b.name.name) := rfl
          simp only [hkey, settingsKey_mem_iff generator?_iff, Declaration.typeName?, Declaration.datasource?,
            Declaration.generator?, List.filterMap_cons, List.map_cons, List.nodup_cons]
          tauto
      | _ =>
          simp only [Declaration.key, typeKey_mem_iff, Declaration.typeName?,
            Declaration.datasource?, Declaration.generator?, List.filterMap_cons, List.nodup_cons]
          tauto

end Names

/-! ## Problems -/

section Problems

variable {d : Document} {m : Model} {fields : List Field}

theorem undeclared_eq_nil_iff_declares {names : List String} :
    undeclared fields names = [] ↔ ∀ name ∈ names, Declares fields name := by
  rw [Document.undeclared_eq_nil_iff]
  refine forall₂_congr fun name _ => ?_
  rw [← Option.isSome_iff_exists, findField?, List.find?_isSome, Declares, List.mem_map]
  simp

theorem duplicateFields_eq_nil_iff (owner : String) :
    duplicateFields owner fields = [] ↔ (fields.map fun f => f.name.name).Nodup := by
  rw [duplicateFields, List.map_eq_nil_iff, repeated_eq_nil_iff]

theorem ofKeyword?_eq_none_iff {keyword : String} : ReferentialAction.ofKeyword? keyword = none ↔
    ¬∃ action : ReferentialAction, action.keyword = keyword := by
  have hall (action : ReferentialAction) : action ∈ ReferentialAction.all := by
    cases action <;> decide
  rw [ReferentialAction.ofKeyword?, List.find?_eq_none]
  simp [hall]

/-- The target of a relation is a model that declares the fields it references exactly when nothing
is wrong with it, if no two models share a name. -/
theorem targetFaults_eq_nil_iff (hnames : (d.models.map fun m => m.name.name).Nodup)
    {names : List String} {target : String} :
    (match d.model? target with
      | some model => (undeclared model.fields names).map
          (RelationFault.noReferencedField · target)
      | none => [.notAModel target]) = [] ↔
      ∃ m ∈ d.models, m.name.name = target ∧ ∀ name ∈ names, Declares m.fields name := by
  cases hmodel : d.model? target with
  | none =>
      simp only [List.cons_ne_nil, false_iff]
      rintro ⟨m, hm, hname, _⟩
      exact Document.model?_eq_none_iff.mp hmodel m hm hname
  | some model =>
      have hmem := Document.mem_of_model?_eq_some hmodel
      have hname := Document.name_of_model?_eq_some hmodel
      simp only [List.map_eq_nil_iff, undeclared_eq_nil_iff_declares]
      constructor
      · exact fun h => ⟨model, hmem, hname, h⟩
      · rintro ⟨n, hn, hn', h⟩
        rwa [eq_of_nodup_map hnames hmem hn (hname.trans hn'.symm)]

/-- A relation has no faults exactly when it is sound, if no two models share a name. -/
theorem faults_eq_nil_iff (hnames : (d.models.map fun m => m.name.name).Nodup) {r : RelationArgs}
    {target : String} : r.faults m target d = [] ↔ r.IsSound m target d := by
  have hactions : ([r.onDelete, r.onUpdate].filterMap id).filterMap (fun keyword =>
      if (ReferentialAction.ofKeyword? keyword).isNone then some (RelationFault.unknownAction keyword)
      else none) = [] ↔
      ∀ keyword, r.onDelete = some keyword ∨ r.onUpdate = some keyword →
        ∃ action : ReferentialAction, action.keyword = keyword := by
    simp only [List.filterMap_eq_nil_iff, List.mem_filterMap, List.mem_cons, List.not_mem_nil,
      or_false, id, exists_eq_right, Option.isNone_iff_eq_none, ofKeyword?_eq_none_iff,
      ite_eq_right_iff, reduceCtorEq, imp_false, not_not, @eq_comm (Option String) (some _)]
  have hfields : (undeclared m.fields r.fields).map (RelationFault.noLocalField · m.name.name) = [] ↔
      ∀ name ∈ r.fields, Declares m.fields name := by
    rw [List.map_eq_nil_iff, undeclared_eq_nil_iff_declares]
  have heven : (if r.fields.length = r.references.length then ([] : List RelationFault)
      else [.unevenLists r.fields.length r.references.length]) = [] ↔
      r.fields.length = r.references.length := by
    simp
  rw [RelationArgs.faults, List.append_eq_nil_iff, List.append_eq_nil_iff, List.append_eq_nil_iff]
  refine (and_congr (and_congr (and_congr hfields heven) (targetFaults_eq_nil_iff hnames))
    hactions).trans ?_
  constructor
  · rintro ⟨⟨⟨hfields, heven⟩, htarget⟩, hactions⟩
    exact ⟨hfields, heven, htarget, hactions⟩
  · exact fun h => ⟨⟨⟨h.fields, h.even⟩, h.target⟩, h.actions⟩

theorem keyProblems_eq_nil_iff : m.keyProblems = [] ↔ m.fields.countP Field.isId ≤ 1 ∧
    ¬((∃ f ∈ m.fields, f.isId = true) ∧ ∃ a ∈ m.attributes, a.name.name = "id") := by
  have hmany : 1 < m.idFields.length ↔ ¬m.fields.countP Field.isId ≤ 1 := by
    rw [Model.idFields, ← List.countP_eq_length_filter, Nat.not_le]
  have hany : m.idFields.isEmpty = false ↔ ∃ f ∈ m.fields, f.isId = true := by
    simp [Model.idFields]
  have hhas : m.has "id" = true ↔ ∃ a ∈ m.attributes, a.name.name = "id" := by
    simp [Model.has, Attribute.has]
  rw [Model.keyProblems, List.append_eq_nil_iff]
  simp only [ite_eq_right_iff, List.cons_ne_nil, imp_false, hmany, not_not, Bool.and_eq_true,
    Bool.not_eq_true', hany, hhas]

theorem listsFields_iff {a : Attribute} : a.ListsFields m ↔
    (Model.listedFields a).isEmpty = false ∧
      ∀ name ∈ Model.listedFields a, Declares m.fields name := by
  rw [Attribute.ListsFields, Model.listedFields]
  cases a.fieldList? with
  | none => simp
  | some list => simp

theorem listProblems_eq_nil_iff {a : Attribute} : m.listProblems a = [] ↔
    (a.name.name = "index" ∨ a.name.name = "unique" ∨ a.name.name = "id" → a.ListsFields m) := by
  rw [Model.listProblems, listsFields_iff]
  by_cases hlabel : a.name.name = "index" ∨ a.name.name = "unique" ∨ a.name.name = "id"
  · rw [if_pos hlabel, List.append_eq_nil_iff, List.map_eq_nil_iff, undeclared_eq_nil_iff_declares]
    simp [hlabel]
  · rw [if_neg hlabel]
    simp [hlabel]

theorem modelProblems_eq_nil_iff (hnames : (d.models.map fun m => m.name.name).Nodup) :
    m.problems d = [] ↔ m.IsWellFormed d := by
  have hrelation (f : Field) : m.relationProblems d f = [] ↔
      ∀ r, f.relation? = some r → r.IsSound m f.type.base d := by
    unfold Model.relationProblems
    cases f.relation? with
    | none => simp
    | some relation => simp [faults_eq_nil_iff hnames]
  simp only [Model.problems, List.append_eq_nil_iff, List.flatMap_eq_nil_iff,
    duplicateFields_eq_nil_iff, keyProblems_eq_nil_iff, hrelation, listProblems_eq_nil_iff]
  constructor
  · rintro ⟨⟨⟨hfields, hid, hkey⟩, hrelations⟩, hlists⟩
    exact ⟨hfields, hid, hkey, hrelations, hlists⟩
  · exact fun h => ⟨⟨⟨h.fieldNames, h.oneId, h.oneKey⟩, h.relations⟩, h.lists⟩

end Problems

namespace Document

variable {d : Document}

/-- The models are among the declarations that fields refer to by name. -/
theorem modelNames_sublist (declarations : List Declaration) :
    ((declarations.filterMap Declaration.model?).map fun m => m.name.name).Sublist
      (declarations.filterMap Declaration.typeName?) := by
  induction declarations with
  | nil => exact .slnil
  | cons declaration rest ih =>
      cases declaration with
      | model m => exact ih.cons_cons _
      | datasource b => exact ih
      | generator b => exact ih
      | _ => exact ih.cons _

/-- What is selected among declarations is declared, when it is selected from one declaration only. -/
theorem mem_of_select {α : Type} {select : Declaration → Option α} (declare : α → Declaration)
    (hselect : ∀ declaration a, select declaration = some a → declaration = declare a)
    {declarations : List Declaration} {a : α} (ha : a ∈ declarations.filterMap select) :
    declare a ∈ declarations := by
  obtain ⟨declaration, hmem, heq⟩ := List.mem_filterMap.mp ha
  exact hselect declaration a heq ▸ hmem

/-- The problems within the declarations, sorted by their kinds. -/
theorem declarationProblems_eq_nil_iff :
    d.declarations.flatMap (Declaration.problems d) = [] ↔
      (∀ m ∈ d.models, m.problems d = []) ∧
      (∀ e ∈ d.enums, (e.values.map fun v => v.name.name).Nodup) ∧
      (∀ t ∈ d.composites, (t.fields.map fun f => f.name.name).Nodup) ∧
      ∀ v ∈ d.views, (v.fields.map fun f => f.name.name).Nodup := by
  have henum (e : EnumType) : e.problems = [] ↔ (e.values.map fun v => v.name.name).Nodup := by
    rw [EnumType.problems, List.map_eq_nil_iff, repeated_eq_nil_iff]
  rw [List.flatMap_eq_nil_iff]
  constructor
  · intro h
    refine ⟨fun m hm => h _ (mem_declarations_of_mem_models hm), fun e he => ?_, fun t ht => ?_,
      fun v hv => ?_⟩
    · refine (henum e).mp (h _ (mem_of_select .enum ?_ he))
      rintro (_ | _) _ ⟨⟩; rfl
    · refine (duplicateFields_eq_nil_iff _).mp (h _ (mem_of_select .composite ?_ ht))
      rintro (_ | _) _ ⟨⟩; rfl
    · refine (duplicateFields_eq_nil_iff _).mp (h _ (mem_of_select .view ?_ hv))
      rintro (_ | _) _ ⟨⟩; rfl
  · rintro ⟨hmodels, henums, hcomposites, hviews⟩ declaration hmem
    cases declaration with
    | datasource b => rfl
    | generator b => rfl
    | model m => exact hmodels m (List.mem_filterMap.mpr ⟨_, hmem, rfl⟩)
    | enum e => exact (henum e).mpr (henums e (List.mem_filterMap.mpr ⟨_, hmem, rfl⟩))
    | composite t =>
        exact (duplicateFields_eq_nil_iff _).mpr
          (hcomposites t (List.mem_filterMap.mpr ⟨_, hmem, rfl⟩))
    | view v =>
        exact (duplicateFields_eq_nil_iff _).mpr (hviews v (List.mem_filterMap.mpr ⟨_, hmem, rfl⟩))

theorem problems_eq_nil_iff : d.problems = [] ↔ d.IsWellFormed := by
  rw [problems, List.append_eq_nil_iff, List.map_eq_nil_iff, repeated_eq_nil_iff, keys_nodup_iff,
    declarationProblems_eq_nil_iff]
  have hmodels (hnames : (d.declarations.filterMap Declaration.typeName?).Nodup) (m : Model) :
      m.problems d = [] ↔ m.IsWellFormed d :=
    modelProblems_eq_nil_iff ((modelNames_sublist d.declarations).nodup hnames)
  constructor
  · rintro ⟨⟨htypes, hdatasources, hgenerators⟩, hproblems, henums, hcomposites, hviews⟩
    exact ⟨htypes, hdatasources, hgenerators, fun m hm => (hmodels htypes m).mp (hproblems m hm),
      henums, hcomposites, hviews⟩
  · intro h
    exact ⟨⟨h.typeNames, h.datasourceNames, h.generatorNames⟩,
      fun m hm => (hmodels h.typeNames m).mpr (h.models m hm), h.enums, h.composites, h.views⟩

theorem isWellFormed_of_valid (h : d.validate = .ok ()) {m : Model} (hm : m ∈ d.models) :
    m.IsWellFormed d :=
  (problems_eq_nil_iff.mp (validate_eq_ok_iff.mp h)).models m hm

/-! ## Answers -/

theorem not_isSeveral_of_mem_modelProblems {m : Model} {problem : SchemaError}
    (h : problem ∈ m.problems d) : problem.isSeveral = false := by
  simp only [Model.problems, duplicateFields, Model.keyProblems, List.mem_append, List.mem_map,
    List.mem_flatMap, List.mem_ite_nil_right, List.mem_singleton] at h
  rcases h with ((⟨f, _, rfl⟩ | ⟨_, rfl⟩ | ⟨_, rfl⟩) | ⟨f, _, hf⟩) | ⟨a, _, ha⟩
  · rfl
  · rfl
  · rfl
  · unfold Model.relationProblems at hf
    split at hf
    · obtain ⟨fault, _, rfl⟩ := List.mem_map.mp hf
      rfl
    · cases hf
  · simp only [Model.listProblems, List.mem_ite_nil_right, List.mem_append, List.mem_singleton,
      List.mem_map] at ha
    rcases ha with ⟨_, ⟨_, rfl⟩ | ⟨name, _, rfl⟩⟩ <;> rfl

/-- No problem is a report of several. -/
theorem not_isSeveral_of_mem_problems {problem : SchemaError} (h : problem ∈ d.problems) :
    problem.isSeveral = false := by
  rcases List.mem_append.mp h with h | h
  · obtain ⟨declaration, _, rfl⟩ := List.mem_map.mp h
    rfl
  · obtain ⟨declaration, _, hproblem⟩ := List.mem_flatMap.mp h
    cases declaration with
    | datasource b => cases hproblem
    | generator b => cases hproblem
    | model m => exact not_isSeveral_of_mem_modelProblems hproblem
    | enum e =>
        obtain ⟨v, _, rfl⟩ := List.mem_map.mp hproblem
        rfl
    | composite t =>
        obtain ⟨f, _, rfl⟩ := List.mem_map.mp hproblem
        rfl
    | view v =>
        obtain ⟨f, _, rfl⟩ := List.mem_map.mp hproblem
        rfl

/-- What a validator has noted before does not change its answer, nor what it keeps. -/
theorem validate_eq_of_used (v : Validator) (d : Document) :
    v.validate d = ({} : Validator).validate d := by
  simp only [Validator.validate, errors_inspect]

/-- Validation succeeds on exactly the well-formed documents. On any other it reports the one problem
it finds, or several with their number, none of them a report of several itself. A validator that was
used before, whatever it has noted, answers like a new one. -/
theorem validate_isWellFormed (d : Document) :
    (d.validate = .ok () ↔ d.IsWellFormed) ∧
    (¬d.IsWellFormed →
      (∃ problem, d.validate = .error problem ∧ d.problems = [problem] ∧
        problem.isSeveral = false) ∨
      ∃ count problems, d.validate = .error (.several count problems) ∧ d.problems = problems ∧
        count = problems.length ∧ 2 ≤ count ∧ ∀ problem ∈ problems, problem.isSeveral = false) ∧
    ∀ v : Validator, v.validate d = ({} : Validator).validate d := by
  refine ⟨validate_eq_ok_iff.trans problems_eq_nil_iff, fun hnot => ?_,
    fun v => validate_eq_of_used v d⟩
  rw [← problems_eq_nil_iff] at hnot
  have hsingle : ∀ problem ∈ d.problems, problem.isSeveral = false :=
    fun _ => not_isSeveral_of_mem_problems
  cases hproblems : d.problems with
  | nil => exact absurd hproblems hnot
  | cons problem rest =>
      rw [hproblems] at hsingle
      cases rest with
      | nil =>
          refine .inl ⟨problem, ?_, rfl, hsingle problem List.mem_cons_self⟩
          simp only [validate, Validator.validate, errors_inspect, hproblems]
      | cons other rest =>
          refine .inr ⟨_, problem :: other :: rest, ?_, rfl, rfl, by simp, hsingle⟩
          simp only [validate, Validator.validate, errors_inspect, hproblems]

end Document

end SchemaMigration
