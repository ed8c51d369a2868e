import SchemaMigration.Schema.Error

/-! # Validation

A well-formed document may still not make sense: names may be declared twice, a model may have two
primary keys, and relations, indexes and keys may name fields that are not there. Validation lists
every such problem, first the repeated declarations, then the problems within each declaration in
document order.
-/

namespace SchemaMigration

/-- The members of a list whose key is among those already seen or is that of an earlier member. -/
def repeatedAfter {α β : Type} [BEq β] (key : α → β) : List β → List α → List α
  | _, [] => []
  | seen, a :: as =>
    if seen.contains (key a) then a :: repeatedAfter key seen as
    else repeatedAfter key (key a :: seen) as

/-- The members of a list whose key is that of an earlier member. -/
def repeated {α β : Type} [BEq β] (key : α → β) (as : List α) : List α :=
  repeatedAfter key [] as

/-- What must differ between two declarations. Models, enums, composite types and views share their
names; blocks of settings share them only within their kind. -/
def Declaration.key (d : Declaration) : Option String × String :=
  match d with
  | .datasource _ | .generator _ => (some d.kind, d.name)
  | _ => (none, d.name)

/-- The problem of a declaration whose name is taken. -/
def Declaration.duplicate (d : Declaration) : SchemaError :=
  .duplicate d.kind d.name

def duplicateFields (owner : String) (fields : List Field) : List SchemaError :=
  (repeated (fun f => f.name.name) fields).map fun f =>
    .duplicate "field" s!"{owner}.{f.name.name}"

/-- The names in a list that no field has. -/
def undeclared (fields : List Field) (names : List String) : List String :=
  names.filter fun name => (findField? fields name).isNone

namespace RelationArgs

/-- The faults of a relation from a field of a model to another model. -/
def faults (r : RelationArgs) (owner : Model) (target : String) (document : Document) :
    List RelationFault :=
  (undeclared owner.fields r.fields).map (.noLocalField · owner.name.name)
    ++ (if r.fields.length = r.references.length then []
      else [.unevenLists r.fields.length r.references.length])
    ++ (match document.model? target with
      | some model => (undeclared model.fields r.references).map (.noReferencedField · target)
      | none => [.notAModel target])
    ++ ([r.onDelete, r.onUpdate].filterMap id).filterMap fun keyword =>
      if (ReferentialAction.ofKeyword? keyword).isNone then some (.unknownAction keyword) else none

end RelationArgs

namespace Model

/-- The problems with the primary key of a model: at most one field may be marked, and none beside a
key over several fields. -/
def keyProblems (m : Model) : List SchemaError :=
  (if 1 < m.idFields.length then [.invalidModel m.name.name .severalIds] else [])
    ++ if !m.idFields.isEmpty && m.has "id" then [.invalidModel m.name.name .mixedIds] else []

def relationProblems (m : Model) (document : Document) (f : Field) : List SchemaError :=
  match f.relation? with
  | some relation =>
    (relation.faults m f.type.base document).map (.invalidRelation m.name.name f.name.name ·)
  | none => []

/-- The fields that an index, a unique constraint or a primary key lists. -/
def listedFields (a : Attribute) : List String :=
  (a.fieldList?.map FieldListArgs.fields).getD []

/-- The problems with an attribute that lists fields: the list must not be empty, and every name in
it must be that of a field. -/
def listProblems (m : Model) (a : Attribute) : List SchemaError :=
  let label := a.name.name
  if label = "index" ∨ label = "unique" ∨ label = "id" then
    (if (listedFields a).isEmpty then [.invalidModel m.name.name (.emptyFieldList label)] else [])
      ++ (undeclared m.fields (listedFields a)).map fun name =>
        .invalidField m.name.name name (.undeclared label)
  else []

def problems (m : Model) (document : Document) : List SchemaError :=
  duplicateFields m.name.name m.fields
    ++ m.keyProblems
    ++ m.fields.flatMap (m.relationProblems document)
    ++ m.attributes.flatMap m.listProblems

end Model

/-- The problems within an enum: its values must have different names. -/
def EnumType.problems (e : EnumType) : List SchemaError :=
  (repeated (fun v => v.name.name) e.values).map fun v =>
    .duplicate "enum value" s!"{e.name.name}.{v.name.name}"

def Declaration.problems (document : Document) : Declaration → List SchemaError
  | .datasource _ | .generator _ => []
  | .model m => m.problems document
  | .enum e => e.problems
  | .composite t => duplicateFields t.name.name t.fields
  | .view v => duplicateFields v.name.name v.fields

def Document.problems (d : Document) : List SchemaError :=
  (repeated Declaration.key d.declarations).map Declaration.duplicate
    ++ d.declarations.flatMap (Declaration.problems d)

/-- A validator, with the problems it has noted. -/
structure Validator where
  errors : List SchemaError := []
  deriving Repr

namespace Validator

def note (v : Validator) (errors : List SchemaError) : Validator :=
  { v with errors := v.errors ++ errors }

/-- Notes the problems of a document: first the repeated declarations, then the problems within each
declaration. What an earlier run has left is cleared before. -/
def inspect (v : Validator) (d : Document) : Validator :=
  let cleared : Validator := { v with errors := [] }
  d.declarations.foldl (fun v declaration => v.note (declaration.problems d))
    (cleared.note ((repeated Declaration.key d.declarations).map Declaration.duplicate))

/-- Succeeds when a document has no problems. One problem is reported as it is, several together with
their number. What is reported is no longer kept. -/
def validate (v : Validator) (d : Document) : Except SchemaError Unit × Validator :=
  match (v.inspect d).errors with
  | [] => (.ok (), {})
  | [problem] => (.error problem, {})
  | problems => (.error (.several problems.length problems), {})

end Validator

/-- Succeeds when a document has no problems. -/
def Document.validate (d : Document) : Except SchemaError Unit :=
  (({} : Validator).validate d).1

end SchemaMigration
