import SchemaMigration.Layout.Table
import SchemaMigration.Plan.Change
import SchemaMigration.Schema.Validation

/-! # The difference of two documents

The changes that lead from the tables of one document to those of another. Models are matched by
name. New models are created and missing ones dropped; to a model in both, fields and indexes may be
added and indexes dropped. Every other difference is refused: an existing column stays as it is, and
so do the constraints of a table.
-/

namespace SchemaMigration

open Sql (Column Index Table)

/-! ## Lists by name -/

/-- The members of a list that stand for the others of the same name: the last of each name, at the
place of the first. -/
def lastByName {α : Type} (name : α → String) (as : List α) : List α :=
  as.foldl (fun known a =>
    if known.any fun b => name b == name a then
      known.map fun b => if name b == name a then a else b
    else known ++ [a]) []

def withName? {α : Type} (name : α → String) (as : List α) (n : String) : Option α :=
  as.find? fun a => name a == n

/-! ## What must not change -/

/-- Equality of lists by an equality of members. -/
def sameLists {α : Type} (same : α → α → Bool) : List α → List α → Bool
  | [], [] => true
  | a :: as, b :: bs => same a b && sameLists same as bs
  | _, _ => false

/-- Whether two attributes have the same name and arguments, wherever they stand. -/
def Attribute.same (a b : Attribute) : Bool :=
  a.name.name == b.name.name && a.args.same b.args

/-- Whether two fields have the same type and, indexes aside, the same attributes in the same
order. -/
def Field.same (f g : Field) : Bool :=
  let kept := fun (field : Field) => field.attributes.filter fun a => a.name.name != "index"
  f.type == g.type && sameLists Attribute.same (kept f) (kept g)

/-- Whether two models have the same attributes of a name, in the same order. -/
def Model.sameAttributes (m n : Model) (name : String) : Bool :=
  sameLists Attribute.same (m.attributesNamed name) (n.attributesNamed name)

/-- The attributes of a model that shape its table. -/
def tableAttributes : List String :=
  ["map", "id", "unique", "check"]

/-- The first attribute in which the tables of two models differ. -/
def Model.changedAttribute? (old new : Model) : Option String :=
  tableAttributes.find? fun name => !old.sameAttributes new name

/-- Whether a field of a table is gone: a column or a foreign key without its field, or a column
whose field has become none. -/
def Field.isRemoved (f : Field) (oldDocument newDocument : Document) (new : Model) : Bool :=
  match new.field? f.name.name with
  | none => oldDocument.isColumn f || f.hasForeignKey
  | some kept => oldDocument.isColumn f && !newDocument.isColumn kept

/-! ## Changes -/

/-- The changes that create the table of a model and its indexes. -/
def Document.creation (d : Document) (m : Model) : Except SchemaError (List Change) := do
  return .createTable m.name.name (← d.table m) :: (d.indexes m).map .createIndex

/-- The changes that a field of a model brings, given the model as it was. A new column is added,
and its unique constraint becomes an index. A new foreign key is not added to an existing table. -/
def Document.fieldChanges (d : Document) (old new : Model) (f : Field) :
    Except SchemaError (List Change) :=
  match old.field? f.name.name with
  | some previous =>
    if previous.same f then .ok []
    else .error (.unsupportedChange new.name.name f.name.name .alteredField)
  | none =>
    if f.hasForeignKey || !d.isColumn f then .ok []
    else do
      let column ← d.addedColumn new f
      return .addColumn new.tableName column :: ((new.uniqueIndex? f).map .createIndex).toList

/-- The changes that one index of a table brings, given the indexes as they were. -/
def indexChanges (old : List Index) (index : Index) : List Change :=
  match withName? Index.name old index.name with
  | none => [.createIndex index]
  | some previous =>
    if previous.columns ≠ index.columns then [.dropIndex previous, .createIndex index] else []

/-- The changes that lead from some indexes to others. Of several indexes of one name the last
counts. -/
def indexDifference (old new : List Index) : List Change :=
  let old := lastByName Index.name old
  let new := lastByName Index.name new
  new.flatMap (indexChanges old)
    ++ (old.filter fun i => (withName? Index.name new i.name).isNone).map .dropIndex

/-- The changes that lead from one state of a model to another. -/
def alteration (oldDocument newDocument : Document) (old new : Model) :
    Except SchemaError (List Change) := do
  if let some label := old.changedAttribute? new then
    throw (.unsupportedChange new.name.name ("@@" ++ label) .tableConstraint)
  if let some f := old.fields.find? fun f => f.isRemoved oldDocument newDocument new then
    throw (.unsupportedChange new.name.name f.name.name .removedColumn)
  let fields ← new.fields.mapM (newDocument.fieldChanges old new)
  return fields.flatten ++ indexDifference (oldDocument.indexes old) (newDocument.indexes new)

/-- The changes that a model brings, given the models as they were. -/
def Document.modelChanges (oldDocument newDocument : Document) (oldModels : List Model)
    (m : Model) : Except SchemaError (List Change) :=
  match withName? (·.name.name) oldModels m.name.name with
  | none => newDocument.creation m
  | some previous => alteration oldDocument newDocument previous m

/-- The changes that lead from one document to another, which must be valid. Models of the new
document come first, in its order, and then those that are dropped, in the order of the old one. -/
def Document.difference (old new : Document) : Except SchemaError (List Change) := do
  new.validate
  let oldModels := lastByName (·.name.name) old.models
  let changes ← new.models.mapM (old.modelChanges new oldModels)
  let dropped := oldModels.filter fun m => !new.isModel m.name.name
  return changes.flatten ++ dropped.map fun m => .dropTable m.name.name m.tableName

end SchemaMigration
