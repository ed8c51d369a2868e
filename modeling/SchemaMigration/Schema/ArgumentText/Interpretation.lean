import SchemaMigration.Schema.ArgumentText.Labelled
import SchemaMigration.Schema.Error

/-! # The meaning of arguments

The name of an attribute decides how the raw text of its arguments is read: as a relation, as a list
of fields, as a check constraint, as a default value, and under every other name as a literal. Text
that is no literal is kept as it is.
-/

namespace SchemaMigration.ArgumentText

open Text (isBlank isSpace isWord strip stripBy word)

def fieldNames (list : List Char) : Except ArgumentFault (List String) :=
  (pieces list).mapM fun item =>
    if isWord item then .ok (String.ofList item) else .error (.notFieldName (String.ofList item))

/-- The names of fields in a list that may be absent. -/
def fieldNames? (list : Option (List Char)) : Except ArgumentFault (List String) :=
  match list with
  | some list => fieldNames list
  | none => .ok []

/-- The name in an argument that was extracted. -/
def unescaped (inner : List Char) : String :=
  String.ofList (Grammar.unescape inner)

/-- The name that is given by what is left when the labelled arguments are taken out. One string may
be left, when the name was not given by its label; anything else is a fault. -/
def leftoverName (fault : String → ArgumentFault) :
    Option String → List (List Char) → Except ArgumentFault (Option String)
  | name, [] => .ok name
  | name, piece :: rest =>
    match name, literal? piece with
    | none, some (.string given) => leftoverName fault (some given) rest
    | _, _ => .error (fault (String.ofList piece))

def relation (cs : List Char) : Except ArgumentFault RelationArgs := do
  let (name, cs) := extractOptional nameForm cs
  let (fields, cs) := extractOptional (listForm "fields") cs
  let fields ← fieldNames? fields
  let (references, cs) := extractOptional (listForm "references") cs
  let references ← fieldNames? references
  let (onDelete, cs) := extractOptional (actionForm "onDelete") cs
  let (onUpdate, cs) := extractOptional (actionForm "onUpdate") cs
  let name ← leftoverName .unexpectedInRelation (name.map unescaped) (pieces cs)
  return ⟨fields, references, name, onDelete.map String.ofList, onUpdate.map String.ofList⟩

/-- The arguments of an index, a unique constraint or a primary key. -/
def fieldList (cs : List Char) : Except ArgumentFault FieldListArgs := do
  let (name, cs) := extractOptional nameForm cs
  let (fields, cs) := extractOptional fieldsForm cs
  let fields ← fieldNames? fields
  let name ← leftoverName .unexpectedInFieldList (name.map unescaped) (pieces cs)
  return ⟨fields, name⟩

/-- The arguments of a check constraint. What is left when the name is taken out is the expression,
without blanks and commas at its ends. -/
def check (cs : List Char) : Except ArgumentFault CheckArgs :=
  let (name, cs) := extractOptional nameForm cs
  let expression := stripBy (fun c => isBlank c || c == ',') cs
  if expression.isEmpty then .error .missingCheckExpression
  else .ok ⟨String.ofList expression, name.map unescaped⟩

/-- The name of a function and the text between its parentheses, when a whole text is a call. -/
def call? (cs : List Char) : Option (String × List Char) :=
  (word cs).bind fun (name, rest) =>
    match rest.dropWhile isSpace with
    | '(' :: inner =>
      if inner.getLast? = some ')' then some (String.ofList name, inner.dropLast) else none
    | _ => none

/-- A literal, or the text itself when it is none. -/
def literalOrRaw (cs : List Char) : Arguments :=
  match literal? cs with
  | some value => .literal value
  | none => .raw (String.ofList cs)

/-- The argument of a default value: a call of a known function, a literal, or raw text. -/
def defaultValue (cs : List Char) : Except ArgumentFault Arguments :=
  match call? cs with
  | some (name, inner) =>
    match DefaultFunction.ofName? name with
    | some function => .ok (.call ⟨function, (pieces inner).map String.ofList⟩)
    | none => .error (.unknownFunction name)
  | none => .ok (literalOrRaw cs)

/-- The arguments that raw text stands for under the name of an attribute. Blank text stands for
none. -/
def interpret (name raw : String) : Except ArgumentFault Arguments :=
  let cs := strip raw.toList
  if cs.isEmpty then .ok .none
  else if name = "relation" then (relation cs).map .relation
  else if name = "index" ∨ name = "unique" ∨ name = "id" then (fieldList cs).map .fieldList
  else if name = "check" then (check cs).map .check
  else if name = "default" then defaultValue cs
  else .ok (literalOrRaw cs)

end SchemaMigration.ArgumentText
