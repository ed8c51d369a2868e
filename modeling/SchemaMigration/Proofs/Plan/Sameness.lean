import SchemaMigration.Plan.Difference
import SchemaMigration.Proofs.Fallible

/-! # Sameness of attributes

Two attributes are the same when their names and arguments are, wherever they stand. Fields and
models that are the same in this sense get the same names in the database and the same relations.
-/

namespace SchemaMigration

theorem sameLists_iff {α : Type} {same : α → α → Bool} {as bs : List α} :
    sameLists same as bs = true ↔ List.Forall₂ (fun a b => same a b = true) as bs := by
  induction as generalizing bs with
  | nil => cases bs <;> simp [sameLists]
  | cons a as ih =>
      cases bs with
      | nil => simp [sameLists]
      | cons b bs => simp [sameLists, ih]

theorem bind_eq_of_rel {α β γ : Type} {rel : α → β → Prop} {x : Option α} {y : Option β}
    {f : α → Option γ} {g : β → Option γ} (h : Option.Rel rel x y)
    (heq : ∀ a b, rel a b → f a = g b) : x.bind f = y.bind g := by
  cases h with
  | none => rfl
  | some hrel => exact heq _ _ hrel

namespace Attribute

variable {a b : Attribute} {label : String}

theorem same_iff : a.same b = true ↔ a.name.name = b.name.name ∧ a.args.same b.args = true := by
  simp [same]

/-! Apart from floating-point literals, the same arguments are equal. -/

theorem string?_eq_of_same (h : a.args.same b.args = true) : a.string? = b.string? := by
  unfold string? literal?
  revert h
  rcases a.args with _ | _ | (_ | _ | _ | _ | _) | _ | _ | _ | _ <;>
    rcases b.args with _ | _ | (_ | _ | _ | _ | _) | _ | _ | _ | _ <;>
    simp [Arguments.same, Literal.same, Literal.string?]

/-- The first attributes of a name in two lists of the same attributes are the same. -/
theorem find?_rel_of_same {as bs : List Attribute}
    (h : List.Forall₂ (fun a b => a.same b = true) as bs) (label : String) :
    Option.Rel (fun a b => a.args.same b.args = true) (find? as label) (find? bs label) := by
  induction h with
  | nil => exact .none
  | @cons a b as bs hsame _ ih =>
      obtain ⟨hname, hargs⟩ := same_iff.mp hsame
      by_cases hlabel : b.name.name = label
      · simpa [find?, hname, hlabel] using Option.Rel.some hargs
      · simpa [find?, hname, hlabel] using ih

theorem mapped?_eq_of_same {as bs : List Attribute}
    (h : List.Forall₂ (fun a b => a.same b = true) as bs) : mapped? as = mapped? bs :=
  bind_eq_of_rel (find?_rel_of_same h "map") fun _ _ => string?_eq_of_same

/-- Leaving out the attributes of one name keeps the first attribute of another. -/
theorem find?_filter_of_ne {attributes : List Attribute} {left : String} (h : label ≠ left) :
    find? (attributes.filter fun a => a.name.name != left) label = find? attributes label := by
  unfold find?
  rw [List.find?_filter]
  congr 1
  funext a
  by_cases hlabel : a.name.name = label <;> simp [hlabel, h]

end Attribute

namespace Field

variable {f g : Field} {label : String}

theorem same_iff :
    f.same g = true ↔ f.type = g.type ∧
      List.Forall₂ (fun a b => a.same b = true)
        (f.attributes.filter fun a => a.name.name != "index")
        (g.attributes.filter fun a => a.name.name != "index") := by
  simp [same, sameLists_iff]

/-- Fields that are the same have the same first attribute of every name but `index`. -/
theorem attribute?_rel_of_same (h : f.same g = true) (hlabel : label ≠ "index") :
    Option.Rel (fun a b => a.args.same b.args = true) (f.attribute? label)
      (g.attribute? label) := by
  have hrel := Attribute.find?_rel_of_same (same_iff.mp h).2 label
  rwa [Attribute.find?_filter_of_ne hlabel, Attribute.find?_filter_of_ne hlabel] at hrel

theorem mapped?_eq_of_same (h : f.same g = true) : f.mapped? = g.mapped? := by
  have hrel := Attribute.mapped?_eq_of_same (same_iff.mp h).2
  unfold Attribute.mapped? at hrel
  rwa [Attribute.find?_filter_of_ne (by decide), Attribute.find?_filter_of_ne (by decide)] at hrel

/-- Fields of one name that are the same have one column name. -/
theorem columnName_eq_of_same (h : f.same g = true) (hname : f.name.name = g.name.name) :
    f.columnName = g.columnName := by
  rw [columnName, columnName, mapped?_eq_of_same h, hname]

end Field

namespace Model

variable {m n : Model}

theorem sameAttributes_iff {name : String} :
    m.sameAttributes n name = true ↔
      List.Forall₂ (fun a b => a.same b = true) (m.attributesNamed name)
        (n.attributesNamed name) :=
  sameLists_iff

/-- Models of one name whose `map` attributes are the same have one table name. -/
theorem tableName_eq_of_same (h : m.sameAttributes n "map" = true)
    (hname : m.name.name = n.name.name) : m.tableName = n.tableName := by
  have hmapped := Attribute.mapped?_eq_of_same (sameAttributes_iff.mp h)
  have hfind (attributes : List Attribute) :
      Attribute.mapped? (Attribute.named attributes "map") = Attribute.mapped? attributes := by
    simp only [Attribute.mapped?, Attribute.named, Attribute.find?, List.find?_filter, and_self,
      Bool.decide_eq_true]
  rw [attributesNamed, attributesNamed, hfind, hfind] at hmapped
  rw [tableName, tableName, mapped?, mapped?, hmapped, hname]

end Model

end SchemaMigration
