import SchemaMigration.Proofs.Plan.Correctness
import SchemaMigration.Proofs.Schema.Bare

/-! # Columns that are kept

A field that both documents have and that is compared as the same gets one column in both, but for
its default value. A default that names an enum value stands for its position, and the enum is not
compared; a default that is a floating-point number is compared by its value, and the two zeros have
one value. These are the only ways in which the column of a field may change without being refused.
-/

namespace SchemaMigration

open Number (Binary64)
open Sql (Column DefaultValue)

/-! ## Attributes that are the same -/

namespace Attribute

variable {a b : Attribute}

/-- The same arguments are equal, or numbers of one value. -/
theorem args_eq_or_float_of_same {x y : Arguments} (h : x.same y = true) :
    x = y ∨ ∃ p q, x = .literal (.float p) ∧ y = .literal (.float q) := by
  cases x with
  | literal u =>
      cases y with
      | literal v =>
          cases u <;> cases v <;> simp [Arguments.same, Literal.same] at h ⊢ <;> exact h
      | _ => simp [Arguments.same] at h
  | _ => exact .inl (by simpa [Arguments.same] using h)

theorem call?_eq_of_same (h : a.args.same b.args = true) : a.call? = b.call? := by
  unfold call?
  rcases args_eq_or_float_of_same h with heq | ⟨p, q, hp, hq⟩
  · rw [heq]
  · rw [hp, hq]

theorem fieldList?_eq_of_same (h : a.args.same b.args = true) : a.fieldList? = b.fieldList? := by
  unfold fieldList?
  rcases args_eq_or_float_of_same h with heq | ⟨p, q, hp, hq⟩
  · rw [heq]
  · rw [hp, hq]

theorem has_eq_isSome (attributes : List Attribute) (label : String) :
    has attributes label = (find? attributes label).isSome := by
  rw [has, find?, List.isSome_find?]

end Attribute

namespace Field

variable {f g : Field} {label : String}

/-- Fields that are the same both lack an attribute, or have it with the same arguments. -/
theorem attribute?_cases_of_same (h : f.same g = true) (hlabel : label ≠ "index") :
    (f.attribute? label = none ∧ g.attribute? label = none) ∨
      ∃ a b, f.attribute? label = some a ∧ g.attribute? label = some b ∧
        a.args.same b.args = true := by
  have hrel := attribute?_rel_of_same h hlabel
  generalize f.attribute? label = x, g.attribute? label = y at hrel ⊢
  cases hrel with
  | none => exact .inl ⟨rfl, rfl⟩
  | some hargs => exact .inr ⟨_, _, rfl, rfl, hargs⟩

theorem has_eq_of_same (h : f.same g = true) (hlabel : label ≠ "index") :
    f.has label = g.has label := by
  rw [has, has, Attribute.has_eq_isSome, Attribute.has_eq_isSome, ← attribute?, ← attribute?]
  rcases attribute?_cases_of_same h hlabel with ⟨hf, hg⟩ | ⟨a, b, hf, hg, _⟩ <;> rw [hf, hg]
  rfl

theorem isIdentity_eq_of_same (h : f.same g = true) : f.isIdentity = g.isIdentity := by
  have hcall : f.defaultCall? = g.defaultCall? :=
    bind_eq_of_rel (attribute?_rel_of_same h (by decide)) fun _ _ => Attribute.call?_eq_of_same
  rw [isIdentity, isIdentity, hcall]

theorem attributeName?_eq_of_same (h : f.same g = true) (hlabel : label ≠ "index") :
    f.attributeName? label = g.attributeName? label :=
  bind_eq_of_rel (attribute?_rel_of_same h hlabel) fun _ _ hargs => by
    rw [Attribute.fieldList?_eq_of_same hargs]

theorem checkIdentity_eq_of_same (h : f.same g = true) : f.checkIdentity = g.checkIdentity := by
  have hid : f.isId = g.isId := has_eq_of_same h (by decide)
  rw [checkIdentity, checkIdentity, isIdentity_eq_of_same h, hid, (same_iff.mp h).1]

end Field

/-! ## Default values -/

/-- The position of a value in an enum of a document. -/
def Document.position? (d : Document) (type value : String) : Option Nat :=
  (d.enum? type).bind fun e => e.values.findIdx? fun v => v.name.name == value

/-- Whether the default of a field means in one document what it means in another: an enum value has
kept its position, and a floating-point number is written with the same sign. -/
def Document.KeepsDefault (old new : Document) (f g : Field) : Prop :=
  (∀ value, f.defaultLiteral? = some (.ident value) →
    new.position? f.type.base value = old.position? f.type.base value) ∧
  ∀ x, f.defaultLiteral? = some (.float x) → g.defaultLiteral? = some (.float x)

namespace Document

variable {old new d : Document} {f g : Field} {value : String}

theorem literalDefault_ident_eq_ok_iff {default : DefaultValue} :
    d.literalDefault f (.ident value) = .ok default ↔
      (d.position? f.type.base value).map DefaultValue.ordinal = some default := by
  unfold literalDefault position?
  cases d.enum? f.type.base with
  | none => simp
  | some e =>
      cases hposition : e.values.findIdx? fun v => v.name.name == value <;> simp [hposition]

/-- Only the names of enum values depend on the document. -/
theorem literalDefault_congr {literal : Literal} (h : ∀ value, literal ≠ .ident value) :
    old.literalDefault f literal = new.literalDefault g literal := by
  cases literal with
  | ident value => exact absurd rfl (h value)
  | _ => rfl

theorem defaultValue_of_none (h : f.attribute? "default" = none) : d.defaultValue f = .ok none := by
  rw [defaultValue, h]

theorem defaultValue_of_literal {a : Attribute} {literal : Literal}
    (h : f.attribute? "default" = some a) (hargs : a.args = .literal literal) :
    d.defaultValue f = (d.literalDefault f literal).map some := by
  rw [defaultValue, h]
  simp only [hargs]

theorem defaultLiteral?_of_some {a : Attribute} (h : f.attribute? "default" = some a) :
    f.defaultLiteral? = a.literal? := by
  rw [Field.defaultLiteral?, h]
  rfl

/-- A default that is no literal does not depend on the document, nor does a literal that is neither
a number nor the name of an enum value. -/
theorem defaultValue_congr {a b : Attribute} (hf : f.attribute? "default" = some a)
    (hg : g.attribute? "default" = some b) (hargs : a.args = b.args)
    (h : ∀ value, a.args ≠ .literal (.ident value)) :
    old.defaultValue f = new.defaultValue g := by
  rw [defaultValue, defaultValue, hf, hg]
  simp only [← hargs]
  cases hcases : a.args with
  | literal literal =>
      refine congrArg (Except.map some) (literalDefault_congr fun value heq => ?_)
      exact h value (heq ▸ hcases)
  | _ => rfl

/-- The same field has its default value still, exactly when the default means the same. -/
theorem defaultValue_eq_ok_iff_keepsDefault (h : f.same g = true) {default : Option DefaultValue}
    (hdefault : old.defaultValue f = .ok default) :
    new.defaultValue g = .ok default ↔ old.KeepsDefault new f g := by
  have htype := (Field.same_iff.mp h).1
  rcases Field.attribute?_cases_of_same h (by decide : "default" ≠ "index") with
    ⟨hf, hg⟩ | ⟨a, b, hf, hg, hsame⟩
  · rw [defaultValue_of_none hf] at hdefault
    simp [KeepsDefault, Field.defaultLiteral?, defaultValue_of_none hg, hf, hdefault]
  · have hliteral := defaultLiteral?_of_some hf
    have hliteral' := defaultLiteral?_of_some hg
    rcases Attribute.args_eq_or_float_of_same hsame with hargs | ⟨p, q, hp, hq⟩
    · by_cases hident : ∃ value, a.args = .literal (.ident value)
      · -- The name of an enum value: what counts is its position.
        obtain ⟨value, hvalue⟩ := hident
        rw [defaultValue_of_literal hf hvalue, map_eq_ok_iff] at hdefault
        obtain ⟨ordinal, hordinal, rfl⟩ := hdefault
        obtain ⟨position, hposition, rfl⟩ :=
          Option.map_eq_some_iff.mp (literalDefault_ident_eq_ok_iff.mp hordinal)
        rw [htype] at hposition
        rw [defaultValue_of_literal hg (hargs ▸ hvalue), map_eq_ok_iff]
        simp [KeepsDefault, hliteral, Attribute.literal?, hvalue, hposition,
          literalDefault_ident_eq_ok_iff, htype]
      · have hcongr : old.defaultValue f = new.defaultValue g :=
          defaultValue_congr hf hg hargs fun value heq => hident ⟨value, heq⟩
        rw [← hcongr]
        refine iff_of_true hdefault ⟨fun value heq => ?_, fun x heq => ?_⟩
        · rw [hliteral, Attribute.literal?] at heq
          split at heq
          next literal hcases => exact absurd ⟨value, Option.some.inj heq ▸ hcases⟩ hident
          next => simp at heq
        · rw [hliteral', Attribute.literal?, ← hargs, ← Attribute.literal?, ← hliteral, heq]
    · -- Numbers of one value: what counts is the sign of a zero.
      rw [defaultValue_of_literal hf hp] at hdefault
      obtain rfl : some (.real p) = default := Except.ok.inj hdefault
      rw [defaultValue_of_literal hg hq]
      simp [KeepsDefault, hliteral, hliteral', Attribute.literal?, hp, hq, literalDefault,
        Except.map]

/-! ## Columns -/

/-- Fields of one name that are the same have columns that agree in all but the default value. -/
theorem column_eq_of_same (h : f.same g = true) (hname : f.name.name = g.name.name) {key : Bool}
    {column : Column} (hcolumn : old.column f key = .ok column) {kept : Column}
    (hkept : new.column g key = .ok kept) : kept = { column with default := kept.default } := by
  obtain ⟨plain, hplain, rfl⟩ := column_eq_ok_iff.mp hcolumn
  obtain ⟨_, default, _, rfl⟩ := plainColumn_eq_ok_iff.mp hplain
  obtain ⟨plain', hplain', rfl⟩ := column_eq_ok_iff.mp hkept
  obtain ⟨_, default', _, rfl⟩ := plainColumn_eq_ok_iff.mp hplain'
  have htype := (Field.same_iff.mp h).1
  have hunique : f.isUnique = g.isUnique := Field.has_eq_of_same h (by decide)
  simp only [Field.columnName_eq_of_same h hname, Field.columnType, htype, hunique,
    Field.attributeName?_eq_of_same h (by decide : "unique" ≠ "index")]

/-- Fields of one name that are the same have one column exactly when the default means the same. -/
theorem column_eq_ok_iff_keepsDefault (h : f.same g = true) (hname : f.name.name = g.name.name)
    {key : Bool} {column : Column} (hcolumn : old.column f key = .ok column) :
    new.column g key = .ok column ↔ old.KeepsDefault new f g := by
  obtain ⟨plain, hplain, rfl⟩ := column_eq_ok_iff.mp hcolumn
  obtain ⟨hidentity, default, hdefault, rfl⟩ := plainColumn_eq_ok_iff.mp hplain
  rw [← defaultValue_eq_ok_iff_keepsDefault h hdefault]
  constructor
  · intro hkept
    obtain ⟨plain', hplain', heq⟩ := column_eq_ok_iff.mp hkept
    obtain ⟨_, default', hdefault', rfl⟩ := plainColumn_eq_ok_iff.mp hplain'
    rw [show default = default' from congrArg Column.default heq]
    exact hdefault'
  · intro hdefault'
    rw [Field.checkIdentity_eq_of_same h] at hidentity
    have hplain' := plainColumn_eq_ok_iff.mpr ⟨hidentity, default, hdefault', rfl⟩
    have hkept : new.column g key = .ok _ := column_eq_ok_iff.mpr ⟨_, hplain', rfl⟩
    rw [hkept, column_eq_of_same h hname hcolumn hkept]

/-- What a plan compares: fields of one name in a model that both documents have. Of several models
of a name in the old document the last counts. -/
theorem same_of_difference {changes : List Change} (h : old.difference new = .ok changes)
    {previous m : Model} (hm : m ∈ new.models)
    (hprevious : withName? (·.name.name) (lastByName (·.name.name) old.models) m.name.name =
      some previous) {name : String} (hf : previous.field? name = some f)
    (hg : m.field? name = some g) : f.same g = true := by
  obtain ⟨_, parts, hparts, _⟩ := difference_eq_ok_iff.mp h
  obtain ⟨part, _, hpart⟩ := exists_of_mem_left hparts hm
  rw [modelChanges, hprevious] at hpart
  obtain ⟨_, _, fieldParts, hfields, _⟩ := alteration_eq_ok_iff.mp hpart
  obtain ⟨_, _, hchanges⟩ := exists_of_mem_left hfields (Model.mem_of_field?_eq_some hg)
  rw [← Model.name_of_field?_eq_some hg] at hf
  rcases fieldChanges_eq_ok_iff.mp hchanges with ⟨f', hf', hsame, _⟩ | ⟨hnone, _⟩ | ⟨hnone, _⟩
  · rw [hf] at hf'
    rwa [Option.some.inj hf']
  · rw [hf] at hnone
    simp at hnone
  · rw [hf] at hnone
    simp at hnone

/-- When a plan is made, a field that a model has in both documents has one column in both but for
its default value, and the same default value exactly when the default means the same. -/
theorem column_of_difference {changes : List Change} (h : old.difference new = .ok changes)
    {previous m : Model} (hm : m ∈ new.models)
    (hprevious : withName? (·.name.name) (lastByName (·.name.name) old.models) m.name.name =
      some previous) {name : String} (hf : previous.field? name = some f)
    (hg : m.field? name = some g) {key : Bool} {column : Column}
    (hcolumn : old.column f key = .ok column) :
    (∀ kept, new.column g key = .ok kept → kept = { column with default := kept.default }) ∧
      (new.column g key = .ok column ↔ old.KeepsDefault new f g) := by
  have hsame := same_of_difference h hm hprevious hf hg
  have hname : f.name.name = g.name.name :=
    (Model.name_of_field?_eq_some hf).trans (Model.name_of_field?_eq_some hg).symm
  exact ⟨fun kept hkept => column_eq_of_same hsame hname hcolumn hkept,
    column_eq_ok_iff_keepsDefault hsame hname hcolumn⟩

/-! ## Users with roles -/

/-- A field whose default is the second of two roles. -/
def roleField : Field :=
  bareField "role" "Role" [bareAttribute "default" (.literal (.ident "B"))]

def roleUser : Model :=
  ⟨⟨"User", .empty⟩, [bareField "id" "Int" [bareAttribute "id" .none], roleField],
    [bareAttribute "map" (.literal (.string "user"))], .empty⟩

/-- Roles, and users that have one. -/
def usersOfRoles (roles : List String) : Document :=
  ⟨[.enum ⟨⟨"Role", .empty⟩, roles.map fun role => ⟨⟨role, .empty⟩, [], .empty⟩, [], .empty⟩,
    .model roleUser]⟩

theorem keepsDefault_roleField_iff :
    old.KeepsDefault new roleField roleField ↔
      new.position? "Role" "B" = old.position? "Role" "B" := by
  have hliteral : roleField.defaultLiteral? = some (.ident "B") := rfl
  simp only [KeepsDefault, hliteral, Option.some.injEq, Literal.ident.injEq, forall_eq',
    reduceCtorEq, false_implies, implies_true, and_true]
  rfl

/-- A role that is added behind the others leaves the column of a user's role as it was. When the
roles are exchanged there is no change either, but the column is another one. -/
theorem column_of_difference_of_roles :
    (usersOfRoles ["A", "B"]).difference (usersOfRoles ["A", "B", "C"]) = .ok [] ∧
      (usersOfRoles ["A", "B", "C"]).column roleField false =
        (usersOfRoles ["A", "B"]).column roleField false ∧
      (usersOfRoles ["A", "B"]).difference (usersOfRoles ["B", "A"]) = .ok [] ∧
      (usersOfRoles ["B", "A"]).column roleField false ≠
        (usersOfRoles ["A", "B"]).column roleField false := by
  have hcolumn : (usersOfRoles ["A", "B"]).column roleField false = .ok
      { name := "role", type := .integer, isRequired := true, default := some (.ordinal 1) } := rfl
  have hadded : (usersOfRoles ["A", "B"]).difference (usersOfRoles ["A", "B", "C"]) = .ok [] := rfl
  have hmoved : (usersOfRoles ["A", "B"]).difference (usersOfRoles ["B", "A"]) = .ok [] := rfl
  have hprevious : withName? (·.name.name)
      (lastByName (·.name.name) (usersOfRoles ["A", "B"]).models) "User" = some roleUser := rfl
  have hfield : roleUser.field? "role" = some roleField := rfl
  have hmem (roles : List String) : roleUser ∈ (usersOfRoles roles).models := List.mem_cons_self
  refine ⟨hadded, ?_, hmoved, ?_⟩
  · rw [hcolumn]
    exact (column_of_difference hadded (hmem _) hprevious hfield hfield hcolumn).2.mpr
      (keepsDefault_roleField_iff.mpr rfl)
  · rw [hcolumn]
    refine mt (column_of_difference hmoved (hmem _) hprevious hfield hfield hcolumn).2.mp ?_
    rw [keepsDefault_roleField_iff]
    decide

end Document

end SchemaMigration
