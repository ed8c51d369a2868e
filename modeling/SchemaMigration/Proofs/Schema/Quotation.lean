import SchemaMigration.Proofs.Schema.ArgumentText.Literal
import SchemaMigration.Proofs.Schema.Positions
import SchemaMigration.Proofs.Schema.Reading

/-! # Strings in quotes

A string is written in double quotes with a backslash before quotes and backslashes only. Line ends,
brackets, commas and all other characters stand in it as they are. Under the name of an attribute that
takes a literal, the argument is the string again, wherever it stands in a text that is accepted; and
with strings that are written so, a document has a text that is accepted.
-/

namespace SchemaMigration

open ArgumentText
open Grammar (unescape)

/-! ## What is written -/

namespace Grammar

/-- A character between double quotes, with a backslash before a quote or a backslash. -/
def guardChar (c : Char) : List Char :=
  if c = '"' ∨ c = '\\' then ['\\', c] else [c]

/-- A string in double quotes. -/
def inQuotes (v : String) : List Char :=
  '"' :: (v.toList.flatMap guardChar ++ ['"'])

end Grammar

open Grammar (guardChar inQuotes)

/-- The name of an attribute with a string in quotes as its arguments. -/
def Attribute.quotedBody (name v : String) : List Char :=
  name.toList ++ '(' :: (inQuotes v ++ [')'])

/-- An attribute with a string in quotes as its arguments. -/
def Attribute.quotedChars (mark name v : String) : List Char :=
  mark.toList ++ quotedBody name v

/-- An attribute behind its mark: a string in quotes, and anything else as in the canonical text. -/
def Attribute.bodyInQuotes (a : Attribute) : List Char :=
  match a.string? with
  | some v => quotedBody a.name.name v
  | none => a.body

/-- The text of a document whose attributes have their strings in quotes. -/
def Document.textInQuotes (d : Document) : String :=
  String.ofList (d.charsBy Attribute.bodyInQuotes)

/-! ## What is read -/

theorem isQuotable_flatMap_guardChar (cs : List Char) :
    isQuotable '"' (cs.flatMap guardChar) = true := by
  induction cs with
  | nil => rfl
  | cons c cs ih =>
      rw [List.flatMap_cons, guardChar]
      split
      · exact ih
      next hc =>
        rw [List.singleton_append, isQuotable, ih]
        · simpa [and_comm, not_or] using hc
        · rintro d ds rfl
          exact absurd (.inr rfl) hc

theorem unescape_flatMap_guardChar (cs : List Char) : unescape (cs.flatMap guardChar) = cs := by
  induction cs with
  | nil => rfl
  | cons c cs ih =>
      rw [List.flatMap_cons, guardChar]
      split
      next hc =>
        rw [List.cons_append, List.singleton_append]
        rcases hc with rfl | rfl <;> rw [unescape, ih] <;> decide
      next hc =>
        have hbackslash : c ≠ '\\' := fun heq => hc (.inr heq)
        rw [List.singleton_append, unescape, ih] <;> intros <;> contradiction

theorem balanced_inQuotes (v : String) : Balanced true (inQuotes v) :=
  .quoted (.inl rfl) (isQuotable_flatMap_guardChar v.toList) .nil

theorem literal?_inQuotes (v : String) : literal? (inQuotes v) = some (.string v) :=
  Literal.literal?_of_isQuotable (isQuotable_flatMap_guardChar _) (unescape_flatMap_guardChar _)

/-- The names whose attributes take something other than a literal. -/
def interpretedNames : List String :=
  ["relation", "index", "unique", "id", "check"]

theorem interpret_inQuotes {name : String} (h : name ∉ interpretedNames) (v : String) :
    interpret name (String.ofList (inQuotes v)) = .ok (.literal (.string v)) := by
  have hliteral : literalOrRaw (inQuotes v) = .literal (.string v) := by
    rw [literalOrRaw, literal?_inQuotes]
  have hcall : call? (inQuotes v) = none := by
    rw [call?, Grammar.word_eq_none (by rfl), Option.bind_none]
  have hdefault : defaultValue (inQuotes v) = .ok (.literal (.string v)) := by
    simp only [defaultValue, hcall, hliteral]
  have hne : ¬(inQuotes v).isEmpty := by simp [inQuotes]
  have hstrip : Text.strip (inQuotes v) = inQuotes v := (trimmed_of_quotes _).strip_eq
  simp only [interpretedNames, List.mem_cons, List.not_mem_nil, or_false, not_or] at h
  obtain ⟨hrelation, hindex, hunique, hid, hcheck⟩ := h
  simp only [interpret, String.toList_ofList, hstrip, if_neg hne, hrelation, hindex,
    hunique, hid, hcheck, or_self, if_false, hdefault, hliteral, ite_self]

/-- An attribute with a string in quotes has the string as its argument. -/
theorem Attribute.ofText_inQuotes (mark : String) {name : Ident} (h : name.name ∉ interpretedNames)
    (v : String) (span : Span) :
    Attribute.ofText mark ⟨name, some (String.ofList (inQuotes v)), span⟩ =
      .ok ⟨name, .literal (.string v), span⟩ := by
  simp only [Attribute.ofText, interpret_inQuotes h]

/-! ## What stands in a text -/

/-- Where a string in quotes stands as the argument of an attribute, the string is its argument. -/
theorem Attribute.IsPlaced.args_eq {text : List Char} {mark name v : String} {a : Attribute}
    (h : a.IsPlaced text mark) (hname : a.name.name = name)
    (hinterpreted : name ∉ interpretedNames)
    (hwritten : a.span.Holds text (quotedChars mark name v)) : a.args = .literal (.string v) := by
  obtain ⟨arguments, hread, hholds⟩ := h.whole
  have hpart := hholds.unique hwritten
  rw [hname, quotedChars, quotedBody, ← List.append_assoc] at hpart
  have harguments := List.append_cancel_left hpart
  cases arguments with
  | none => cases harguments
  | some raw =>
      have hraw : raw.toList = inQuotes v :=
        List.append_cancel_right (List.cons.inj harguments).2
      have hsame : raw = String.ofList (inQuotes v) := by rw [← hraw, String.ofList_toList]
      rw [hsame, Attribute.ofText_inQuotes mark (hname ▸ hinterpreted)] at hread
      exact congrArg Attribute.args (Except.ok.inj hread).symm

/-! ## Documents with strings in quotes -/

theorem Attribute.literal?_eq_some_iff {a : Attribute} {value : Literal} :
    a.literal? = some value ↔ a.args = .literal value := by
  unfold Attribute.literal?
  split
  next args hargs => simp [hargs]
  next hother => simpa using hother value

theorem Attribute.string?_eq_some_iff {a : Attribute} {v : String} :
    a.string? = some v ↔ a.args = .literal (.string v) := by
  rw [Attribute.string?, Option.bind_eq_some_iff]
  constructor
  · rintro ⟨value, hvalue, hv⟩
    cases value with
    | string s =>
        cases hv
        exact literal?_eq_some_iff.mp hvalue
    | _ => cases hv
  · exact fun h => ⟨_, literal?_eq_some_iff.mpr h, rfl⟩

theorem Attribute.isReadFrom_quotedBody {a : Attribute} {v : String} (h : a.IsReadable)
    (hv : a.args = .literal (.string v)) : a.IsReadFrom (quotedBody a.name.name v) where
  head := Grammar.head_isDottedName_append h.writable.name _
  reads := by
    have hargs := h.writable.args
    rw [hv] at hargs
    intro rest _
    have hchars : quotedBody a.name.name v ++ rest =
        a.name.name.toList ++ '(' :: (inQuotes v ++ ')' :: rest) := by
      simp [quotedBody]
    rw [hchars]
    refine (yields_attributeBody_of_balanced h.writable.name (balanced_inQuotes v) rest).mono ?_
    rintro ⟨name, arguments⟩ r ⟨⟨hname, harguments⟩, hr⟩
    refine ⟨fun mark span => ⟨⟨name, a.args, span⟩, ?_, bare_eq_iff.mpr ⟨hname, rfl⟩⟩, hr⟩
    dsimp only at hname harguments
    rw [harguments, hv]
    exact ofText_inQuotes mark (hname ▸ hargs.1) v span

theorem Attribute.isReadFrom_bodyInQuotes {a : Attribute} (h : a.IsReadable) :
    a.IsReadFrom a.bodyInQuotes := by
  unfold Attribute.bodyInQuotes
  split
  next v hv => exact isReadFrom_quotedBody h (string?_eq_some_iff.mp hv)
  next => exact isReadFrom_body h

/-- A document whose attributes have their strings in quotes is read back, whatever the strings
are. -/
theorem Document.ofText_textInQuotes {d : Document} (h : d.IsWritable) (htidy : d.IsTidy) :
    ∃ read, ofText d.textInQuotes = .ok read ∧ read.bare = d.bare := by
  refine ofText_charsBy fun x hx => ⟨h x hx, fun p hp a ha => ?_⟩
  have hreadable : x.IsReadable := ⟨h x hx, htidy x hx⟩
  exact Attribute.isReadFrom_bodyInQuotes (hreadable.isReadable_attribute hp ha)

end SchemaMigration
