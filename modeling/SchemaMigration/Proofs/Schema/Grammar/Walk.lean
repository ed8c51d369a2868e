import SchemaMigration.Schema.Grammar.Outline

/-! # Properties that the rules of the grammar keep

The grammar puts parsers together in few ways. A property that all of them keep holds of every rule,
once it holds of the lexemes the rule starts from. Of the settings this needs less than of the blocks,
whose fields have attributes.
-/

namespace SchemaMigration.Grammar

open SchemaMigration.Grammar.Parser
open Text (word)

/-- A property of parsers that putting parsers together keeps. -/
structure Composes (P : ∀ {α : Type}, Parser α → Prop) : Prop where
  pure : ∀ {α : Type} (a : α), P (Pure.pure a : Parser α)
  bind : ∀ {α β : Type} {p : Parser α} {f : α → Parser β}, P p → (∀ a, P (f a)) → P (p >>= f)
  symbol : ∀ {α : Type} {p : Parser α}, P p → ∀ s, P (Parser.symbol s p)
  located : ∀ {α : Type} {p : Parser α}, P p → P (Parser.located p)
  fail : ∀ {α : Type}, P (Parser.fail : Parser α)
  orElse : ∀ {α : Type} {p q : Parser α}, P p → P q → P (Parser.orElse p q)
  optional : ∀ {α : Type} {p : Parser α}, P p → P (Parser.optional p)
  many : ∀ {α : Type} {p : Parser α}, P p → P (Parser.many p)
  gap : P Parser.gap
  bounded : ∀ {α : Type} {p : Nat → Parser α}, (∀ n, P (p n)) → ∀ bound : Cursor → Nat,
    P fun c trail => p (bound c) c trail

/-- The marks between names, values and members. -/
def marks : List String :=
  ["(", ")", "[", "]", ",", "=", "[]", "?", "\x7b", "\x7d"]

/-- A property that the lexemes of settings and of types of fields have. -/
structure HoldsOfLexemes (P : ∀ {α : Type}, Parser α → Prop) : Prop where
  word : P (lexeme word)
  number : P (lexeme Lexeme.number)
  boolean : P (lexeme Lexeme.boolean)
  stringLiteral : P stringLiteral
  exactly : ∀ mark ∈ marks, P (exactly mark)

/-- A property that the parts of members have. -/
structure HoldsOfParts (P : ∀ {α : Type}, Parser α → Prop) : Prop where
  identifier : P identifier
  fieldType : P fieldType
  assignment : P assignment
  fieldAttribute : P fieldAttribute
  blockAttribute : P blockAttribute

namespace Composes

variable {P : ∀ {α : Type}, Parser α → Prop} {α : Type} {p : Parser SettingValue}

theorem first (h : Composes P) {ps : List (Parser α)} (hps : ∀ p ∈ ps, P p) : P (first ps) := by
  induction ps with
  | nil => exact h.fail
  | cons p ps ih =>
      obtain ⟨hp, hps⟩ := List.forall_mem_cons.mp hps
      exact h.orElse hp (ih hps)

theorem gapThen (h : Composes P) {p : Parser α} (hp : P p) : P (gapThen p) :=
  h.bind h.gap fun _ => hp

/-! ## Settings and types of fields -/

section Lexemes

variable (h : Composes P) (hlexemes : HoldsOfLexemes P)

include h hlexemes

theorem identifier : P identifier :=
  h.symbol hlexemes.word _

theorem mark {text : String} (htext : text ∈ marks) : P (Grammar.gapThen (exactly text)) :=
  h.gapThen (hlexemes.exactly text htext)

theorem valueList (hp : P p) : P (valueList p) := by
  refine h.bind hp fun _ => h.bind h.gap fun _ => h.bind (h.many ?_) fun _ => h.pure _
  exact h.bind (hlexemes.exactly _ (by decide)) fun _ => h.gapThen hp

theorem functionCall (hp : P p) : P (functionCall p) := by
  refine h.symbol (h.bind (h.identifier hlexemes) fun _ => ?_) _
  refine h.bind (h.mark hlexemes (by decide)) fun _ => ?_
  refine h.bind (h.gapThen (h.optional (h.valueList hlexemes hp))) fun _ => ?_
  exact h.bind (h.mark hlexemes (by decide)) fun _ => h.pure _

theorem array (hp : P p) : P (array p) := by
  refine h.symbol (h.bind (hlexemes.exactly _ (by decide)) fun _ => ?_) _
  refine h.bind (h.gapThen (h.optional ?_)) fun _ => ?_
  · refine h.bind (h.valueList hlexemes hp) fun _ => ?_
    exact h.bind (h.gapThen (h.optional (hlexemes.exactly _ (by decide)))) fun _ => h.pure _
  · exact h.bind (h.mark hlexemes (by decide)) fun _ => h.pure _

theorem plainValue : P plainValue := by
  apply h.first
  refine List.forall_mem_cons.mpr ⟨?_, List.forall_mem_cons.mpr ⟨?_,
    List.forall_mem_singleton.mpr ?_⟩⟩
  · exact h.bind (h.symbol hlexemes.number _) fun _ => h.pure _
  · exact h.bind (h.symbol hlexemes.boolean _) fun _ => h.pure _
  · exact h.bind (h.identifier hlexemes) fun _ => h.pure _

theorem value (depth : Nat) : P (value depth) := by
  induction depth with
  | zero => exact h.fail
  | succ depth ih =>
      have hfirst : P (Parser.first [Grammar.functionCall (Grammar.value depth),
          Grammar.array (Grammar.value depth), Grammar.stringLiteral, Grammar.plainValue]) := by
        apply h.first
        exact List.forall_mem_cons.mpr ⟨h.functionCall hlexemes ih, List.forall_mem_cons.mpr
          ⟨h.array hlexemes ih, List.forall_mem_cons.mpr ⟨hlexemes.stringLiteral,
            List.forall_mem_singleton.mpr (h.plainValue hlexemes)⟩⟩⟩
      exact hfirst

theorem anyValue : P anyValue :=
  h.bounded (h.value hlexemes) fun c => c.rest.length + 1

theorem assignment : P assignment := by
  refine h.bind (h.located (h.symbol ?_ _)) fun _ => h.pure _
  refine h.bind (h.identifier hlexemes) fun _ => h.bind (h.mark hlexemes (by decide)) fun _ => ?_
  exact h.bind (h.gapThen (h.anyValue hlexemes)) fun _ => h.pure _

theorem fieldType : P fieldType := by
  refine h.symbol (h.bind (h.identifier hlexemes) fun _ => ?_) _
  refine h.bind (h.optional (h.symbol (hlexemes.exactly _ (by decide)) _)) fun _ => ?_
  exact h.bind (h.optional (h.symbol (hlexemes.exactly _ (by decide)) _)) fun _ => h.pure _

end Lexemes

/-! ## Members and blocks -/

theorem field (h : Composes P) (hparts : HoldsOfParts P) : P Grammar.field := by
  refine h.bind (h.located (h.symbol ?_ _)) fun _ => h.pure _
  refine h.bind hparts.identifier fun _ => h.bind (h.gapThen hparts.fieldType) fun _ => ?_
  exact h.bind (h.gapThen (h.many hparts.fieldAttribute)) fun _ => h.pure _

theorem enumValue (h : Composes P) (hparts : HoldsOfParts P) : P enumValue := by
  refine h.bind (h.located (h.symbol ?_ _)) fun _ => h.pure _
  refine h.bind hparts.identifier fun _ => ?_
  exact h.bind (h.gapThen (h.many hparts.fieldAttribute)) fun _ => h.pure _

theorem member (h : Composes P) (hparts : HoldsOfParts P) (kind : BlockKind) : P (member kind) := by
  have hfields : P (Parser.first [blockAttribute, Grammar.field]) :=
    h.first (List.forall_mem_cons.mpr
      ⟨hparts.blockAttribute, List.forall_mem_singleton.mpr (h.field hparts)⟩)
  cases kind with
  | datasource | generator => exact hparts.assignment
  | model | view => exact hfields
  | type => exact h.field hparts
  | enum =>
      exact h.first (List.forall_mem_cons.mpr
        ⟨hparts.blockAttribute, List.forall_mem_singleton.mpr (h.enumValue hparts)⟩)

theorem block (h : Composes P) (hlexemes : HoldsOfLexemes P) (hparts : HoldsOfParts P)
    (kind : BlockKind) (hkeyword : P (lexeme (Lexeme.keyword kind))) : P (block kind) := by
  refine h.bind (h.located (h.symbol ?_ _)) fun _ => h.pure _
  refine h.bind (h.symbol hkeyword _) fun _ => h.bind (h.gapThen hparts.identifier) fun _ => ?_
  refine h.bind (h.mark hlexemes (by decide)) fun _ => ?_
  refine h.bind (h.gapThen (h.many (h.member hparts kind))) fun _ => ?_
  exact h.bind (h.mark hlexemes (by decide)) fun _ => h.pure _

theorem outline (h : Composes P) (hblock : ∀ kind, P (Grammar.block kind)) (hend : P atEnd) :
    P Grammar.outline := by
  refine h.symbol (h.bind (h.gapThen (h.many (h.first ?_))) fun _ => ?_) _
  · intro p hp
    obtain ⟨kind, -, rfl⟩ := List.mem_map.mp hp
    exact hblock kind
  · exact h.bind (h.gapThen (h.symbol hend _)) fun _ => h.pure _

end Composes

end SchemaMigration.Grammar
