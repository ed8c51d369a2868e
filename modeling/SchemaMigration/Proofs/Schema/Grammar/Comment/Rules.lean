import SchemaMigration.Proofs.Schema.Grammar.Comment.Enclosed

/-! # The rules of the grammar with a comment exchanged

Rule by rule, what is read before the exchanged part and behind it is the same in both texts.
-/

namespace SchemaMigration.Grammar.Exchange

open SchemaMigration.Grammar.Parser

variable {E : Exchange} {k l : Nat}

/-! ## Settings -/

section Values

variable {p q : Parser SettingValue}

theorem mirrors_valueList (h : E.Mirrors k l 0 p q) : E.Mirrors k l 0 (valueList p) (valueList q) := by
  apply h.bind
  refine fun _ => Mirrors.afterGap (Mirrors.bind (Mirrors.many ?_) fun _ => mirrors_pure _)
  exact (mirrors_exactly (by decide)).bind fun _ => h.gapThen

/-- The values of a call stand behind its name, so nearer to the end of the text. -/
theorem mirrors_functionCall (h : E.Mirrors k l 0 p q) :
    E.Mirrors (k + 1) (l + 1) 1 (functionCall p) (functionCall q) := by
  apply Mirrors.symbol
  refine mirrors_identifier.bind_behind k l (fun _ => ?_) (Nat.le_refl _) (Nat.le_refl _)
  refine (mirrors_exactly (by decide)).gapThen.weaken.bind fun _ => ?_
  refine (mirrors_valueList h).optional.gapThen.bind fun _ => ?_
  exact (mirrors_exactly (by decide)).gapThen.weaken.bind fun _ => mirrors_pure _

theorem mirrors_array (h : E.Mirrors k l 0 p q) :
    E.Mirrors (k + 1) (l + 1) 1 (array p) (array q) := by
  apply Mirrors.symbol
  refine (mirrors_exactly (by decide)).bind_behind k l (fun _ => ?_) (Nat.le_refl _)
    (Nat.le_refl _)
  refine Mirrors.bind (Mirrors.gapThen (Mirrors.optional (i := 0) ?_)) fun _ => ?_
  · refine (mirrors_valueList h).bind fun _ => ?_
    exact (mirrors_exactly (by decide)).optional.gapThen.bind fun _ => mirrors_pure _
  · exact (mirrors_exactly (by decide)).gapThen.weaken.bind fun _ => mirrors_pure _

theorem mirrors_plainValue : E.Mirrors k l 1 plainValue plainValue := by
  apply mirrors_first
  refine .cons ?_ (.cons ?_ (.cons ?_ .nil))
  · exact (mirrors_number.symbol _).bind fun _ => mirrors_pure _
  · exact (mirrors_boolean.symbol _).bind fun _ => mirrors_pure _
  · exact mirrors_identifier.bind fun _ => mirrors_pure _

/-- The bounds on the nesting may differ, as they are never reached. -/
theorem mirrors_value (n m : Nat) : E.Mirrors n m 0 (value n) (value m) := by
  induction n generalizing m with
  | zero => exact fun _ _ _ _ _ hk => absurd hk (Nat.not_lt_zero _)
  | succ n ih =>
      -- With a bound of zero there would be no room for the cursor.
      cases m with
      | zero => exact fun _ _ _ _ _ _ hl => absurd hl (Nat.not_lt_zero _)
      | succ m =>
          have hfirst : E.Mirrors (n + 1) (m + 1) 0
              (first [functionCall (value n), array (value n), stringLiteral, plainValue])
              (first [functionCall (value m), array (value m), stringLiteral, plainValue]) := by
            apply mirrors_first
            refine .cons ?_ (.cons ?_ (.cons mirrors_stringLiteral (.cons ?_ .nil)))
            · exact (mirrors_functionCall (ih m)).weaken
            · exact (mirrors_array (ih m)).weaken
            · exact mirrors_plainValue.weaken
          exact hfirst

theorem mirrors_anyValue : E.Mirrors k l 0 anyValue anyValue := by
  intro c c' trail trail' htwin _ _
  exact mirrors_value _ _ c c' trail trail' htwin (Nat.lt_succ_self _) (Nat.lt_succ_self _)

theorem mirrors_assignment : E.Mirrors k l 1 assignment assignment := by
  refine Mirrors.bind (Mirrors.located (Mirrors.symbol ?_ _)) fun _ => mirrors_pure _
  refine mirrors_identifier.bind fun _ => ?_
  refine (mirrors_exactly (by decide)).gapThen.weaken.bind fun _ => ?_
  exact mirrors_anyValue.gapThen.bind fun _ => mirrors_pure _

end Values

/-! ## Fields and values of enums -/

theorem mirrors_fieldType : E.Mirrors k l 1 fieldType fieldType := by
  refine Mirrors.symbol (mirrors_identifier.bind fun _ => ?_) _
  refine ((mirrors_exactly (by decide)).symbol _).optional.bind fun _ => ?_
  exact ((mirrors_exactly (by decide)).symbol _).optional.bind fun _ => mirrors_pure _

theorem mirrors_field : E.Mirrors k l 1 Grammar.field Grammar.field := by
  refine Mirrors.bind (Mirrors.located (Mirrors.symbol ?_ _)) fun _ => mirrors_pure _
  refine mirrors_identifier.bind fun _ => mirrors_fieldType.gapThen.weaken.bind fun _ => ?_
  exact mirrors_fieldAttribute.many.gapThen.bind fun _ => mirrors_pure _

theorem mirrors_enumValue : E.Mirrors k l 1 enumValue enumValue := by
  refine Mirrors.bind (Mirrors.located (Mirrors.symbol ?_ _)) fun _ => mirrors_pure _
  refine mirrors_identifier.bind fun _ => ?_
  exact mirrors_fieldAttribute.many.gapThen.bind fun _ => mirrors_pure _

/-! ## Blocks -/

theorem mirrors_member (kind : BlockKind) : E.Mirrors k l 1 (member kind) (member kind) := by
  have hfields : E.Mirrors k l 1 (first [blockAttribute, Grammar.field])
      (first [blockAttribute, Grammar.field]) :=
    mirrors_first (.cons mirrors_blockAttribute (.cons mirrors_field .nil))
  cases kind with
  | datasource | generator => exact mirrors_assignment
  | model | view => exact hfields
  | type => exact mirrors_field
  | enum => exact mirrors_first (.cons mirrors_blockAttribute (.cons mirrors_enumValue .nil))

theorem mirrors_block (kind : BlockKind) : E.Mirrors k l 1 (block kind) (block kind) := by
  refine Mirrors.bind (Mirrors.located (Mirrors.symbol ?_ _)) fun _ => mirrors_pure _
  refine ((mirrors_keyword kind).symbol _).bind fun _ => ?_
  refine mirrors_identifier.gapThen.weaken.bind fun _ => ?_
  refine (mirrors_exactly (by decide)).gapThen.weaken.bind fun _ => ?_
  refine (mirrors_member kind).many.gapThen.bind fun _ => ?_
  exact (mirrors_exactly (by decide)).gapThen.weaken.bind fun _ => mirrors_pure _

theorem mirrors_outline : E.Mirrors k l 0 outline outline := by
  apply Mirrors.symbol
  refine Mirrors.bind (Mirrors.gapThen (Mirrors.many (mirrors_first ?_))) fun _ => ?_
  · refine List.forall₂_same.mpr fun p hp => ?_
    obtain ⟨kind, -, rfl⟩ := List.mem_map.mp hp
    exact mirrors_block kind
  · exact (mirrors_atEnd.symbol _).gapThen.bind fun _ => mirrors_pure _

end SchemaMigration.Grammar.Exchange
