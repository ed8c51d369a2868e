import SchemaMigration.Proofs.Schema.Grammar.Comment.Lexeme

/-! # Strings and attributes are read as a whole

The inside of a string and the arguments of an attribute may hold blanks and slashes. They are read
up to the quote or the parenthesis that closes them, which never stands behind a place outside of them.
-/

namespace SchemaMigration.Grammar

open SchemaMigration.Grammar.Parser
open Text (byteLength)

variable {cs front name rest : List Char}

theorem exists_cons_of_head {c : Char} (h : cs.head? = some c) : ∃ more, cs = c :: more := by
  cases cs with
  | nil => cases h
  | cons d more =>
      cases h
      exact ⟨more, rfl⟩

theorem head_append_gap {c : Char} {gap : List Char} (h : front.head? ≠ some c) (hstarts : StartsGap gap)
    (hspace : c ≠ ' ') (hslash : c ≠ '/') : (front ++ gap).head? ≠ some c := by
  cases front with
  | nil =>
      obtain ⟨d, more, rfl, rfl | rfl⟩ := hstarts
      · exact fun heq => hspace (Option.some.inj heq).symm
      · exact fun heq => hslash (Option.some.inj heq).symm
  | cons d front => exact h

/-! ## Enclosed pieces -/

/-- What follows an opening character, up to where it is closed. -/
def enclosed? (opening : Char) (closed? : List Char → Option (List Char × List Char)) :
    List Char → Option (List Char × List Char)
  | [] => none
  | c :: cs => if c = opening then closed? cs else none

section Enclosed

variable {opening close : Char} {closed? : List Char → Option (List Char × List Char)}

theorem enclosed?_cons (cs : List Char) : enclosed? opening closed? (opening :: cs) = closed? cs :=
  if_pos rfl

theorem enclosed?_of_head (h : cs.head? ≠ some opening) : enclosed? opening closed? cs = none := by
  cases cs with
  | nil => rfl
  | cons c cs => exact if_neg fun heq => h (congrArg some heq)

theorem enclosed?_eq_some {inner : List Char} (h : enclosed? opening closed? cs = some (inner, rest)) :
    ∃ inside, cs = opening :: inside ∧ closed? inside = some (inner, rest) := by
  by_cases hhead : cs.head? = some opening
  · obtain ⟨inside, rfl⟩ := exists_cons_of_head hhead
    exact ⟨inside, rfl, (enclosed?_cons inside).symm.trans h⟩
  · rw [enclosed?_of_head hhead] at h
    cases h

/-- What a scanner finds is closed when the closing character follows. -/
theorem readsPiece_enclosed {α : Type} {scan : Text.Scanner} {text text' : String}
    (hopening : text.toList = [opening]) (hclose : text'.toList = [close])
    (hclosed : ∀ cs inner rest,
      closed? cs = some (inner, rest) ↔ scan cs = some (inner, close :: rest))
    (s : Symbol) (g : String → α) :
    ReadsPiece (do
        exactly text
        let inner ← symbol s (lexeme scan)
        exactly text'
        return g inner.name)
      (enclosed? opening closed?) (fun _ inner => g (String.ofList inner))
      (fun inner => byteLength [opening] + byteLength inner + byteLength [close]) where
  refuses cs h := by
    by_cases hhead : cs.head? = some opening
    · obtain ⟨cs, rfl⟩ := exists_cons_of_head hhead
      rw [enclosed?_cons] at h
      have hopen := yields_exactly text cs
      rw [hopening] at hopen
      refine hopen.bind_refuses fun _ rest hrest => ?_
      subst hrest
      cases hscan : scan rest with
      | none => exact ((refuses_lexeme hscan).symbol s).bind _
      | some found =>
          refine ((yields_lexeme hscan).symbol s).bind_refuses fun _ after hafter => ?_
          refine (refuses_exactly_of_head hclose fun hhead => ?_).bind _
          obtain ⟨more, hmore⟩ := exists_cons_of_head hhead
          have hfound : scan rest = some (found.1, close :: more) := by
            rw [hscan, ← hmore, hafter.2]
          rw [(hclosed _ _ _).mpr hfound] at h
          cases h
    · exact (refuses_exactly_of_head hopening hhead).bind _
  gives cs inner rest offset h := by
    obtain ⟨inside, rfl, hinside⟩ := enclosed?_eq_some h
    refine (gives_exactly hopening inside offset).bind ?_
    refine ((gives_lexeme ((hclosed _ _ _).mp hinside) _).symbol s).bind ?_
    rw [← Nat.add_assoc, ← Nat.add_assoc]
    refine (gives_exactly hclose rest _).bind ?_
    exact gives_pure _ _

end Enclosed

/-! ## Strings and arguments -/

theorem closedString?_eq_some_iff {inner : List Char} :
    closedString? cs = some (inner, rest) ↔
      some (Lexeme.stringInner cs) = some (inner, '"' :: rest) := by
  refine ⟨fun h => congrArg some (closedString?_eq_some h), fun h => ?_⟩
  simp only [closedString?, Option.some.inj h]

theorem closedArguments?_eq_some_iff {raw : List Char} :
    closedArguments? cs = some (raw, rest) ↔ Lexeme.rawArgument cs = some (raw, ')' :: rest) := by
  refine ⟨fun h => ?_, fun h => by simp only [closedArguments?, h]⟩
  unfold closedArguments? at h
  split at h
  next heq =>
    cases h
    exact heq
  next => cases h

theorem readsPiece_stringLiteral : stringLiteral.ReadsPiece (enclosed? '"' closedString?)
    (fun _ inner => .string (String.ofList (unescape (String.ofList inner).toList)))
    (fun inner => byteLength ['"'] + byteLength inner + byteLength ['"']) :=
  (readsPiece_enclosed rfl rfl (fun _ _ _ => closedString?_eq_some_iff) .stringInner fun inner =>
    SettingValue.string (String.ofList (unescape inner.toList))).symbol .stringLiteral

theorem readsPiece_attributeArgs : attributeArgs.ReadsPiece (enclosed? '(' closedArguments?)
    (fun _ raw => String.ofList raw)
    (fun raw => byteLength ['('] + byteLength raw + byteLength [')']) :=
  (readsPiece_enclosed rfl rfl (fun _ _ _ => closedArguments?_eq_some_iff) _ fun raw => raw).symbol _

/-! ## Attributes -/

/-- The name of an attribute at the front of a text, its arguments if it has any, and what follows. -/
def attributeText? (cs : List Char) : Option ((List Char × Option (List Char)) × List Char) :=
  (Lexeme.attributeName cs).map fun (name, rest) =>
    match enclosed? '(' closedArguments? rest with
    | some (raw, more) => ((name, some raw), more)
    | none => ((name, none), rest)

section Attributes

variable {name after : List Char} {x : List Char × Option (List Char)}

theorem attributeText?_of_none (hname : Lexeme.attributeName cs = none) :
    attributeText? cs = none := by
  rw [attributeText?, hname, Option.map_none]

theorem attributeText?_of_closed {raw more : List Char}
    (hname : Lexeme.attributeName cs = some (name, after))
    (hclosed : enclosed? '(' closedArguments? after = some (raw, more)) :
    attributeText? cs = some ((name, some raw), more) := by
  simp only [attributeText?, hname, Option.map_some, hclosed]

theorem attributeText?_of_bare (hname : Lexeme.attributeName cs = some (name, after))
    (hbare : enclosed? '(' closedArguments? after = none) :
    attributeText? cs = some ((name, none), after) := by
  simp only [attributeText?, hname, Option.map_some, hbare]

/-- An attribute has a name, and arguments behind it or none. -/
theorem attributeText?_cases (h : attributeText? cs = some (x, rest)) :
    ∃ after, Lexeme.attributeName cs = some (x.1, after) ∧
      ((∃ raw, x.2 = some raw ∧ enclosed? '(' closedArguments? after = some (raw, rest)) ∨
        x.2 = none ∧ enclosed? '(' closedArguments? after = none ∧ rest = after) := by
  obtain ⟨⟨name, after⟩, hname, heq⟩ := Option.map_eq_some_iff.mp h
  dsimp only at heq
  split at heq
  next raw more hclosed =>
    cases heq
    exact ⟨after, hname, .inl ⟨raw, rfl, hclosed⟩⟩
  next hbare =>
    cases heq
    exact ⟨rest, hname, .inr ⟨rfl, hbare, rfl⟩⟩

theorem readsPiece_attributeBody : attributeBody.ReadsPiece attributeText?
    (fun offset x => (⟨String.ofList x.1, ⟨offset, offset + byteLength x.1⟩⟩, x.2.map String.ofList))
    (fun x => byteLength x.1 +
      x.2.elim 0 fun raw => byteLength ['('] + byteLength raw + byteLength [')']) where
  refuses cs h := ((refuses_lexeme (Option.map_eq_none_iff.mp h)).symbol _).bind _
  gives cs x rest offset h := by
    obtain ⟨name, arguments⟩ := x
    obtain ⟨after, hname, harguments⟩ := attributeText?_cases h
    dsimp only at harguments ⊢
    refine ((gives_lexeme hname offset).symbol _).bind ?_
    rcases harguments with ⟨raw, rfl, hclosed⟩ | ⟨rfl, hbare, rfl⟩
    · rw [Option.elim_some, ← Nat.add_assoc]
      exact (readsPiece_attributeArgs.gives after raw rest _ hclosed).optional.bind (gives_pure _ _)
    · exact (readsPiece_attributeArgs.refuses rest hbare).optional_gives.bind (gives_pure _ _)

/-- A name never starts with the mark of an attribute. -/
theorem readsPiece_notNext : ReadsPiece (do notNext '@'; attributeBody) attributeText?
    (fun offset x => (⟨String.ofList x.1, ⟨offset, offset + byteLength x.1⟩⟩, x.2.map String.ofList))
    (fun x => byteLength x.1 +
      x.2.elim 0 fun raw => byteLength ['('] + byteLength raw + byteLength [')']) where
  refuses cs h := by
    by_cases hat : cs.head? = some '@'
    · obtain ⟨cs, rfl⟩ := exists_cons_of_head hat
      exact (refuses_notNext '@' cs).bind _
    · refine (yields_notNext hat).bind_refuses fun _ rest hrest => ?_
      rw [hrest]
      exact readsPiece_attributeBody.refuses cs h
  gives cs x rest offset h := by
    refine (gives_notNext fun hat => ?_).bind (readsPiece_attributeBody.gives cs x rest offset h)
    obtain ⟨cs, rfl⟩ := exists_cons_of_head hat
    cases h

theorem length_of_enclosed {raw : List Char}
    (h : enclosed? '(' closedArguments? after = some (raw, rest)) : rest.length ≤ after.length := by
  obtain ⟨inside, rfl, hinside⟩ := enclosed?_eq_some h
  obtain ⟨rfl, -⟩ := closedArguments?_append hinside []
  simp only [List.length_cons, List.length_append]
  omega

theorem length_of_attributeText (h : attributeText? cs = some (x, rest)) : rest.length ≤ cs.length := by
  obtain ⟨after, hname, harguments⟩ := attributeText?_cases h
  obtain ⟨-, rfl, -⟩ := attributeName_eq_some hname
  have hafter : rest.length ≤ after.length := by
    rcases harguments with ⟨raw, -, hclosed⟩ | ⟨-, -, rfl⟩
    · exact length_of_enclosed hclosed
    · exact Nat.le_refl _
  rw [List.length_append]
  omega

theorem isPlain_of_attributeName (h : Lexeme.attributeName cs = some (name, rest)) :
    ∀ c ∈ name, IsPlain c := by
  obtain ⟨⟨first, further, hfirst, hfurther, heq⟩, -, -⟩ := attributeName_eq_some h
  have hword : ∀ w : String, IsIdentifier w → ∀ c ∈ w.toList, IsPlain c :=
    fun w hw => (isPlain_of_isWord hw).2
  rw [String.toList_ofList] at heq
  subst heq
  intro c hc
  rcases List.mem_append.mp hc with hc | hc
  · exact hword first hfirst c hc
  · obtain ⟨w, hw, hc⟩ := List.mem_flatMap.mp hc
    rcases List.mem_cons.mp hc with rfl | hc
    · decide
    · exact hword w (hfurther w hw) c hc

/-- The mark of an attribute without arguments is cut off alone. -/
theorem afterToken?_of_bare (hname : Lexeme.attributeName cs = some (name, after))
    (hparen : after.head? ≠ some '(') : afterToken? ('@' :: cs) = some cs := by
  simp only [afterToken?, hname]
  split
  next heq =>
    cases heq
    exact absurd rfl hparen
  next => rfl

end Attributes

/-! ## Side by side -/

namespace Exchange

variable {E : Exchange} {k l : Nat}

/-- What is closed before a place of the text is closed there whatever stands behind. -/
theorem exists_closed {closed? : List Char → Option (List Char × List Char)} {close : Char}
    (happend : ∀ cs inner rest, closed? cs = some (inner, rest) → ∀ more,
      cs = inner ++ close :: rest ∧ closed? (inner ++ close :: more) = some (inner, more))
    {more : List Char} (h : (closed? (front ++ E.old)).map Prod.snd = some more)
    (hmore : Outside E.old more) :
    ∃ inner rest, Outside E.old (rest ++ E.old) ∧
      ∀ gap, closed? (front ++ gap) = some (inner, rest ++ gap) := by
  obtain ⟨⟨inner, _⟩, hclosed, rfl⟩ := Option.map_eq_some_iff.mp h
  obtain ⟨rest, rfl⟩ := hmore.exists_append
  have hsplit := (happend _ inner _ hclosed []).1
  rw [← List.cons_append, ← List.append_assoc] at hsplit
  obtain rfl := List.append_cancel_right hsplit
  refine ⟨inner, rest, hmore, fun gap => ?_⟩
  have hread := (happend _ inner _ hclosed (rest ++ gap)).2
  rwa [← List.cons_append, ← List.append_assoc] at hread

/-- A text that starts before a place outside of strings and arguments is cut before it. -/
theorem exists_cut {c : Char} (h : Outside E.old (c :: (front ++ E.old))) :
    ∃ more, afterToken? (c :: (front ++ E.old)) = some more ∧ Outside E.old more := by
  have hlength : E.old.length < (c :: (front ++ E.old)).length := by
    rw [List.length_cons, List.length_append]
    omega
  obtain ⟨more, hcut⟩ := h.exists_afterToken? hlength
  exact ⟨more, hcut, h.of_afterToken? hlength hcut⟩

theorem mirrors_stringLiteral : E.Mirrors k l 0 stringLiteral stringLiteral := by
  apply mirrors_piece readsPiece_stringLiteral
  · intro cs inner rest h
    obtain ⟨inside, rfl, hinside⟩ := enclosed?_eq_some h
    obtain ⟨rfl, -⟩ := closedString?_append hinside []
    simp only [List.length_cons, List.length_append]
    omega
  · intro front h
    by_cases hquote : front.head? = some '"'
    · obtain ⟨front, rfl⟩ := exists_cons_of_head hquote
      obtain ⟨more, hcut, hmore⟩ := exists_cut h
      obtain ⟨inner, rest, hrest, hread⟩ := exists_closed (fun _ _ _ => closedString?_append) hcut hmore
      exact .inr ⟨inner, rest, hrest, fun gap _ => (enclosed?_cons _).trans (hread gap)⟩
    · exact .inl fun gap hstarts =>
        enclosed?_of_head (head_append_gap hquote hstarts (by decide) (by decide))

/-- An attribute that starts before a place outside of its arguments ends before it too. -/
theorem exists_attributeText (h : Outside E.old ('@' :: (front ++ E.old))) :
    (∀ gap, StartsGap gap → attributeText? (front ++ gap) = none) ∨
      ∃ x rest, Outside E.old (rest ++ E.old) ∧
        ∀ gap, StartsGap gap → attributeText? (front ++ gap) = some (x, rest ++ gap) := by
  obtain ⟨more, hcut, hmore⟩ := exists_cut h
  cases hname : Lexeme.attributeName front with
  | none =>
      refine .inl fun gap hstarts => attributeText?_of_none ?_
      rw [endsAtGap_attributeName front gap hstarts, hname, Option.map_none]
  | some found =>
      obtain ⟨name, after⟩ := found
      have hbehind : ∀ gap, StartsGap gap →
          Lexeme.attributeName (front ++ gap) = some (name, after ++ gap) := by
        intro gap hstarts
        rw [endsAtGap_attributeName front gap hstarts, hname, Option.map_some]
      have hold := hbehind _ E.startsGap_old
      by_cases hparen : after.head? = some '('
      · obtain ⟨inside, rfl⟩ := exists_cons_of_head hparen
        rw [List.cons_append] at hold
        -- Arguments that do not close would keep the cuts from coming to the exchanged part.
        simp only [afterToken?, hold] at hcut
        obtain ⟨raw, rest, hrest, hread⟩ :=
          exists_closed (fun _ _ _ => closedArguments?_append) hcut hmore
        exact .inr ⟨(name, some raw), rest, hrest, fun gap hstarts =>
          attributeText?_of_closed (hbehind gap hstarts) ((enclosed?_cons _).trans (hread gap))⟩
      · have hhead : ∀ gap, StartsGap gap → (after ++ gap).head? ≠ some '(' :=
          fun gap hstarts => head_append_gap hparen hstarts (by decide) (by decide)
        cases (afterToken?_of_bare hold (hhead _ E.startsGap_old)).symm.trans hcut
        obtain ⟨-, rfl, -⟩ := attributeName_eq_some hname
        rw [List.append_assoc] at hmore
        refine .inr ⟨(name, none), after, hmore.of_plain (isPlain_of_attributeName hname) (by simp),
          fun gap hstarts => ?_⟩
        exact attributeText?_of_bare (hbehind gap hstarts) (enclosed?_of_head (hhead gap hstarts))

theorem mirrors_marked {α : Type} {p : Parser α} {value : Nat → List Char × Option (List Char) → α}
    {size : List Char × Option (List Char) → Nat} (hp : p.ReadsPiece attributeText? value size)
    {text : String} {mark : List Char} (htext : text.toList = mark)
    (hmark : mark = ['@'] ∨ mark = ['@', '@']) :
    E.Mirrors k l 1 (do exactly text; p) (do exactly text; p) := by
  have hchars : ∀ c ∈ mark, c ≠ ' ' ∧ c ≠ '/' := by
    rcases hmark with rfl | rfl <;> simp
  apply mirrors_piece (hp.behind htext)
  · intro cs x rest h
    obtain ⟨more, hafter, hattribute⟩ := Option.bind_eq_some_iff.mp h
    obtain rfl := after?_eq_some_iff.mp hafter
    have hmore := length_of_attributeText hattribute
    have hpos : 0 < mark.length := by rcases hmark with rfl | rfl <;> decide
    rw [List.length_append]
    omega
  · intro front h
    cases hafter : Text.after? mark front with
    | none =>
        refine .inl fun gap hstarts => ?_
        rw [after?_append_gap hchars hstarts, hafter, Option.map_none, Option.bind_none]
    | some more =>
        obtain rfl := after?_eq_some_iff.mp hafter
        -- The second of two marks stands at a place outside of arguments too.
        have hlast : Outside E.old ('@' :: (more ++ E.old)) := by
          rcases hmark with rfl | rfl
          · exact h
          · obtain ⟨_, hcut, hrest⟩ := exists_cut h
            cases hcut
            exact hrest
        have hbind : ∀ gap, StartsGap gap →
            (Text.after? mark ((mark ++ more) ++ gap)).bind attributeText? =
              attributeText? (more ++ gap) := by
          intro gap hstarts
          rw [after?_append_gap hchars hstarts, hafter, Option.map_some, Option.bind_some]
        rcases exists_attributeText hlast with hnone | ⟨x, rest, hrest, hsome⟩
        · exact .inl fun gap hstarts => (hbind gap hstarts).trans (hnone gap hstarts)
        · exact .inr ⟨x, rest, hrest, fun gap hstarts =>
            (hbind gap hstarts).trans (hsome gap hstarts)⟩

theorem mirrors_fieldAttribute : E.Mirrors k l 1 fieldAttribute fieldAttribute := by
  refine Mirrors.bind (Mirrors.located (Mirrors.symbol ?_ _)) fun _ => mirrors_pure _
  exact mirrors_marked readsPiece_notNext rfl (.inl rfl)

theorem mirrors_blockAttribute : E.Mirrors k l 1 blockAttribute blockAttribute := by
  refine Mirrors.bind (Mirrors.located (Mirrors.symbol ?_ _)) fun _ => mirrors_pure _
  exact mirrors_marked readsPiece_attributeBody rfl (.inr rfl)

end Exchange

end SchemaMigration.Grammar
