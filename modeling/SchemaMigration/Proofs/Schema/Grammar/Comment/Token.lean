import SchemaMigration.Proofs.Schema.Grammar.Advance

/-! # Places outside of strings, comments and arguments

A text is cut, from its start, into strings, comments, attributes with their arguments, and single
characters. A comment counts where such a cut falls before it: two slashes inside of a string or of the
arguments of an attribute are none. Behind a string or arguments that never close there is no further
cut, but no text of the language has such.
-/

namespace SchemaMigration.Grammar

open SchemaMigration.Grammar.Parser (isGap isLineEnd)
open ArgumentText (closes_parenthesis rawArgument_append rawArgument_eq_some)

/-- The inside of a string, and what follows its closing quote. The opening one stands before. -/
def closedString? (cs : List Char) : Option (List Char × List Char) :=
  match Lexeme.stringInner cs with
  | (inner, '"' :: rest) => some (inner, rest)
  | _ => none

/-- The raw arguments of an attribute, and what follows the parenthesis that closes them. The opening
one stands before. -/
def closedArguments? (cs : List Char) : Option (List Char × List Char) :=
  match Lexeme.rawArgument cs with
  | some (raw, ')' :: rest) => some (raw, rest)
  | _ => none

/-- What follows the string, the comment, the attribute with arguments or the other character at the
front of a text. -/
def afterToken? : List Char → Option (List Char)
  | '"' :: cs => (closedString? cs).map Prod.snd
  | '/' :: '/' :: cs => some (cs.dropWhile fun c => !isLineEnd c)
  | '@' :: cs =>
    match Lexeme.attributeName cs with
    | some (_, '(' :: inside) => (closedArguments? inside).map Prod.snd
    | _ => some cs
  | _ :: cs => some cs
  | [] => none

/-- A later place of a text is one outside of strings, comments and arguments. -/
inductive Outside (rest : List Char) : List Char → Prop
  | here : Outside rest rest
  | behind {cs more : List Char} (h : afterToken? cs = some more) (hmore : Outside rest more) :
      Outside rest cs

variable {c : Char} {cs more rest inner raw : List Char}

/-! ## Strings and arguments -/

theorem closedString?_eq_some (h : closedString? cs = some (inner, rest)) :
    Lexeme.stringInner cs = (inner, '"' :: rest) := by
  unfold closedString? at h
  split at h
  next heq =>
    cases h
    exact heq
  next => cases h

/-- The inside of a string is read whatever follows the closing quote. -/
theorem closedString?_append (h : closedString? cs = some (inner, rest)) (more : List Char) :
    cs = inner ++ '"' :: rest ∧ closedString? (inner ++ '"' :: more) = some (inner, more) := by
  have hinner := closedString?_eq_some h
  have hsplit := stringInner_append cs
  rw [hinner] at hsplit
  refine ⟨hsplit.symm, ?_⟩
  suffices hmore : Lexeme.stringInner (inner ++ '"' :: more) = (inner, '"' :: more) by
    simp only [closedString?, hmore]
  clear h hsplit
  fun_induction Lexeme.stringInner cs generalizing inner with
  | case1 c cs l rest' heq ih =>
      cases hinner
      rw [List.cons_append, List.cons_append, Lexeme.stringInner, ih heq]
  | case2 c cs hescape hends =>
      cases hinner
      rfl
  | case3 c cs hescape hends l rest' heq ih =>
      cases hinner
      rw [List.cons_append, Lexeme.stringInner, if_neg hends, ih heq]
      rintro d ds rfl
      exact absurd rfl hends
  | case4 => cases hinner

/-- Arguments are read whatever follows the parenthesis that closes them. -/
theorem closedArguments?_append (h : closedArguments? cs = some (raw, rest)) (more : List Char) :
    cs = raw ++ ')' :: rest ∧ closedArguments? (raw ++ ')' :: more) = some (raw, more) := by
  unfold closedArguments? at h
  split at h
  next heq =>
    cases h
    obtain ⟨hbalanced, hsplit⟩ := rawArgument_eq_some heq
    refine ⟨hsplit, ?_⟩
    simp only [closedArguments?, rawArgument_append hbalanced (closes_parenthesis more)]
  next => cases h

/-! ## Cuts -/

/-- A character that starts no string, comment or attribute. -/
def IsPlain (c : Char) : Prop :=
  c ≠ '"' ∧ c ≠ '/' ∧ c ≠ '@'

instance (c : Char) : Decidable (IsPlain c) :=
  inferInstanceAs (Decidable (_ ∧ _ ∧ _))

theorem isPlain_of_all (h : cs.all (fun c => decide (IsPlain c)) = true) : ∀ c ∈ cs, IsPlain c :=
  fun c hc => of_decide_eq_true (List.all_eq_true.mp h c hc)

theorem isGap_of_isLineEnd (h : isLineEnd c = true) : isGap c = true := by
  simp only [isLineEnd, isGap, Bool.or_eq_true] at h ⊢
  exact h.elim (fun hfeed => .inl (.inr hfeed)) .inr

theorem afterToken?_of_plain (hc : IsPlain c) (cs : List Char) : afterToken? (c :: cs) = some cs := by
  obtain ⟨hquote, hslash, hat⟩ := hc
  rw [afterToken?.eq_def]
  split <;> simp_all

/-- What is cut off is not empty. -/
theorem exists_token (h : afterToken? cs = some rest) : ∃ token, token ≠ [] ∧ cs = token ++ rest := by
  unfold afterToken? at h
  split at h
  next cs =>
    obtain ⟨⟨inner, more⟩, hclosed, rfl⟩ := Option.map_eq_some_iff.mp h
    obtain ⟨rfl, -⟩ := closedString?_append hclosed []
    exact ⟨'"' :: (inner ++ ['"']), List.cons_ne_nil _ _, by simp⟩
  next cs =>
    cases h
    refine ⟨'/' :: '/' :: cs.takeWhile fun c => !isLineEnd c, List.cons_ne_nil _ _, ?_⟩
    rw [List.cons_append, List.cons_append, List.takeWhile_append_dropWhile]
  next cs =>
    split at h
    next name inside hname =>
      obtain ⟨⟨raw, more⟩, hclosed, rfl⟩ := Option.map_eq_some_iff.mp h
      obtain ⟨rfl, -⟩ := closedArguments?_append hclosed []
      obtain ⟨-, rfl, -⟩ := attributeName_eq_some hname
      exact ⟨'@' :: (name ++ '(' :: (raw ++ [')'])), List.cons_ne_nil _ _, by simp⟩
    next =>
      cases h
      exact ⟨['@'], List.cons_ne_nil _ _, rfl⟩
  next c cs _ _ _ =>
    cases h
    exact ⟨[c], List.cons_ne_nil _ _, rfl⟩
  next => cases h

/-- A later place of a text is the end of a front part of it. -/
theorem Outside.exists_append (h : Outside rest cs) : ∃ front, cs = front ++ rest := by
  induction h with
  | here => exact ⟨[], rfl⟩
  | behind hcut _ ih =>
      obtain ⟨token, -, rfl⟩ := exists_token hcut
      obtain ⟨front, rfl⟩ := ih
      exact ⟨token ++ front, (List.append_assoc ..).symm⟩

/-- Cuts follow one another in one way only. -/
theorem Outside.of_afterToken? (h : Outside rest cs) (hlength : rest.length < cs.length)
    (hcut : afterToken? cs = some more) : Outside rest more := by
  cases h with
  | here => exact absurd hlength (Nat.lt_irrefl _)
  | behind hcut' hmore =>
      cases hcut.symm.trans hcut'
      exact hmore

theorem Outside.trans {middle : List Char} (h : Outside rest middle) (h' : Outside middle cs) :
    Outside rest cs := by
  induction h' with
  | here => exact h
  | behind hcut _ ih => exact .behind hcut ih

theorem Outside.exists_afterToken? (h : Outside rest cs) (hlength : rest.length < cs.length) :
    ∃ more, afterToken? cs = some more := by
  cases h with
  | here => exact absurd hlength (Nat.lt_irrefl _)
  | behind hcut _ => exact ⟨_, hcut⟩

/-- Plain characters are passed one by one. -/
theorem outside_plain {l : List Char} (hl : ∀ c ∈ l, IsPlain c) (more : List Char) :
    Outside more (l ++ more) := by
  induction l with
  | nil => exact .here
  | cons c l ih =>
      obtain ⟨hc, hl⟩ := List.forall_mem_cons.mp hl
      exact .behind (afterToken?_of_plain hc _) (ih hl)

theorem Outside.of_plain {l : List Char} (hl : ∀ c ∈ l, IsPlain c) (hlength : rest.length ≤ more.length)
    (h : Outside rest (l ++ more)) : Outside rest more := by
  induction l with
  | nil => exact h
  | cons c l ih =>
      obtain ⟨hc, hl⟩ := List.forall_mem_cons.mp hl
      refine ih hl (h.of_afterToken? ?_ (afterToken?_of_plain hc _))
      rw [List.cons_append, List.length_cons, List.length_append]
      omega

end SchemaMigration.Grammar
