import Mathlib.Data.List.TakeWhile
import SchemaMigration.Settings.Expansion

/-! # Variables put in one after the other

A text is expanded part by part, as long as no reference to a variable goes from one part into the
next.
-/

namespace SchemaMigration.Settings

variable {environment : String → Option String} {c : Char} {cs name rest text : List Char}
variable {skip : Nat}

/-- No reference that begins in a text is still open at its end. -/
def IsClosed (text : List Char) : Prop :=
  ∀ cs, '$' :: '\x7b' :: cs <:+ text → '\x7d' ∈ cs

theorem IsClosed.tail (h : IsClosed (c :: cs)) : IsClosed cs :=
  fun ds hds => h ds (hds.trans (List.suffix_cons c cs))

/-! ## References -/

theorem reference?_eq_some_iff :
    reference? cs = some (name, rest) ↔
      cs = '$' :: '\x7b' :: (name ++ '\x7d' :: rest) ∧ name ≠ [] ∧ '\x7d' ∉ name := by
  constructor
  · intro h
    unfold reference? at h
    split at h
    next cs =>
      split at h
      next c name d rest htake hdrop =>
        cases h
        have hcs := cs.takeWhile_append_dropWhile (p := (· != '\x7d'))
        have hd : d = '\x7d' := by
          have hhead := List.head?_dropWhile_not (· != '\x7d') cs
          simpa [hdrop] using hhead
        refine ⟨by rw [← hcs, htake, hdrop, hd], List.cons_ne_nil c name, ?_⟩
        rw [← htake]
        intro hmem
        simpa using List.mem_takeWhile_imp hmem
      next => cases h
    next => cases h
  · rintro ⟨rfl, hname, hbrace⟩
    have hkeep : ∀ c ∈ name, (c != '\x7d') = true := by
      rintro c hc
      exact bne_iff_ne.mpr fun heq => hbrace (heq ▸ hc)
    have htake : (name ++ '\x7d' :: rest).takeWhile (· != '\x7d') = name := by
      simp [List.takeWhile_append_of_pos hkeep]
    have hdrop : (name ++ '\x7d' :: rest).dropWhile (· != '\x7d') = '\x7d' :: rest := by
      simp [List.dropWhile_append_of_pos hkeep]
    rw [reference?, htake, hdrop]
    cases name with
    | nil => exact absurd rfl hname
    | cons => rfl

theorem reference?_append (h : IsClosed (c :: cs)) (hrest : rest.head? ≠ some '\x7b') :
    reference? (c :: (cs ++ rest)) = (reference? (c :: cs)).map fun r => (r.1, r.2 ++ rest) := by
  cases hread : reference? (c :: cs) with
  | some r =>
      obtain ⟨heq, hname, hbrace⟩ := reference?_eq_some_iff.mp hread
      refine reference?_eq_some_iff.mpr ⟨?_, hname, hbrace⟩
      rw [← List.cons_append, heq]
      simp
  | none =>
      rw [Option.map_none, Option.eq_none_iff_forall_ne_some]
      rintro ⟨name, after⟩ hsome
      obtain ⟨heq, hname, hbrace⟩ := reference?_eq_some_iff.mp hsome
      obtain ⟨rfl, hbehind⟩ := List.cons.inj heq
      cases cs with
      | nil =>
          rw [List.nil_append] at hbehind
          exact hrest (by rw [hbehind]; rfl)
      | cons d cs =>
          obtain ⟨rfl, hinside⟩ := List.cons.inj hbehind
          have hclosing := h cs List.suffix_rfl
          -- The brace that closes the reference is the first one, so it is in the text already.
          rcases List.append_eq_append_iff.mp hinside with ⟨more, rfl, -⟩ | ⟨more, rfl, hmore⟩
          · exact hbrace (List.mem_append_left more hclosing)
          · cases more with
            | nil => exact hbrace (by simpa using hclosing)
            | cons d more =>
                obtain ⟨rfl, -⟩ := List.cons.inj hmore
                have hsome : reference? ('$' :: '\x7b' :: (name ++ '\x7d' :: more)) =
                    some (name, more) := reference?_eq_some_iff.mpr ⟨rfl, hname, hbrace⟩
                cases hsome.symm.trans hread

theorem length_of_reference? (h : reference? (c :: cs) = some (name, rest)) :
    rest.length ≤ cs.length := by
  obtain ⟨heq, -, -⟩ := reference?_eq_some_iff.mp h
  rw [(List.cons.inj heq).2]
  simp only [List.length_cons, List.length_append]
  omega

/-! ## Expansion -/

theorem expandFrom_length (text rest : List Char) :
    expandFrom environment text.length (text ++ rest) = expandFrom environment 0 rest := by
  induction text with
  | nil => rfl
  | cons c text ih => exact ih

/-- A text that leaves no reference open is expanded by itself. -/
theorem expandFrom_append (h : IsClosed text) (hrest : rest.head? ≠ some '\x7b')
    (hskip : skip ≤ text.length) :
    expandFrom environment skip (text ++ rest) =
      expandFrom environment skip text ++ expandFrom environment 0 rest := by
  induction text generalizing skip with
  | nil =>
      rw [Nat.le_zero.mp hskip]
      rfl
  | cons c text ih =>
      cases skip with
      | succ skip => exact ih h.tail (Nat.le_of_succ_le_succ hskip)
      | zero =>
          rw [List.cons_append, expandFrom, expandFrom, reference?_append h hrest]
          cases hread : reference? (c :: text) with
          | none =>
              simp only [Option.map_none, ih h.tail (Nat.zero_le _)]
              rfl
          | some r =>
              have hle := length_of_reference? hread
              have hskip' : (text ++ rest).length - (r.2 ++ rest).length =
                  text.length - r.2.length := by
                simp only [List.length_append]
                omega
              have htake : (text ++ rest).length + 1 - (r.2 ++ rest).length =
                  text.length + 1 - r.2.length := by
                simp only [List.length_append]
                omega
              simp only [Option.map_some, hskip', htake, ih h.tail (Nat.sub_le _ _)]
              cases environment (String.ofList r.1) with
              | some value => simp
              | none =>
                  rw [← List.cons_append, List.take_append_of_le_length (by simp)]
                  simp

theorem expandFrom_of_notMem (h : '$' ∉ text) :
    expandFrom environment 0 (text ++ rest) = text ++ expandFrom environment 0 rest := by
  induction text with
  | nil => rfl
  | cons c text ih =>
      simp only [List.mem_cons, not_or] at h
      have hnone : reference? (c :: (text ++ rest)) = none := by
        rw [Option.eq_none_iff_forall_ne_some]
        rintro ⟨name, after⟩ hsome
        exact h.1 (List.cons.inj (reference?_eq_some_iff.mp hsome).1).1.symm
      rw [List.cons_append, expandFrom, hnone]
      simp only [ih h.2]
      rfl

theorem expandFrom_eq_self (h : '$' ∉ text) : expandFrom environment 0 text = text := by
  have happend : expandFrom environment 0 (text ++ []) = text ++ expandFrom environment 0 [] :=
    expandFrom_of_notMem h
  rw [List.append_nil] at happend
  rw [happend, expandFrom, List.append_nil]

/-- The reference to a variable that is set is replaced by its value, whatever follows. -/
theorem expandFrom_reference {name value : String} (hname : name ≠ "")
    (hbrace : '\x7d' ∉ name.toList) (hvalue : environment name = some value) :
    expandFrom environment 0 ('$' :: '\x7b' :: (name.toList ++ '\x7d' :: rest)) =
      value.toList ++ expandFrom environment 0 rest := by
  have hread : reference? ('$' :: '\x7b' :: (name.toList ++ '\x7d' :: rest)) =
      some (name.toList, rest) :=
    reference?_eq_some_iff.mpr ⟨rfl, by simpa using hname, hbrace⟩
  have hlength : ('\x7b' :: (name.toList ++ '\x7d' :: rest)).length - rest.length =
      ('\x7b' :: (name.toList ++ ['\x7d'])).length := by
    simp only [List.length_cons, List.length_append, List.length_nil]
    omega
  have hbehind : expandFrom environment ('\x7b' :: (name.toList ++ ['\x7d'])).length
      ('\x7b' :: (name.toList ++ ['\x7d']) ++ rest) = expandFrom environment 0 rest :=
    expandFrom_length _ rest
  rw [expandFrom, hread]
  simp only [String.ofList_toList, hvalue, hlength]
  simpa using hbehind

end SchemaMigration.Settings
