import Mathlib.Tactic.MkIffOfInductiveProp
import SchemaMigration.Proofs.Sql.Scan
import SchemaMigration.Proofs.Text.Trimming

/-! # Statements of a script

A script is made of a comment line and of statements, each closed and with code at both its ends,
and between them stand semicolons and blanks. Cutting the script gives the statements back, the
first one with the comment in front of it.
-/

namespace SchemaMigration.Sql

open ScriptState (after)
open Text (intercalate_eq_flatMap isBlank strip stripBy_eq_self)

variable {cs : List Char} {c : Char}

/-! ## Fragments -/

theorem fragmentsFrom_ne_nil (state : ScriptState) (cs : List Char) :
    fragmentsFrom state cs ≠ [] := by
  cases cs with
  | nil => simp [fragmentsFrom]
  | cons c cs =>
      simp only [fragmentsFrom]
      split
      · simp
      · split <;> simp

/-- A character that ends no statement becomes part of the first fragment behind it. -/
theorem fragmentsFrom_cons {state : ScriptState} (h : ¬(state = .code ∧ c = ';')) (cs : List Char) :
    fragmentsFrom state (c :: cs) = (fragmentsFrom (state.next c cs.head?) cs).modifyHead
      fun fragment => ⟨state.counts c cs.head? || fragment.hasCode, c :: fragment.text⟩ := by
  rw [fragmentsFrom, if_neg h]
  cases hfragments : fragmentsFrom (state.next c cs.head?) cs with
  | nil => exact absurd hfragments (fragmentsFrom_ne_nil _ _)
  | cons fragment more => rfl

/-- A text that ends no statement becomes part of the first fragment behind it. -/
theorem fragmentsFrom_append {state middle : ScriptState} {rest : List Char}
    (h : state.after cs rest.head? = some middle) :
    ∃ hasCode, fragmentsFrom state (cs ++ rest) = (fragmentsFrom middle rest).modifyHead
      fun fragment => ⟨hasCode || fragment.hasCode, cs ++ fragment.text⟩ := by
  induction cs generalizing state with
  | nil =>
      obtain rfl := Option.some.inj h
      refine ⟨false, ?_⟩
      cases hfragments : fragmentsFrom state rest <;> simp [hfragments]
  | cons c cs ih =>
      simp only [after] at h
      split at h
      · simp at h
      next hcode =>
        obtain ⟨hasCode, htail⟩ := ih h
        refine ⟨state.counts c (cs.head?.or rest.head?) || hasCode, ?_⟩
        rw [List.cons_append, fragmentsFrom_cons hcode, List.head?_append, htail,
          List.modifyHead_modifyHead]
        simp only [Function.comp_def, Bool.or_assoc, List.cons_append]

/-- What stands in a comment up to the end of its line is part of the fragment behind it and holds
no code. -/
theorem fragmentsFrom_line (cs : List Char) :
    fragmentsFrom .lineComment cs =
      (fragmentsFrom .code (cs.dropWhile (· ≠ '\n'))).modifyHead
        fun fragment => ⟨fragment.hasCode, cs.takeWhile (· ≠ '\n') ++ fragment.text⟩ := by
  induction cs with
  | nil => rfl
  | cons c cs ih =>
      rw [fragmentsFrom_cons (by simp)]
      by_cases hc : c = '\n'
      · subst hc
        rw [List.dropWhile_cons_of_neg (by simp), List.takeWhile_cons_of_neg (by simp),
          fragmentsFrom_cons (by simp), List.modifyHead_modifyHead]
        rfl
      · rw [List.dropWhile_cons_of_pos (by simpa using hc),
          List.takeWhile_cons_of_pos (by simpa using hc),
          show ScriptState.lineComment.next c cs.head? = .lineComment by
            simp [ScriptState.next, hc], ih, List.modifyHead_modifyHead]
        rfl

theorem fragmentsFrom_lineComment (h : '\n' ∉ cs) (rest : List Char) :
    fragmentsFrom .lineComment (cs ++ '\n' :: rest) = (fragmentsFrom .code rest).modifyHead
      fun fragment => ⟨fragment.hasCode, cs ++ '\n' :: fragment.text⟩ := by
  have hline : ∀ c ∈ cs, decide (c ≠ '\n') = true := fun c hc =>
    decide_eq_true fun heq => h (heq ▸ hc)
  rw [fragmentsFrom_line, List.dropWhile_append_of_pos hline, List.takeWhile_append_of_pos hline,
    List.dropWhile_cons_of_neg (by simp), List.takeWhile_cons_of_neg (by simp), List.append_nil,
    fragmentsFrom_cons (by simp), List.modifyHead_modifyHead]
  rfl

/-- So is a comment with the two hyphens that open it. -/
theorem fragmentsFrom_comment (h : '\n' ∉ cs) (rest : List Char) :
    fragmentsFrom .code ('-' :: '-' :: cs ++ '\n' :: rest) = (fragmentsFrom .code rest).modifyHead
      fun fragment => ⟨fragment.hasCode, '-' :: '-' :: cs ++ '\n' :: fragment.text⟩ := by
  have hline : '\n' ∉ '-' :: cs := by simp [h]
  rw [List.cons_append, fragmentsFrom_cons (by simp)]
  have hbehind : fragmentsFrom .lineComment ('-' :: cs ++ '\n' :: rest) = _ :=
    fragmentsFrom_lineComment hline rest
  rw [show ScriptState.code.next '-' ('-' :: cs ++ '\n' :: rest).head? = .lineComment from rfl,
    hbehind, List.modifyHead_modifyHead]
  rfl

/-- A character that is code wherever it stands in code, and that ends no statement. -/
def isSolid (c : Char) : Bool :=
  !isBlank c && c ≠ '-' && c ≠ '/' && c ≠ ';'

theorem counts_of_isSolid (h : isSolid c = true) (following : Option Char) :
    ScriptState.code.counts c following = true := by
  simp only [isSolid, Bool.and_eq_true, Bool.not_eq_true', decide_eq_true_eq] at h
  obtain ⟨⟨⟨hblank, hminus⟩, hslash⟩, _⟩ := h
  simp only [ScriptState.counts, ScriptState.next, hblank, hminus, hslash, false_and, if_false]
  split <;> rfl

/-- A fragment that begins with code holds code. -/
theorem hasCode_of_isSolid (h : isSolid c = true) (cs : List Char) :
    ∃ text more, fragmentsFrom .code (c :: cs) = ⟨true, text⟩ :: more := by
  have hcode : ¬(ScriptState.code = .code ∧ c = ';') := by
    rintro ⟨-, rfl⟩
    simp [isSolid] at h
  rw [fragmentsFrom_cons hcode, counts_of_isSolid h]
  cases hfragments : fragmentsFrom (ScriptState.code.next c cs.head?) cs with
  | nil => exact absurd hfragments (fragmentsFrom_ne_nil _ _)
  | cons fragment more => exact ⟨c :: fragment.text, more, rfl⟩

/-! ## Statements -/

/-- A text that may stand at the end of a statement: it is closed and does not end with a blank. -/
@[mk_iff]
structure IsClause (s : String) : Prop where
  closed : Closed s
  ends : (s.toList.getLast?.any fun c => !isBlank c) = true

/-- A text that is a statement wherever it stands: a clause that begins with code. -/
structure IsStatement (s : String) : Prop extends IsClause s where
  starts : s.toList.head?.any isSolid = true

instance (s : String) : Decidable (IsClause s) :=
  decidable_of_iff' _ (isClause_iff s)

namespace IsClause

variable {s t : String}

theorem ends_append (s : String) (ht : IsClause t) :
    ((s ++ t).toList.getLast?.any fun c => !isBlank c) = true := by
  obtain ⟨c, hlast, hblank⟩ := (Option.any_eq_true _ _).mp ht.ends
  rw [String.toList_append, List.getLast?_append, hlast, Option.some_or, Option.any_some]
  exact hblank

theorem last_append (hs : IsClause s) (cs : List Char) :
    ∀ c ∈ (cs ++ s.toList).getLast?, isBlank c = false := by
  obtain ⟨d, hlast, hblank⟩ := (Option.any_eq_true _ _).mp hs.ends
  intro c hc
  rw [List.getLast?_append, hlast] at hc
  cases hc
  simpa using hblank

theorem append (hs : Closed s) (ht : IsClause t) : IsClause (s ++ t) :=
  ⟨hs.append ht.closed, ends_append s ht⟩

/-- A clause may be followed by a clause that is not always there. -/
theorem append_optional (hs : IsClause s) (ht : t = "" ∨ IsClause t) : IsClause (s ++ t) := by
  rcases ht with rfl | ht
  · rwa [String.append_empty]
  · exact append hs.closed ht

end IsClause

theorem IsStatement.append {s t : String} (hs : Closed s)
    (hstarts : s.toList.head?.any isSolid = true) (ht : IsClause t) : IsStatement (s ++ t) where
  toIsClause := IsClause.append hs ht
  starts := by
    obtain ⟨c, hhead, hsolid⟩ := (Option.any_eq_true _ _).mp hstarts
    rw [String.toList_append, List.head?_append, hhead, Option.some_or, Option.any_some]
    exact hsolid

theorem fragmentsFrom_statement {s : String} (h : IsStatement s) (rest : List Char) :
    fragmentsFrom .code (s.toList ++ ';' :: rest) =
      ⟨true, s.toList⟩ :: fragmentsFrom .code rest := by
  have hclosed : ScriptState.code.after s.toList (';' :: rest).head? = some .code := h.closed _
  obtain ⟨hasCode, hsplit⟩ := fragmentsFrom_append hclosed
  have hend : fragmentsFrom .code (';' :: rest) = {} :: fragmentsFrom .code rest := by
    simp [fragmentsFrom]
  rw [hend, List.modifyHead_cons, Bool.or_false, List.append_nil] at hsplit
  -- The fragment holds code since its first character is code.
  obtain ⟨c, hhead, hsolid⟩ := (Option.any_eq_true _ _).mp h.starts
  obtain ⟨cs, hcons⟩ := List.head?_eq_some_iff.mp hhead
  obtain ⟨text, more, hfirst⟩ := hasCode_of_isSolid hsolid (cs ++ ';' :: rest)
  rw [hsplit, List.cons.injEq, and_iff_left rfl]
  rw [← List.cons_append, ← hcons, hsplit, List.cons.injEq, Fragment.mk.injEq] at hfirst
  rw [hfirst.1.1]

/-- A closed text in front of a statement becomes part of its fragment. -/
theorem fragmentsFrom_lead {lead s : String} (hlead : Closed lead) (h : IsStatement s)
    (rest : List Char) :
    fragmentsFrom .code (lead.toList ++ s.toList ++ ';' :: rest) =
      ⟨true, lead.toList ++ s.toList⟩ :: fragmentsFrom .code rest := by
  rw [List.append_assoc]
  obtain ⟨hasCode, hsplit⟩ := fragmentsFrom_append (hlead (s.toList ++ ';' :: rest).head?)
  rw [hsplit, fragmentsFrom_statement h, List.modifyHead_cons, Bool.or_true]

/-- Statements with closed texts in front of them are cut into fragments that hold code. -/
theorem fragmentsFrom_statements {lead : String} (hlead : Closed lead) {bodies : List String}
    (h : ∀ s ∈ bodies, IsStatement s) (rest : List Char) :
    fragmentsFrom .code ((bodies.flatMap fun s => lead.toList ++ s.toList ++ [';']) ++ rest) =
      (bodies.map fun s => ⟨true, lead.toList ++ s.toList⟩) ++ fragmentsFrom .code rest := by
  induction bodies with
  | nil => rfl
  | cons s bodies ih =>
      have hs := fragmentsFrom_lead hlead (h s List.mem_cons_self)
        ((bodies.flatMap fun s => lead.toList ++ s.toList ++ [';']) ++ rest)
      rw [List.flatMap_cons, List.append_assoc, List.append_assoc (lead.toList ++ s.toList),
        List.singleton_append, hs, ih fun t ht => h t (List.mem_cons_of_mem _ ht)]
      rfl

/-! ## Trimming -/

namespace IsStatement

variable {s : String} (h : IsStatement s)
include h

/-- A statement keeps what stands in front of it when that begins with no blank. -/
theorem strip_lead (hfirst : isBlank c = false) (cs : List Char) :
    strip (c :: cs ++ s.toList) = c :: cs ++ s.toList := by
  refine stripBy_eq_self (fun d hd => ?_) (h.toIsClause.last_append _)
  cases hd
  exact hfirst

/-- A statement loses the blanks in front of it. -/
theorem strip_blank (hblanks : ∀ c ∈ cs, isBlank c = true) : strip (cs ++ s.toList) = s.toList := by
  have hdrop : strip (cs ++ s.toList) = strip s.toList := by
    rw [strip, Text.stripBy, List.dropWhile_append_of_pos hblanks]
    rfl
  rw [hdrop]
  refine stripBy_eq_self (fun c hc => ?_) (h.toIsClause.last_append [])
  have hsolid : isSolid c = true := by
    simpa [Option.mem_def.mp hc] using h.starts
  simp only [isSolid, Bool.and_eq_true, Bool.not_eq_true'] at hsolid
  exact hsolid.1.1.1

end IsStatement

/-! ## Scripts -/

theorem closed_newlines : Closed "\n" ∧ Closed "\n\n" := by
  decide

/-- The fragments of statements with semicolons and empty lines between them. -/
theorem fragmentsFrom_body {s : String} {bodies : List String} (hs : IsStatement s)
    (h : ∀ t ∈ bodies, IsStatement t) :
    fragmentsFrom .code
        ('\n' :: ("\n\n".intercalate ((s :: bodies).map (· ++ ";"))).toList ++ ['\n']) =
      ⟨true, '\n' :: s.toList⟩ :: (bodies.map fun t => ⟨true, '\n' :: '\n' :: t.toList⟩)
        ++ [⟨false, ['\n']⟩] := by
  have htext : '\n' :: ("\n\n".intercalate ((s :: bodies).map (· ++ ";"))).toList ++ ['\n'] =
      "\n".toList ++ s.toList ++ ';' ::
        ((bodies.flatMap fun t => "\n\n".toList ++ t.toList ++ [';']) ++ ['\n']) := by
    rw [List.map_cons, intercalate_eq_flatMap, List.flatMap_map]
    simp
  have hend : fragmentsFrom .code ['\n'] = [⟨false, ['\n']⟩] := by decide
  rw [htext, fragmentsFrom_lead closed_newlines.1 hs,
    fragmentsFrom_statements closed_newlines.2 h, hend]
  rfl

/-- A script of a comment line and statements is cut into the statements, and the comment stands in
front of the first one. -/
theorem statements_script {comment : String} (hline : '\n' ∉ comment.toList) {bodies : List String}
    (h : ∀ s ∈ bodies, IsStatement s) :
    statements ("--" ++ comment ++ "\n\n" ++ "\n\n".intercalate (bodies.map (· ++ ";")) ++ "\n") =
      bodies.modifyHead ("--" ++ comment ++ "\n\n" ++ ·) := by
  have htext : ("--" ++ comment ++ "\n\n" ++ "\n\n".intercalate (bodies.map (· ++ ";"))
      ++ "\n").toList = '-' :: '-' :: comment.toList ++ '\n' ::
        ('\n' :: ("\n\n".intercalate (bodies.map (· ++ ";"))).toList ++ ['\n']) := by
    simp
  unfold statements fragments
  rw [htext, fragmentsFrom_comment hline]
  cases bodies with
  | nil =>
      -- Without statements only blank lines are left behind the comment, and no code.
      have hend : fragmentsFrom .code ['\n', '\n'] = [⟨false, ['\n', '\n']⟩] := by decide
      rw [List.map_nil, String.intercalate_nil]
      rw [show '\n' :: ("" : String).toList ++ ['\n'] = ['\n', '\n'] from rfl, hend]
      rfl
  | cons s bodies =>
      have hs := h s List.mem_cons_self
      have hrest : ∀ t ∈ bodies, IsStatement t := fun t ht => h t (List.mem_cons_of_mem _ ht)
      rw [fragmentsFrom_body hs hrest, List.cons_append, List.modifyHead_cons, List.filter_cons,
        if_pos rfl, List.filter_append, List.filter_eq_self.mpr (by simp), List.map_cons,
        List.modifyHead_cons]
      rw [show [(⟨false, ['\n']⟩ : Fragment)].filter Fragment.hasCode = [] from rfl,
        List.append_nil, List.map_map]
      -- The first statement keeps the comment in front of it, the others lose their blank lines.
      have hfirst : strip ('-' :: '-' :: comment.toList ++ '\n' :: '\n' :: s.toList) =
          '-' :: '-' :: comment.toList ++ '\n' :: '\n' :: s.toList := by
        have hlead := hs.strip_lead (show isBlank '-' = false by decide)
          ('-' :: comment.toList ++ ['\n', '\n'])
        simpa using hlead
      have hblanks : ∀ c ∈ ['\n', '\n'], isBlank c = true := List.all_eq_true.mp (by decide)
      have hothers : ∀ t ∈ bodies, strip ('\n' :: '\n' :: t.toList) = t.toList := fun t ht =>
        (hrest t ht).strip_blank hblanks
      have htexts : (bodies.map fun t => String.ofList (strip ('\n' :: '\n' :: t.toList))) =
          bodies := by
        conv => rhs; rw [← List.map_id bodies]
        exact List.map_congr_left fun t ht => by rw [hothers t ht, String.ofList_toList, id]
      refine congrArg₂ List.cons ?_ htexts
      rw [hfirst]
      apply String.toList_injective
      simp

end SchemaMigration.Sql
