import SchemaMigration.Schema.ArgumentText.Piece

/-! # Balanced texts

A text is balanced when its quotes and brackets close. The grammar reads a balanced text as one raw
argument, up to a bracket that closes more than the text has opened, and the scan for commas agrees
with it: a comma of a balanced text is seen exactly when it stands outside quotes and brackets.
-/

namespace SchemaMigration.ArgumentText

open Grammar.Lexeme (closing? afterPieces closeQuote rawArgument)

/-- Whether a character stands for itself, and neither quotes nor brackets. -/
def isBare (c : Char) : Bool :=
  c ∉ ['"', '\'', '(', ')', '[', ']']

/-- Texts with closed quotes and brackets. The flag tells whether a comma may stand outside of
them. -/
inductive Balanced : Bool → List Char → Prop
  | nil {commas : Bool} : Balanced commas []
  | char {commas : Bool} {c : Char} {cs : List Char} (hc : isBare c = true)
      (hcomma : c = ',' → commas = true) (hcs : Balanced commas cs) : Balanced commas (c :: cs)
  | quoted {commas : Bool} {quote : Char} {inside cs : List Char}
      (hquote : quote = '"' ∨ quote = '\'') (hinside : isQuotable quote inside = true)
      (hcs : Balanced commas cs) : Balanced commas (quote :: (inside ++ quote :: cs))
  | group {commas : Bool} {left right : Char} {inside cs : List Char}
      (hclosing : closing? left = some right) (hinside : Balanced true inside)
      (hcs : Balanced commas cs) : Balanced commas (left :: (inside ++ right :: cs))

theorem closing?_eq_some_iff {left right : Char} :
    closing? left = some right ↔
      (left = '(' ∧ right = ')') ∨ (left = '[' ∧ right = ']') := by
  unfold closing?
  split <;> simp_all [eq_comm]

theorem not_isBare_of_closing? {left right : Char} (h : closing? left = some right) :
    isBare left = false ∧ isBare right = false := by
  rcases closing?_eq_some_iff.mp h with ⟨rfl, rfl⟩ | ⟨rfl, rfl⟩ <;> exact ⟨rfl, rfl⟩

theorem not_isQuote_of_closing? {left right : Char} (h : closing? left = some right) :
    ¬(left = '"' ∨ left = '\'') := by
  rcases closing?_eq_some_iff.mp h with ⟨rfl, _⟩ | ⟨rfl, _⟩ <;> decide

theorem isBare_iff {c : Char} :
    isBare c = true ↔ ¬(c = '"' ∨ c = '\'') ∧ closing? c = none ∧ ¬(c = ')' ∨ c = ']') := by
  have hopen : closing? c = none ↔ c ≠ '(' ∧ c ≠ '[' := by
    unfold closing?
    split <;> simp_all
  simp only [isBare, List.mem_cons, List.not_mem_nil, or_false, decide_eq_true_eq, hopen]
  grind

namespace Balanced

variable {commas : Bool} {cs ds : List Char}

/-- A balanced text starts with a character that stands for itself, with a quoted string or with a
group. -/
theorem cons_cases {c : Char} (h : Balanced commas (c :: cs)) :
    (isBare c = true ∧ (c = ',' → commas = true) ∧ Balanced commas cs) ∨
      (∃ inside more, (c = '"' ∨ c = '\'') ∧ isQuotable c inside = true ∧
        cs = inside ++ c :: more ∧ Balanced commas more) ∨
      ∃ right inside more, closing? c = some right ∧ Balanced true inside ∧
        cs = inside ++ right :: more ∧ Balanced commas more := by
  cases h with
  | char hc hcomma hcs => exact .inl ⟨hc, hcomma, hcs⟩
  | quoted hquote hinside hcs => exact .inr (.inl ⟨_, _, hquote, hinside, rfl, hcs⟩)
  | group hclosing hinside hcs => exact .inr (.inr ⟨_, _, _, hclosing, hinside, rfl, hcs⟩)

theorem append (hcs : Balanced commas cs) (hds : Balanced commas ds) :
    Balanced commas (cs ++ ds) := by
  induction hcs with
  | nil => exact hds
  | char hc hcomma _ ih => exact .char hc hcomma (ih hds)
  | @quoted _ quote inside cs hquote hinside _ ih =>
      simpa using Balanced.quoted hquote hinside (ih hds)
  | @group _ left right inside cs hclosing hinside _ _ ih =>
      simpa using Balanced.group hclosing hinside (ih hds)

theorem of_bare (h : ∀ c ∈ cs, isBare c = true) : Balanced true cs := by
  induction cs with
  | nil => exact .nil
  | cons c cs ih =>
      exact .char (h c List.mem_cons_self) (fun _ => rfl)
        (ih fun c hc => h c (List.mem_cons_of_mem _ hc))

theorem allow (h : Balanced commas cs) : Balanced true cs := by
  induction h with
  | nil => exact .nil
  | char hc _ _ ih => exact .char hc (fun _ => rfl) ih
  | quoted hquote hinside _ ih => exact .quoted hquote hinside ih
  | group hclosing hinside _ _ ih => exact .group hclosing hinside ih

end Balanced

/-! ## Raw arguments -/

section RawArgument

variable {commas : Bool} {cs rest : List Char}

theorem closeQuote_append {quote : Char} (hquote : quote = '"' ∨ quote = '\'')
    {inside : List Char} (hinside : isQuotable quote inside = true) (rest : List Char) :
    closeQuote quote (inside ++ quote :: rest) = some rest := by
  fun_induction isQuotable quote inside with
  | case1 c cs ih => exact ih hinside
  | case2 c cs hescape ih =>
      simp only [ne_eq, Bool.and_eq_true, decide_eq_true_eq] at hinside
      obtain ⟨⟨hbackslash, hother⟩, hcs⟩ := hinside
      rw [List.cons_append, closeQuote]
      · rw [if_neg hother]
        exact ih hcs
      · rintro d ds rfl
        exact absurd rfl hbackslash
  | case3 => rcases hquote with rfl | rfl <;> simp [closeQuote]

/-- Whether a text goes on with a bracket that closes. -/
def Closes (cs : List Char) : Prop :=
  ∀ c ∈ cs.head?, c = ')' ∨ c = ']'

theorem closes_of_closing? {left right : Char} (h : closing? left = some right)
    (cs : List Char) : Closes (right :: cs) := by
  rintro c ⟨⟩
  rcases closing?_eq_some_iff.mp h with ⟨_, rfl⟩ | ⟨_, rfl⟩
  · exact .inl rfl
  · exact .inr rfl

theorem closes_parenthesis (cs : List Char) : Closes (')' :: cs) :=
  closes_of_closing? (show closing? '(' = some ')' from rfl) cs

theorem afterPieces_of_isBare {c : Char} (hc : isBare c = true) (bound : Nat) (cs : List Char) :
    afterPieces (bound + 1) (c :: cs) = afterPieces bound cs := by
  obtain ⟨hquote, hclosing, hclose⟩ := isBare_iff.mp hc
  rw [afterPieces, if_neg hquote, hclosing]
  exact if_neg hclose

theorem afterPieces_of_closes (h : Closes rest) (bound : Nat) : afterPieces bound rest = rest := by
  cases rest with
  | nil => cases bound <;> rfl
  | cons c rest =>
      cases bound with
      | zero => rfl
      | succ bound => rcases h c rfl with rfl | rfl <;> rfl

theorem exists_eq_succ_of_length_le {c : Char} {bound : Nat} (h : (c :: cs).length ≤ bound) :
    ∃ n, bound = n + 1 ∧ cs.length ≤ n := by
  cases bound with
  | zero => cases h
  | succ n => exact ⟨n, rfl, Nat.le_of_succ_le_succ h⟩

/-- The pieces of a balanced text are read to its end. -/
theorem afterPieces_append (h : Balanced commas cs) (hrest : Closes rest) {bound : Nat}
    (hbound : cs.length ≤ bound) : afterPieces bound (cs ++ rest) = rest := by
  induction h generalizing rest bound with
  | nil => exact afterPieces_of_closes hrest bound
  | @char _ c cs hc _ _ ih =>
      obtain ⟨bound, rfl, hle⟩ := exists_eq_succ_of_length_le hbound
      rw [List.cons_append, afterPieces_of_isBare hc]
      exact ih hrest hle
  | @quoted _ quote inside cs hquote hinside _ ih =>
      obtain ⟨bound, rfl, hle⟩ := exists_eq_succ_of_length_le hbound
      rw [List.cons_append, List.append_assoc, List.cons_append, afterPieces, if_pos hquote,
        closeQuote_append hquote hinside]
      exact ih hrest (by simp at hle; omega)
  | @group _ left right inside cs hclosing _ _ ihinside ih =>
      obtain ⟨bound, rfl, hle⟩ := exists_eq_succ_of_length_le hbound
      have hright : Closes (right :: (cs ++ rest)) := closes_of_closing? hclosing _
      have hgroup : afterPieces bound (inside ++ right :: (cs ++ rest)) = right :: (cs ++ rest) :=
        ihinside hright (by simp at hle; omega)
      rw [List.cons_append, List.append_assoc, List.cons_append, afterPieces,
        if_neg (not_isQuote_of_closing? hclosing), hclosing]
      simp only [hgroup, if_true]
      exact ih hrest (by simp at hle; omega)

/-- A balanced text in parentheses is read as one raw argument. -/
theorem rawArgument_append (h : Balanced commas cs) (hrest : Closes rest) :
    rawArgument (cs ++ rest) = some (cs, rest) := by
  have hafter : afterPieces (cs ++ rest).length (cs ++ rest) = rest :=
    afterPieces_append h hrest (by simp)
  rw [rawArgument, hafter, List.length_append, Nat.add_sub_cancel, List.take_left]

/-- What stands before the end of a quoted string is the inside of one. -/
theorem closeQuote_eq_some {quote : Char} (h : closeQuote quote cs = some rest) :
    ∃ inside, cs = inside ++ quote :: rest ∧ isQuotable quote inside = true := by
  fun_induction closeQuote quote cs with
  | case1 c cs ih =>
      obtain ⟨inside, rfl, hinside⟩ := ih h
      exact ⟨'\\' :: c :: inside, rfl, hinside⟩
  | case2 cs hescape =>
      cases h
      exact ⟨[], rfl, rfl⟩
  | case3 c cs hescape hother ih =>
      obtain ⟨inside, rfl, hinside⟩ := ih h
      refine ⟨c :: inside, rfl, ?_⟩
      have hbackslash : c ≠ '\\' := by
        rintro rfl
        cases inside with
        | nil => exact hescape quote rest rfl rfl
        | cons d inside => exact hescape d (inside ++ quote :: rest) rfl rfl
      rw [isQuotable]
      · simp [hbackslash, hother, hinside]
      · rintro d ds rfl
        exact absurd rfl hbackslash
  | case4 => cases h

theorem closeQuote_append_iff {quote : Char} (hquote : quote = '"' ∨ quote = '\'')
    {inside : List Char} :
    closeQuote quote (inside ++ quote :: rest) = some rest ↔ isQuotable quote inside = true := by
  refine ⟨fun h => ?_, fun h => closeQuote_append hquote h rest⟩
  obtain ⟨inside', heq, hinside'⟩ := closeQuote_eq_some h
  rwa [List.append_cancel_right heq]

theorem inside?_eq_some_iff {inside : List Char} :
    inside? cs = some inside ↔ ∃ quote, (quote = '"' ∨ quote = '\'') ∧
      isQuotable quote inside = true ∧ cs = quote :: (inside ++ [quote]) := by
  constructor
  · intro h
    cases cs with
    | nil => cases h
    | cons q cs =>
        rw [inside?, Option.ite_none_right_eq_some] at h
        obtain ⟨⟨hq, hlast, hinside⟩, heq⟩ := h
        obtain ⟨body, rfl⟩ := List.getLast?_eq_some_iff.mp hlast
        rw [List.dropLast_concat] at hinside heq
        cases heq
        exact ⟨q, hq, hinside, rfl⟩
  · rintro ⟨quote, hquote, hinside, rfl⟩
    rw [inside?, List.getLast?_concat, List.dropLast_concat, if_pos ⟨hquote, rfl, hinside⟩]

end RawArgument

/-! ## Parts of balanced texts -/

section Parts

variable {commas commas' : Bool} {c : Char} {cs rest : List Char}

/-- A quoted string ends in one place only. -/
theorem quoted_unique {quote : Char} (hquote : quote = '"' ∨ quote = '\'')
    {inside inside' more more' : List Char} (hinside : isQuotable quote inside = true)
    (hinside' : isQuotable quote inside' = true)
    (h : inside ++ quote :: more = inside' ++ quote :: more') : more = more' := by
  have hclose := closeQuote_append hquote hinside more
  rw [h, closeQuote_append hquote hinside'] at hclose
  exact (Option.some.inj hclose).symm

/-- A group ends in one place only. -/
theorem group_unique {left right : Char} (hclosing : closing? left = some right)
    {inside inside' more more' : List Char} (hinside : Balanced true inside)
    (hinside' : Balanced true inside')
    (h : inside ++ right :: more = inside' ++ right :: more') : more = more' := by
  have hread := rawArgument_append hinside (closes_of_closing? hclosing more)
  rw [h, rawArgument_append hinside' (closes_of_closing? hclosing more')] at hread
  cases hread
  rfl

/-- What stands behind the balanced front of a balanced text is balanced. -/
theorem Balanced.of_append (h : Balanced commas (cs ++ rest)) (hcs : Balanced commas' cs) :
    Balanced commas rest := by
  induction hcs with
  | nil => exact h
  | @char _ c cs hc _ _ ih =>
      rcases h.cons_cases with ⟨_, _, hmore⟩ | ⟨_, _, rfl | rfl, _⟩ | ⟨_, _, _, hclosing, _⟩
      · exact ih hmore
      · cases hc
      · cases hc
      · rw [(not_isBare_of_closing? hclosing).1] at hc
        cases hc
  | @quoted _ quote inside cs hquote hinside _ ih =>
      have hbare : isBare quote = false := by rcases hquote with rfl | rfl <;> rfl
      rw [List.cons_append, List.append_assoc, List.cons_append] at h
      rcases h.cons_cases with
        ⟨hc, _⟩ | ⟨inside', more, _, hinside', heq, hmore⟩ | ⟨_, _, _, hclosing, _⟩
      · rw [hbare] at hc
        cases hc
      · rw [← quoted_unique hquote hinside hinside' heq] at hmore
        exact ih hmore
      · rcases hquote with rfl | rfl <;> cases hclosing
  | @group _ left right inside cs hclosing hinside _ _ ih =>
      rw [List.cons_append, List.append_assoc, List.cons_append] at h
      rcases h.cons_cases with
        ⟨hc, _⟩ | ⟨_, _, hquote, _⟩ | ⟨right', inside', more, hclosing', hinside', heq, hmore⟩
      · rw [(not_isBare_of_closing? hclosing).1] at hc
        cases hc
      · rcases hquote with rfl | rfl <;> cases hclosing
      · cases hclosing.symm.trans hclosing'
        rw [← group_unique hclosing hinside hinside' heq] at hmore
        exact ih hmore

/-- Nothing is closed at the front of a balanced text. -/
theorem not_balanced_of_closes (h : Closes (c :: cs)) : ¬Balanced commas (c :: cs) := by
  intro hbalanced
  rcases hbalanced.cons_cases with ⟨hc, _⟩ | ⟨_, _, hquote, _⟩ | ⟨_, _, _, hopen, _⟩
  · rcases h c rfl with rfl | rfl <;> cases hc
  · rcases h c rfl with rfl | rfl <;> rcases hquote with h | h <;> cases h
  · rcases h c rfl with rfl | rfl <;> cases hopen

/-- A character that is not among the last ones of a text stands before them. -/
theorem exists_eq_append_of_notMem {last before after : List Char} (hc : c ∉ last)
    (h : cs ++ last = before ++ c :: after) :
    ∃ more, cs = before ++ c :: more ∧ more ++ last = after := by
  rcases List.append_eq_append_iff.mp h with ⟨more, rfl, hlast⟩ | ⟨more, rfl, hafter⟩
  · exact absurd (hlast ▸ by simp) hc
  · cases more with
    | nil => exact absurd (List.nil_append last ▸ hafter ▸ List.mem_cons_self) hc
    | cons d more =>
        obtain ⟨rfl, rfl⟩ := List.cons.inj hafter
        exact ⟨more, rfl, rfl⟩

/-- Characters that stand for themselves may be left off the end of a balanced text. -/
theorem Balanced.of_append_bare {bare : List Char} (hbare : ∀ c ∈ bare, isBare c = true)
    (h : Balanced commas (cs ++ bare)) : Balanced commas cs := by
  have hnot : ∀ {c}, isBare c = false → c ∉ bare := by
    intro c hc hmem
    rw [hbare c hmem] at hc
    cases hc
  generalize htext : cs ++ bare = text at h
  induction h generalizing cs with
  | nil =>
      rw [(List.append_eq_nil_iff.mp htext).1]
      exact .nil
  | @char _ c more hc hcomma _ ih =>
      cases cs with
      | nil => exact .nil
      | cons d cs =>
          obtain ⟨rfl, htail⟩ := List.cons.inj htext
          exact .char hc hcomma (ih htail)
  | @quoted _ quote inside more hquote hinside _ ih =>
      have hquote' : quote ∉ bare := hnot (by rcases hquote with rfl | rfl <;> rfl)
      cases cs with
      | nil => exact .nil
      | cons d cs =>
          obtain ⟨rfl, htail⟩ := List.cons.inj htext
          obtain ⟨cs', rfl, hmore⟩ := exists_eq_append_of_notMem hquote' htail
          exact .quoted hquote hinside (ih hmore)
  | @group _ left right inside more hclosing hinside _ _ ih =>
      cases cs with
      | nil => exact .nil
      | cons d cs =>
          obtain ⟨rfl, htail⟩ := List.cons.inj htext
          obtain ⟨cs', rfl, hmore⟩ :=
            exists_eq_append_of_notMem (hnot (not_isBare_of_closing? hclosing).2) htail
          exact .group hclosing hinside (ih hmore)

end Parts

/-! ## Commas -/

section Commas

variable {commas : Bool} {cs rest : List Char} {state : ScanState} {depth : Nat}

namespace ScanState

variable {c left right : Char}

theorem next_of_isBare (hc : isBare c = true) : (code depth).next c = code depth := by
  simp only [isBare, List.mem_cons, List.not_mem_nil, or_false, not_or, decide_eq_true_eq] at hc
  obtain ⟨hdouble, hsingle, hopen, hclose, hopen', hclose'⟩ := hc
  simp only [next, hdouble, hsingle, hopen, hopen', hclose, hclose', or_self, if_false]

theorem next_quote (hc : c = '"' ∨ c = '\'') : (code depth).next c = quoted c false depth := by
  simp only [next, hc, if_true]

theorem next_left (h : closing? left = some right) :
    (code depth).next left = code (depth + 1) := by
  rcases closing?_eq_some_iff.mp h with ⟨rfl, _⟩ | ⟨rfl, _⟩ <;> rfl

theorem next_right (h : closing? left = some right) :
    (code (depth + 1)).next right = code depth := by
  rcases closing?_eq_some_iff.mp h with ⟨_, rfl⟩ | ⟨_, rfl⟩ <;> rfl

end ScanState

theorem cut_ne_nil (state : ScanState) (cs : List Char) : cut state cs ≠ [] := by
  cases cs with
  | nil => simp [cut]
  | cons c cs =>
      rw [cut]
      split
      · simp
      · split <;> simp

/-- A character that is no comma to cut at goes to the front of the first piece. -/
theorem cut_cons {c : Char} (h : ¬(c = ',' ∧ state = .code 0)) (cs : List Char) :
    cut state (c :: cs) = (cut (state.next c) cs).modifyHead (c :: ·) := by
  rw [cut, if_neg h]
  cases hcut : cut (state.next c) cs with
  | nil => exact absurd hcut (cut_ne_nil _ _)
  | cons piece pieces => rfl

theorem cut_quoted_append {quote : Char} {inside : List Char} (hquote : quote ≠ '\\')
    (hinside : isQuotable quote inside = true) (rest : List Char) :
    cut (.quoted quote false depth) (inside ++ quote :: rest) =
      (cut (.code depth) rest).modifyHead (inside ++ quote :: ·) := by
  fun_induction isQuotable quote inside with
  | case1 c cs ih =>
      rw [List.cons_append, cut_cons (by simp), List.cons_append,
        cut_cons (by simp [ScanState.next])]
      simp only [ScanState.next, if_true, ih hinside, List.modifyHead_modifyHead]
      rfl
  | case2 c cs hescape ih =>
      simp only [ne_eq, Bool.and_eq_true, decide_eq_true_eq] at hinside
      obtain ⟨⟨hbackslash, hother⟩, hcs⟩ := hinside
      rw [List.cons_append, cut_cons (by simp)]
      simp only [ScanState.next, hbackslash, hother, if_false, ih hcs, List.modifyHead_modifyHead]
      rfl
  | case3 =>
      rw [List.nil_append, cut_cons (by simp)]
      simp only [ScanState.next, hquote, if_false, if_true]
      rfl

/-- A balanced text belongs to one piece, unless it has commas and stands outside all brackets. -/
theorem cut_append (h : Balanced commas cs) (hdepth : commas = true → 0 < depth)
    (rest : List Char) :
    cut (.code depth) (cs ++ rest) = (cut (.code depth) rest).modifyHead (cs ++ ·) := by
  induction h generalizing depth rest with
  | nil => exact (congrFun List.modifyHead_id _).symm
  | @char commas c cs hc hcomma _ ih =>
      have hstay : ¬(c = ',' ∧ ScanState.code depth = .code 0) := by
        rintro ⟨rfl, hzero⟩
        cases hzero
        exact absurd (hdepth (hcomma rfl)) (Nat.lt_irrefl 0)
      rw [List.cons_append, cut_cons hstay, ScanState.next_of_isBare hc, ih hdepth,
        List.modifyHead_modifyHead]
      rfl
  | @quoted commas quote inside cs hquote hinside _ ih =>
      have hbackslash : quote ≠ '\\' := by rcases hquote with rfl | rfl <;> decide
      have hcomma : quote ≠ ',' := by rcases hquote with rfl | rfl <;> decide
      rw [List.cons_append, List.append_assoc, List.cons_append, cut_cons (by simp [hcomma]),
        ScanState.next_quote hquote, cut_quoted_append hbackslash hinside, ih hdepth]
      simp [List.modifyHead_modifyHead, Function.comp_def]
  | @group commas left right inside cs hclosing _ _ ihinside ih =>
      have hleft : left ≠ ',' := by
        rcases closing?_eq_some_iff.mp hclosing with ⟨rfl, _⟩ | ⟨rfl, _⟩ <;> decide
      rw [List.cons_append, List.append_assoc, List.cons_append, cut_cons (by simp [hleft]),
        ScanState.next_left hclosing, ihinside fun _ => Nat.succ_pos depth, cut_cons (by simp),
        ScanState.next_right hclosing, ih hdepth]
      simp [List.modifyHead_modifyHead, Function.comp_def]

end Commas

end SchemaMigration.ArgumentText
