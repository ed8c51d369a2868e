import SchemaMigration.Proofs.Schema.Grammar.Comment.Token

/-! # Reading with a comment exchanged

A comment that stands outside of strings and arguments is exchanged for blanks, or for another comment,
of the same length in bytes. Two readings, of the text before and after, go on side by side: as long as
both stand before the exchanged part, or both at one place behind it, a parser fails in both or gives
the same value in both, and leads to such places again. There is a rule for every way in which parsers
are put together.
-/

namespace SchemaMigration.Grammar

open SchemaMigration.Grammar.Parser
open Text (byteLength byteLength_append)

/-- Whether a text starts as blanks and comments do. -/
def StartsGap (cs : List Char) : Prop :=
  ∃ c rest, cs = c :: rest ∧ (c = ' ' ∨ c = '/')

/-- A comment, what takes its place, and the rest of the text behind them. The comment ends with its
line. What takes its place is as long, and a gap reaches over it too. -/
structure Exchange where
  body : List Char
  instead : List Char
  rest : List Char
  isComment : ∀ c ∈ body, isLineEnd c = false
  atLineEnd : ∀ c ∈ rest.head?, isLineEnd c = true
  startsGap : StartsGap instead
  sameLength : byteLength instead = byteLength ('/' :: '/' :: body)
  isSkipped : ∀ offset,
    skip false offset (instead ++ rest) = skip false (offset + byteLength instead) rest

/-! ## Skipped parts -/

section Skip

variable {body rest : List Char}

theorem skip_solid {ch : Char} {cs : List Char} (hgap : isGap ch = false)
    (hslash : ch = '/' → cs.head? ≠ some '/') (offset : Nat) :
    skip false offset (ch :: cs) = ⟨ch :: cs, offset⟩ := by
  rw [skip, if_neg (by simp [hgap])]
  rintro cs' rfl rfl
  exact hslash rfl rfl

theorem skip_gap {ch : Char} (hgap : isGap ch = true) (offset : Nat) (cs : List Char) :
    skip false offset (ch :: cs) = skip false (offset + ch.utf8Size) cs := by
  rw [skip, if_pos hgap]
  rintro cs' rfl
  cases hgap

theorem byteLength_slashes (cs : List Char) : byteLength ('/' :: '/' :: cs) = 2 + byteLength cs := by
  rw [byteLength, byteLength, ← Nat.add_assoc]
  rfl

/-- A gap reaches over a comment, up to the end of its line. -/
theorem skip_comment (hbody : ∀ c ∈ body, isLineEnd c = false)
    (hrest : ∀ c ∈ rest.head?, isLineEnd c = true) (offset : Nat) :
    skip false offset ('/' :: '/' :: (body ++ rest)) =
      skip false (offset + byteLength ('/' :: '/' :: body)) rest := by
  have hinside : ∀ offset,
      skip true offset (body ++ rest) = skip false (offset + byteLength body) rest := by
    induction body with
    | nil =>
        intro offset
        cases rest with
        | nil => rfl
        | cons c rest =>
            have hend : isLineEnd c = true := hrest c rfl
            have hgap : isGap c = true := isGap_of_isLineEnd hend
            have hslash : c ≠ '/' := by
              rintro rfl
              cases hend
            rw [List.nil_append, skip, hend, skip, if_pos hgap]
            · rfl
            · exact fun _ hc => absurd hc hslash
    | cons c body ih =>
        intro offset
        obtain ⟨hc, hbody⟩ := List.forall_mem_cons.mp hbody
        rw [List.cons_append, skip, hc, Bool.not_false, ih hbody, byteLength, Nat.add_assoc]
  rw [skip, hinside, Nat.add_assoc, byteLength_slashes]

theorem byteLength_replicate_space (n : Nat) : byteLength (List.replicate n ' ') = n := by
  induction n with
  | zero => rfl
  | succ n ih =>
      rw [List.replicate_succ, byteLength, ih, Nat.add_comm]
      rfl

theorem skip_spaces (n offset : Nat) (rest : List Char) :
    skip false offset (List.replicate n ' ' ++ rest) = skip false (offset + n) rest := by
  induction n generalizing offset with
  | zero => rfl
  | succ n ih =>
      have hblank : isGap ' ' = true := rfl
      rw [List.replicate_succ, List.cons_append, skip, if_pos hblank, ih, Nat.add_assoc,
        Nat.add_comm n]
      · rfl
      · exact fun _ hc => absurd hc (by decide)

end Skip

namespace Exchange

variable {E : Exchange}

/-- The text from the comment on. -/
def old (E : Exchange) : List Char :=
  '/' :: '/' :: (E.body ++ E.rest)

/-- The text from what takes the place of the comment on. -/
def new (E : Exchange) : List Char :=
  E.instead ++ E.rest

theorem startsGap_old (E : Exchange) : StartsGap E.old :=
  ⟨'/', _, rfl, .inr rfl⟩

theorem startsGap_new (E : Exchange) : StartsGap E.new := by
  obtain ⟨c, cs, heq, hc⟩ := E.startsGap
  exact ⟨c, cs ++ E.rest, by rw [new, heq, List.cons_append], hc⟩

theorem skip_new (E : Exchange) (offset : Nat) :
    skip false offset E.new = skip false offset E.old := by
  rw [new, old, skip_comment E.isComment E.atLineEnd, E.isSkipped, E.sameLength]

/-- A comment in the place of another. -/
def ofComment {body body' rest : List Char} (hbody : ∀ c ∈ body, isLineEnd c = false)
    (hbody' : ∀ c ∈ body', isLineEnd c = false) (hrest : ∀ c ∈ rest.head?, isLineEnd c = true)
    (hlength : byteLength body' = byteLength body) : Exchange where
  body := body
  instead := '/' :: '/' :: body'
  rest := rest
  isComment := hbody
  atLineEnd := hrest
  startsGap := ⟨'/', _, rfl, .inr rfl⟩
  sameLength := by rw [byteLength_slashes, byteLength_slashes, hlength]
  isSkipped := skip_comment hbody' hrest

/-- Spaces in the place of a comment. -/
def ofSpaces {body rest : List Char} (hbody : ∀ c ∈ body, isLineEnd c = false)
    (hrest : ∀ c ∈ rest.head?, isLineEnd c = true) : Exchange where
  body := body
  instead := List.replicate (2 + byteLength body) ' '
  rest := rest
  isComment := hbody
  atLineEnd := hrest
  startsGap := ⟨' ', List.replicate (1 + byteLength body) ' ', by
    rw [← List.replicate_succ, Nat.add_right_comm], .inl rfl⟩
  sameLength := by rw [byteLength_replicate_space, byteLength_slashes]
  isSkipped offset := by rw [byteLength_replicate_space, skip_spaces]

/-! ## Readings side by side -/

/-- Two cursors in the texts before and after: both before the exchanged part, at the same distance and
outside of strings and arguments, or both at one place. -/
inductive Twin (E : Exchange) : Cursor → Cursor → Prop
  | same (c : Cursor) : E.Twin c c
  | before {front : List Char} {offset : Nat} (h : Outside E.old (front ++ E.old)) :
      E.Twin ⟨front ++ E.old, offset⟩ ⟨front ++ E.new, offset⟩

variable {α β : Type} {c c' d d' : Cursor} {k l i : Nat}

theorem Twin.offset_eq (h : E.Twin c c') : c'.offset = c.offset := by
  cases h <;> rfl

/-- Two results are the same value at places side by side, at least some characters further on. -/
structure Match (E : Exchange) (i : Nat) (c c' : Cursor) (x y : α × Cursor) : Prop where
  value : y.1 = x.1
  twin : E.Twin x.2 y.2
  old : x.2.rest.length + i ≤ c.rest.length
  new : y.2.rest.length + i ≤ c'.rest.length

/-- Side by side, and within a number of characters before the end of each text, two parsers fail both
or give results that match. -/
def Mirrors (E : Exchange) (k l i : Nat) (p q : Parser α) : Prop :=
  ∀ c c' trail trail', E.Twin c c' → c.rest.length < k → c'.rest.length < l →
    Option.Rel (E.Match i c c') (p c trail).1 (q c' trail').1

variable {p q : Parser α} {f g : α → Parser β}

/-- Both fail, or both give one value at places side by side. -/
theorem Mirrors.outcome (h : E.Mirrors k l i p q) (htwin : E.Twin c c') (hk : c.rest.length < k)
    (hl : c'.rest.length < l) (trail trail' : Trail) :
    (∃ t t', p c trail = (none, t) ∧ q c' trail' = (none, t')) ∨
      ∃ a d d' t t', p c trail = (some (a, d), t) ∧ q c' trail' = (some (a, d'), t') ∧ E.Twin d d' ∧
        d.rest.length + i ≤ c.rest.length ∧ d'.rest.length + i ≤ c'.rest.length := by
  have hresult := h c c' trail trail' htwin hk hl
  revert hresult
  rcases p c trail with ⟨_ | ⟨a, d⟩, t⟩ <;> rcases q c' trail' with ⟨_ | ⟨b, d'⟩, t'⟩ <;>
    intro hresult <;> cases hresult
  · exact .inl ⟨t, t', rfl, rfl⟩
  next hmatch =>
    obtain ⟨rfl, hd, hold, hnew⟩ := hmatch
    exact .inr ⟨b, d, d', t, t', rfl, rfl, hd, hold, hnew⟩

theorem Mirrors.value_eq (h : E.Mirrors k l i p q) (htwin : E.Twin c c') (hk : c.rest.length < k)
    (hl : c'.rest.length < l) (trail trail' : Trail) :
    (p c trail).1.map Prod.fst = (q c' trail').1.map Prod.fst := by
  rcases h.outcome htwin hk hl trail trail' with ⟨_, _, hp, hq⟩ | ⟨_, _, _, _, _, hp, hq, -⟩
  · rw [hp, hq]
  · rw [hp, hq]
    rfl

theorem Mirrors.weaken (h : E.Mirrors k l i p q) : E.Mirrors k l 0 p q := by
  intro c c' trail trail' htwin hk hl
  rcases h.outcome htwin hk hl trail trail' with ⟨_, _, hp, hq⟩ | ⟨_, _, _, _, _, hp, hq, hd, hold, hnew⟩
  · rw [hp, hq]
    exact .none
  · rw [hp, hq]
    exact .some ⟨rfl, hd, (Nat.le_add_right _ i).trans hold, (Nat.le_add_right _ i).trans hnew⟩

theorem mirrors_pure (a : α) : E.Mirrors k l 0 (pure a) (pure a) :=
  fun _ _ _ _ htwin _ _ => .some ⟨rfl, htwin, Nat.le_refl _, Nat.le_refl _⟩

/-- What follows a part that takes at least some characters may be read nearer to the end. -/
theorem Mirrors.bind_behind (hp : E.Mirrors k l i p q) (k' l' : Nat)
    (hf : ∀ a, E.Mirrors k' l' 0 (f a) (g a)) (hk : k ≤ k' + i) (hl : l ≤ l' + i) :
    E.Mirrors k l i (p >>= f) (q >>= g) := by
  intro c c' trail trail' htwin hck hcl
  simp only [Bind.bind]
  rcases hp.outcome htwin hck hcl trail trail' with
    ⟨_, _, hp, hq⟩ | ⟨a, d, d', t, t', hp, hq, hd, hold, hnew⟩
  · rw [hp, hq]
    exact .none
  · rcases (hf a).outcome hd (by omega) (by omega) t t' with
      ⟨_, _, hf, hg⟩ | ⟨_, _, _, _, _, hf, hg, he, hold', hnew'⟩
    · simp only [hp, hq, hf, hg]
      exact .none
    · simp only [hp, hq, hf, hg]
      exact .some ⟨rfl, he, by dsimp only; omega, by dsimp only; omega⟩

theorem Mirrors.bind (hp : E.Mirrors k l i p q) (hf : ∀ a, E.Mirrors k l 0 (f a) (g a)) :
    E.Mirrors k l i (p >>= f) (q >>= g) :=
  hp.bind_behind k l hf (Nat.le_add_right _ _) (Nat.le_add_right _ _)

theorem Mirrors.symbol (h : E.Mirrors k l i p q) (s : Symbol) :
    E.Mirrors k l i (symbol s p) (symbol s q) := by
  intro c c' trail trail' htwin hk hl
  simp only [Parser.symbol]
  rcases h.outcome htwin hk hl trail trail' with ⟨_, _, hp, hq⟩ | ⟨_, _, _, _, _, hp, hq, hd, hold, hnew⟩
  · rw [hp, hq]
    exact .none
  · rw [hp, hq]
    exact .some ⟨rfl, hd, hold, hnew⟩

theorem mirrors_fail : E.Mirrors k l i (fail : Parser α) fail :=
  fun _ _ _ _ _ _ _ => .none

theorem Mirrors.orElse {p' q' : Parser α} (h : E.Mirrors k l i p q) (h' : E.Mirrors k l i p' q') :
    E.Mirrors k l i (orElse p p') (orElse q q') := by
  intro c c' trail trail' htwin hk hl
  simp only [Parser.orElse]
  rcases h.outcome htwin hk hl trail trail' with ⟨t, t', hp, hq⟩ | ⟨_, _, _, _, _, hp, hq, hd, hold, hnew⟩
  · rw [hp, hq]
    exact h' c c' t t' htwin hk hl
  · rw [hp, hq]
    exact .some ⟨rfl, hd, hold, hnew⟩

theorem mirrors_first {ps qs : List (Parser α)} (h : List.Forall₂ (E.Mirrors k l i) ps qs) :
    E.Mirrors k l i (first ps) (first qs) := by
  induction h with
  | nil => exact mirrors_fail
  | cons hp _ ih => exact hp.orElse ih

theorem Mirrors.optional (h : E.Mirrors k l i p q) : E.Mirrors k l 0 (optional p) (optional q) := by
  intro c c' trail trail' htwin hk hl
  simp only [Parser.optional]
  rcases h.weaken.outcome htwin hk hl trail trail' with
    ⟨_, _, hp, hq⟩ | ⟨_, _, _, _, _, hp, hq, hd, hold, hnew⟩
  · rw [hp, hq]
    exact .some ⟨rfl, htwin, Nat.le_refl _, Nat.le_refl _⟩
  · rw [hp, hq]
    exact .some ⟨rfl, hd, hold, hnew⟩

/-- The ranges that are noted are the same, as the offsets are. -/
theorem Mirrors.located (h : E.Mirrors k l i p q) : E.Mirrors k l i (located p) (located q) := by
  intro c c' trail trail' htwin hk hl
  simp only [Parser.located]
  rcases h.outcome htwin hk hl trail trail' with ⟨_, _, hp, hq⟩ | ⟨_, _, _, _, _, hp, hq, hd, hold, hnew⟩
  · rw [hp, hq]
    exact .none
  · rw [hp, hq]
    dsimp only
    rw [htwin.offset_eq, hd.offset_eq]
    exact .some ⟨rfl, hd, hold, hnew⟩

theorem mirrors_atEnd : E.Mirrors k l 0 atEnd atEnd := by
  intro c c' trail trail' htwin _ _
  cases htwin with
  | same =>
      unfold atEnd
      split
      · exact .some ⟨rfl, .same _, Nat.le_refl _, Nat.le_refl _⟩
      · exact .none
  | @before front offset h =>
      obtain ⟨ch, cs, hnew, -⟩ := E.startsGap_new
      simp only [atEnd, old, hnew, List.isEmpty_iff, List.append_eq_nil_iff, reduceCtorEq, and_false,
        if_false]
      exact .none

/-! ## Gaps -/

/-- A comment before the exchanged part ends before it, with its line. -/
theorem exists_comment {front more : List Char} (hmore : Outside E.old more)
    (hcut : afterToken? ('/' :: '/' :: (front ++ E.old)) = some more) :
    ∃ body lineEnd further, front = body ++ lineEnd :: further ∧ more = lineEnd :: (further ++ E.old) ∧
      (∀ c ∈ body, isLineEnd c = false) ∧ isLineEnd lineEnd = true := by
  obtain ⟨further, rfl⟩ := hmore.exists_append
  have hdrop : (front ++ E.old).dropWhile (fun c => !isLineEnd c) = further ++ E.old :=
    Option.some.inj hcut
  have hsplit := List.takeWhile_append_dropWhile (p := fun c => !isLineEnd c) (l := front ++ E.old)
  have hbody : ∀ c ∈ (front ++ E.old).takeWhile fun c => !isLineEnd c, isLineEnd c = false :=
    fun c hc => by simpa using List.mem_takeWhile_imp hc
  have hhead := head_dropWhile (p := fun c => !isLineEnd c) (front ++ E.old)
  rw [hdrop] at hsplit hhead
  rw [← List.append_assoc] at hsplit
  cases further with
  | nil => exact absurd hhead (by simp [old, isLineEnd])
  | cons lineEnd further =>
      refine ⟨_, lineEnd, further, (List.append_cancel_right hsplit).symm, rfl, hbody, ?_⟩
      simpa using hhead

/-- A slash before a comment belongs to it. -/
theorem exists_slash {front more : List Char} (hmore : Outside E.old more)
    (hcut : afterToken? ('/' :: (front ++ E.old)) = some more)
    (hhead : (front ++ E.old).head? = some '/') : ∃ front', front = '/' :: front' := by
  cases front with
  | nil =>
      obtain ⟨further, rfl⟩ := hmore.exists_append
      have hdrop : ('/' :: (E.body ++ E.rest)).dropWhile (fun c => !isLineEnd c) =
          further ++ E.old := Option.some.inj hcut
      have hlength := (List.dropWhile_sublist (fun c => !isLineEnd c)
        (l := '/' :: (E.body ++ E.rest))).length_le
      rw [hdrop, old] at hlength
      simp at hlength
      omega
  | cons ch front =>
      cases hhead
      exact ⟨front, rfl⟩

/-- A gap ends before the exchanged part in both texts, or reaches over it in both. -/
theorem twin_skip {cs : List Char} (h : Outside E.old cs) {front : List Char}
    (hfront : cs = front ++ E.old) (offset : Nat) :
    E.Twin (skip false offset (front ++ E.old)) (skip false offset (front ++ E.new)) := by
  induction h generalizing front offset with
  | here =>
      -- The gap has come to the exchanged part, and reaches over it in both texts.
      obtain rfl : front = [] := by simpa using hfront
      rw [List.nil_append, List.nil_append, E.skip_new]
      exact .same _
  | @behind cs more hcut hmore ih =>
      have hwhole : Outside E.old cs := .behind hcut hmore
      subst hfront
      cases front with
      | nil =>
          obtain ⟨token, htoken, heq⟩ := exists_token hcut
          obtain ⟨further, rfl⟩ := hmore.exists_append
          have hpos := List.length_pos_iff.mpr htoken
          have hlength := congrArg List.length heq
          simp only [List.nil_append, List.length_append] at hlength
          omega
      | cons ch front =>
          -- A blank is skipped alone, a comment with its line, and all else ends the gap.
          by_cases hgap : isGap ch = true
          · have hplain : IsPlain ch := by
              refine ⟨?_, ?_, ?_⟩ <;> (rintro rfl; cases hgap)
            rw [List.cons_append, afterToken?_of_plain hplain] at hcut
            cases hcut
            rw [List.cons_append, List.cons_append, skip_gap hgap, skip_gap hgap]
            exact ih rfl _
          · by_cases hcomment : ch = '/' ∧ (front ++ E.old).head? = some '/'
            · obtain ⟨rfl, hhead⟩ := hcomment
              obtain ⟨front, rfl⟩ := exists_slash hmore hcut hhead
              obtain ⟨body, lineEnd, further, rfl, rfl, hbody, hend⟩ := exists_comment hmore hcut
              have hstop : ∀ cs, ∀ c ∈ (lineEnd :: (further ++ cs)).head?, isLineEnd c = true := by
                rintro cs c ⟨⟩
                exact hend
              simp only [List.cons_append, List.append_assoc]
              rw [skip_comment hbody (hstop _), skip_comment hbody (hstop _)]
              exact @ih (lineEnd :: further) rfl _
            · have hsolid : ∀ cs, ch = '/' → (front ++ cs).head? ≠ some '/' := by
                rintro cs rfl
                cases front with
                | nil => exact absurd ⟨rfl, rfl⟩ hcomment
                | cons d front => exact fun h => hcomment ⟨rfl, h⟩
              rw [List.cons_append, List.cons_append, skip_solid (by simpa using hgap) (hsolid _),
                skip_solid (by simpa using hgap) (hsolid _)]
              exact .before hwhole

theorem Twin.pastGap (h : E.Twin c c') : E.Twin c.pastGap c'.pastGap := by
  cases h with
  | same => exact .same _
  | before h => exact twin_skip h rfl _

theorem Mirrors.afterGap {f g : Unit → Parser α} (h : E.Mirrors k l i (f ()) (g ())) :
    E.Mirrors k l i (gap >>= f) (gap >>= g) := by
  intro c c' trail trail' htwin hk hl
  have hold : c.pastGap.rest.length ≤ c.rest.length := c.rest_pastGap ▸ length_afterGap_le _
  have hnew : c'.pastGap.rest.length ≤ c'.rest.length := c'.rest_pastGap ▸ length_afterGap_le _
  have hrun : (gap >>= f) c trail = f () c.pastGap trail := rfl
  have hrun' : (gap >>= g) c' trail' = g () c'.pastGap trail' := rfl
  rw [hrun, hrun']
  rcases h.outcome htwin.pastGap (hold.trans_lt hk) (hnew.trans_lt hl) trail trail' with
    ⟨_, _, hf, hg⟩ | ⟨_, _, _, _, _, hf, hg, hd, hold', hnew'⟩
  · rw [hf, hg]
    exact .none
  · rw [hf, hg]
    exact .some ⟨rfl, hd, hold'.trans hold, hnew'.trans hnew⟩

theorem Mirrors.gapThen (h : E.Mirrors k l i p q) : E.Mirrors k l i (gapThen p) (gapThen q) :=
  h.afterGap

/-! ## Repetition -/

/-- Items that take characters are as many in both texts, however many are looked for at most. -/
theorem Mirrors.further (h : E.Mirrors k l 1 p q) {n m : Nat} (htwin : E.Twin c c')
    (hk : c.rest.length < k) (hl : c'.rest.length < l) (hn : c.rest.length < n)
    (hm : c'.rest.length < m) (trail trail' : Trail) :
    E.Match 0 c c' (further p n c trail).1 (further q m c' trail').1 := by
  induction n generalizing m c c' trail trail' with
  | zero => exact absurd hn (Nat.not_lt_zero _)
  | succ n ih =>
      obtain ⟨m, rfl⟩ : ∃ m', m = m' + 1 := ⟨m - 1, by omega⟩
      have hitem : E.Mirrors k l 1 (gap >>= fun _ => p) (gap >>= fun _ => q) := h.gapThen
      simp only [Parser.further]
      rcases hitem.outcome htwin hk hl trail trail' with
        ⟨_, _, hp, hq⟩ | ⟨a, d, d', t, t', hp, hq, hd, hold, hnew⟩
      · rw [hp, hq]
        exact ⟨rfl, htwin, Nat.le_refl _, Nat.le_refl _⟩
      · rw [hp, hq]
        have hrest := ih hd (by omega) (by omega) (by omega) (by omega) t t' (m := m)
        exact ⟨congrArg (a :: ·) hrest.value, hrest.twin, hrest.old.trans (Nat.le_of_lt hold),
          hrest.new.trans (Nat.le_of_lt hnew)⟩

theorem Mirrors.many (h : E.Mirrors k l 1 p q) : E.Mirrors k l 0 (many p) (many q) := by
  intro c c' trail trail' htwin hk hl
  simp only [Parser.many]
  rcases h.outcome htwin hk hl trail trail' with
    ⟨_, _, hp, hq⟩ | ⟨a, d, d', t, t', hp, hq, hd, hold, hnew⟩
  · rw [hp, hq]
    exact .some ⟨rfl, htwin, Nat.le_refl _, Nat.le_refl _⟩
  · rw [hp, hq]
    have hrest := h.further hd (by omega) (by omega) (Nat.lt_succ_self _) (Nat.lt_succ_self _) t t'
    exact .some ⟨congrArg (a :: ·) hrest.value, hrest.twin, hrest.old.trans (Nat.le_of_lt hold),
      hrest.new.trans (Nat.le_of_lt hnew)⟩

end Exchange

end SchemaMigration.Grammar
