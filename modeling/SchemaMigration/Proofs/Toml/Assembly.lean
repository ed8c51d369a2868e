import SchemaMigration.Proofs.Toml.Table

/-! # A text in a section

A text under a header stays as it is while a document is put together: entries and headers that
would change it are refused, and all others do the same whatever the text is.
-/

namespace SchemaMigration.Toml

open Table (put putAll changeAt openTable appendTable)

variable {key k inner outer : String} {R : Value → Value → Prop} {f : Table → Option Table}
variable {isOpen : Bool} {path : List String} {value : Value} {w v : String}
variable {entries before after : List (List String × Value)} {t t' : Table}

/-! ## Changes at a key -/

/-- A change of tables that reads and sets the value of one key: where the value is the same, it
sets the same value, or refuses. -/
def ActsAt (key : String) (f : Table → Option Table) : Prop :=
  ∀ t u : Table, u.lookup key = t.lookup key →
    ∃ set : Option Value, f t = set.map (t.set key) ∧ f u = set.map (u.set key)

theorem put_cons (key next : String) :
    put value isOpen (key :: next :: path) t =
      match t.lookup key with
      | none =>
        (put value true (next :: path) []).map fun sub => t ++ [(key, .table .dotted sub)]
      | some (.table .dotted sub) =>
        (put value true (next :: path) sub).map fun sub => t.set key (.table .dotted sub)
      | some (.table .implied sub) =>
        (put value false (next :: path) sub).map fun sub => t.set key (.table .implied sub)
      | some (.tables ts) =>
        (Table.changeLast (put value false (next :: path)) ts).map fun ts => t.set key (.tables ts)
      | some _ => none := by
  cases isOpen <;> rfl

/-- A value that is made anew is given to a new key in the same way as to an old one. -/
theorem map_append_eq {α : Type} {o : Option α} {g : α → Value} (h : t.lookup key = none) :
    (o.map fun a => t ++ [(key, g a)]) = (o.map g).map (t.set key) := by
  simp [Option.map_map, Function.comp_def, Table.set_of_lookup_eq_none h]

theorem map_set_eq {α : Type} {o : Option α} {g : α → Value} :
    (o.map fun a => t.set key (g a)) = (o.map g).map (t.set key) := by
  simp [Option.map_map, Function.comp_def]

theorem actsAt_put : ActsAt key (put value isOpen (key :: path)) := by
  intro t u hu
  cases path with
  | nil =>
      simp only [put, hu]
      cases h : t.lookup key with
      | none =>
          rw [h] at hu
          refine ⟨if isOpen then some value else none, ?_⟩
          cases isOpen <;>
            simp [Table.set_of_lookup_eq_none h, Table.set_of_lookup_eq_none hu]
      | some a => exact ⟨none, by simp⟩
  | cons next path =>
      rw [put_cons, put_cons, hu]
      cases h : t.lookup key with
      | none => exact ⟨_, map_append_eq h, map_append_eq (hu.trans h)⟩
      | some a =>
          cases a with
          | table kind sub =>
              cases kind with
              | dotted => exact ⟨_, map_set_eq, map_set_eq⟩
              | implied => exact ⟨_, map_set_eq, map_set_eq⟩
              | _ => exact ⟨none, rfl, rfl⟩
          | tables => exact ⟨_, map_set_eq, map_set_eq⟩
          | _ => exact ⟨none, rfl, rfl⟩

theorem actsAt_changeAt : ActsAt key (changeAt f (key :: path)) := by
  intro t u hu
  rw [changeAt, changeAt, hu]
  cases h : t.lookup key with
  | none => exact ⟨_, map_append_eq h, map_append_eq (hu.trans h)⟩
  | some a =>
      cases a with
      | table kind sub =>
          cases kind with
          | inline => exact ⟨none, rfl, rfl⟩
          | _ => exact ⟨_, map_set_eq, map_set_eq⟩
      | tables => exact ⟨_, map_set_eq, map_set_eq⟩
      | _ => exact ⟨none, rfl, rfl⟩

theorem actsAt_openTable : ActsAt key (openTable entries key) := by
  intro t u hu
  rw [openTable, openTable, hu]
  cases h : t.lookup key with
  | none => exact ⟨_, map_append_eq h, map_append_eq (hu.trans h)⟩
  | some a =>
      cases a with
      | table kind sub =>
          cases kind with
          | implied => exact ⟨_, map_set_eq, map_set_eq⟩
          | _ => exact ⟨none, rfl, rfl⟩
      | _ => exact ⟨none, rfl, rfl⟩

theorem actsAt_appendTable : ActsAt key (appendTable entries key) := by
  intro t u hu
  rw [appendTable, appendTable, hu]
  cases h : t.lookup key with
  | none => exact ⟨_, map_append_eq h, map_append_eq (hu.trans h)⟩
  | some a =>
      cases a with
      | tables => exact ⟨_, map_set_eq, map_set_eq⟩
      | _ => exact ⟨none, rfl, rfl⟩

/-! ## Changes that keep a difference -/

/-- A change of tables that, when it changes one of two tables that differ at a key, changes the
other one alike. -/
def Preserves (key : String) (R : Value → Value → Prop) (f : Table → Option Table) : Prop :=
  ∀ t u t', DiffersAt key R t u → f t = some t' → ∃ u', f u = some u' ∧ DiffersAt key R t' u'

theorem ActsAt.preserves (h : ActsAt k f) (hk : k ≠ key) : Preserves key R f := by
  intro t u t' hdiffers ht
  obtain ⟨set, hset, hset'⟩ := h t u (hdiffers.lookup_of_ne hk)
  obtain ⟨v, rfl, rfl⟩ := Option.map_eq_some_iff.mp (hset.symm.trans ht)
  exact ⟨u.set k v, hset', hdiffers.set_of_ne hk v⟩

/-- A change at the key itself keeps the difference when it is refused there. -/
theorem ActsAt.preserves_of_refuses (h : ActsAt k f)
    (hrefuses : ∀ t a b, R a b → t.lookup key = some a → k = key → f t = none) :
    Preserves key R f := by
  by_cases hk : k = key
  · intro t u t' hdiffers ht
    obtain ⟨a, b, ha, -, hab⟩ := hdiffers.exists_lookup
    rw [hrefuses t a b hab ha hk] at ht
    cases ht
  · exact h.preserves hk

theorem preserves_foldlM {α : Type} {step : Table → α → Option Table} {xs : List α}
    (h : ∀ x ∈ xs, Preserves key R (step · x)) : Preserves key R (xs.foldlM step) := by
  induction xs with
  | nil =>
      intro t u t' hdiffers ht
      cases ht
      exact ⟨u, rfl, hdiffers⟩
  | cons x xs ih =>
      intro t u t' hdiffers ht
      simp only [List.foldlM_cons, Option.bind_eq_bind, Option.bind_eq_some_iff] at ht ⊢
      obtain ⟨t₁, ht₁, ht'⟩ := ht
      obtain ⟨u₁, hu₁, hdiffers₁⟩ := h x List.mem_cons_self t u t₁ hdiffers ht₁
      obtain ⟨u', hu', hdiffers'⟩ :=
        ih (fun y hy => h y (List.mem_cons_of_mem x hy)) t₁ u₁ t' hdiffers₁ ht'
      exact ⟨u', ⟨u₁, hu₁, hu'⟩, hdiffers'⟩

/-- A value that neither a dotted key nor another header of its own adds anything to. -/
def IsComplete (a : Value) : Prop :=
  (∃ s, a = .string s) ∨ ∃ t, a = .table .explicit t

section Complete

variable (hR : ∀ a b, R a b → IsComplete a)
include hR

theorem preserves_put : Preserves key R (put value isOpen path) := by
  cases path with
  | nil =>
      intro t u t' _ ht
      cases ht
  | cons k path =>
      refine actsAt_put.preserves_of_refuses ?_
      rintro t a b hab ha rfl
      cases path with
      | nil => simp [put, ha]
      | cons =>
          rw [put_cons, ha]
          rcases hR a b hab with ⟨_, rfl⟩ | ⟨_, rfl⟩ <;> rfl

theorem preserves_putAll : Preserves key R (putAll entries) :=
  preserves_foldlM fun _ _ => preserves_put hR

theorem preserves_openTable : Preserves key R (openTable entries k) := by
  refine actsAt_openTable.preserves_of_refuses ?_
  rintro t a b hab ha rfl
  rw [openTable, ha]
  rcases hR a b hab with ⟨_, rfl⟩ | ⟨_, rfl⟩ <;> rfl

theorem preserves_appendTable : Preserves key R (appendTable entries k) := by
  refine actsAt_appendTable.preserves_of_refuses ?_
  rintro t a b hab ha rfl
  rw [appendTable, ha]
  rcases hR a b hab with ⟨_, rfl⟩ | ⟨_, rfl⟩ <;> rfl

end Complete

/-! ## A text under a header -/

/-- One text in place of another. -/
def AreTexts (w v : String) (a b : Value) : Prop :=
  a = .string w ∧ b = .string v

/-- Tables under headers that differ in the text of a key. -/
def AreSections (inner w v : String) (a b : Value) : Prop :=
  ∃ t u, a = .table .explicit t ∧ b = .table .explicit u ∧ DiffersAt inner (AreTexts w v) t u

theorem AreTexts.isComplete (a b : Value) (h : AreTexts w v a b) : IsComplete a :=
  .inl ⟨w, h.1⟩

theorem AreSections.isComplete (a b : Value) (h : AreSections inner w v a b) : IsComplete a := by
  obtain ⟨t, -, ha, -, -⟩ := h
  exact .inr ⟨t, ha⟩

theorem preserves_changeAt_texts (hf : Preserves inner (AreTexts w v) f) :
    Preserves inner (AreTexts w v) (changeAt f path) := by
  cases path with
  | nil => exact hf
  | cons k path =>
      refine actsAt_changeAt.preserves_of_refuses ?_
      rintro t a b ⟨rfl, -⟩ ha rfl
      rw [changeAt, ha]

theorem preserves_changeAt_sections (hinner : Preserves inner (AreTexts w v) f)
    (houter : Preserves outer (AreSections inner w v) f) :
    Preserves outer (AreSections inner w v) (changeAt f path) := by
  cases path with
  | nil => exact houter
  | cons k path =>
      by_cases hk : k = outer
      · subst hk
        intro t u t' hdiffers ht
        obtain ⟨-, -, ha, hb, sub, sub', rfl, rfl, hsub⟩ := hdiffers.exists_lookup
        simp only [changeAt, ha, hb, reduceCtorEq, if_false, Option.map_eq_some_iff] at ht ⊢
        obtain ⟨s, hs, rfl⟩ := ht
        obtain ⟨s', hs', hdiffers'⟩ := preserves_changeAt_texts hinner sub sub' s hsub hs
        exact ⟨_, ⟨s', hs', rfl⟩, hdiffers.set ⟨s, s', rfl, rfl, hdiffers'⟩⟩
      · exact actsAt_changeAt.preserves hk

theorem preserves_addTo (s : Section) : Preserves outer (AreSections inner w v) s.addTo := by
  unfold Section.addTo
  cases s.path.reverse with
  | nil =>
      intro t u t' _ ht
      cases ht
  | cons k parents =>
      apply preserves_changeAt_sections
      · split
        · exact preserves_appendTable AreTexts.isComplete
        · exact preserves_openTable AreTexts.isComplete
      · split
        · exact preserves_appendTable AreSections.isComplete
        · exact preserves_openTable AreSections.isComplete

/-- The entries of a section differ from the one that gives the text on. -/
theorem putAll_differs (h : putAll (before ++ ([inner], .string w) :: after) t = some t') :
    ∃ u', putAll (before ++ ([inner], .string v) :: after) t = some u' ∧
      DiffersAt inner (AreTexts w v) t' u' := by
  simp only [putAll, List.foldlM_append, List.foldlM_cons, Option.bind_eq_bind,
    Option.bind_eq_some_iff] at h ⊢
  obtain ⟨t₁, ht₁, t₂, ht₂, ht'⟩ := h
  have hnone : t₁.lookup inner = none := by
    by_contra hsome
    simp [put, hsome] at ht₂
  have hput (s : String) :
      put (.string s) true [inner] t₁ = some (t₁ ++ [(inner, .string s)]) := by
    simp [put, hnone]
  cases (hput w).symm.trans ht₂
  obtain ⟨u', hu', hdiffers⟩ := preserves_putAll AreTexts.isComplete _ _ _
    (DiffersAt.of_append hnone ⟨rfl, rfl⟩) ht'
  exact ⟨u', ⟨t₁, ht₁, _, hput v, hu'⟩, hdiffers⟩

theorem openTable_differs
    (h : openTable (before ++ ([inner], .string w) :: after) outer t = some t') :
    ∃ u', openTable (before ++ ([inner], .string v) :: after) outer t = some u' ∧
      DiffersAt outer (AreSections inner w v) t' u' := by
  unfold openTable at h ⊢
  cases hlookup : t.lookup outer with
  | none =>
      simp only [hlookup, Option.map_eq_some_iff] at h ⊢
      obtain ⟨sub, hsub, rfl⟩ := h
      obtain ⟨sub', hsub', hdiffers⟩ := putAll_differs hsub
      exact ⟨_, ⟨sub', hsub', rfl⟩, .of_append hlookup ⟨sub, sub', rfl, rfl, hdiffers⟩⟩
  | some a =>
      rw [hlookup] at h
      cases a with
      | table kind old =>
          cases kind with
          | implied =>
              obtain ⟨sub, hsub, rfl⟩ := Option.map_eq_some_iff.mp h
              obtain ⟨sub', hsub', hdiffers⟩ := putAll_differs hsub
              exact ⟨_, Option.map_eq_some_iff.mpr ⟨sub', hsub', rfl⟩,
                (DiffersAt.refl_of_lookup hlookup).set ⟨sub, sub', rfl, rfl, hdiffers⟩⟩
          | _ => cases h
      | _ => cases h

/-- Documents that are the same but for the text of one entry under a header of one part are put
together alike, and their tables are the same but for this text. -/
theorem assemble_differs {front back : List Section}
    (h : assemble entries (front ++ ⟨false, [outer], before ++ ([inner], .string w) :: after⟩ ::
      back) = some t) :
    ∃ u, assemble entries (front ++ ⟨false, [outer], before ++ ([inner], .string v) :: after⟩ ::
      back) = some u ∧ DiffersAt outer (AreSections inner w v) t u := by
  simp only [assemble, List.foldlM_append, List.foldlM_cons, Option.bind_eq_bind,
    Option.bind_eq_some_iff] at h ⊢
  obtain ⟨root, hroot, t₁, ht₁, t₂, ht₂, ht⟩ := h
  obtain ⟨u₂, hu₂, hdiffers₂⟩ := openTable_differs ht₂
  obtain ⟨u, hu, hdiffers⟩ :=
    preserves_foldlM (fun s _ => preserves_addTo s) t₂ u₂ t hdiffers₂ ht
  exact ⟨u, ⟨root, hroot, t₁, ht₁, u₂, hu₂, hu⟩, hdiffers⟩

end SchemaMigration.Toml
