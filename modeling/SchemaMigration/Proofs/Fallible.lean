import Mathlib.Data.List.Forall2

/-! # Computations that may fail

When a computation succeeds, so do its parts, and their results are the ones it is made of.
-/

namespace SchemaMigration

variable {ε ε' α β : Type}

theorem ok_eq_ok_iff {a b : α} : (.ok a : Except ε α) = .ok b ↔ b = a := by
  rw [Except.ok.injEq, eq_comm]

theorem pure_eq_ok_iff {a b : α} : (pure a : Except ε α) = .ok b ↔ b = a :=
  ok_eq_ok_iff

theorem bind_eq_ok_iff {x : Except ε α} {f : α → Except ε β} {b : β} :
    x >>= f = .ok b ↔ ∃ a, x = .ok a ∧ f a = .ok b := by
  cases x <;> simp [bind, Except.bind]

theorem map_eq_ok_iff {x : Except ε α} {f : α → β} {b : β} :
    x.map f = .ok b ↔ ∃ a, x = .ok a ∧ f a = b := by
  cases x <;> simp [Except.map]

theorem mapError_eq_ok_iff {x : Except ε α} {f : ε → ε'} {a : α} :
    x.mapError f = .ok a ↔ x = .ok a := by
  cases x <;> simp [Except.mapError]

/-- What is known of the result of a computation tells that there is one. -/
theorem toOption_map_eq_some_iff {x : Except ε α} {f : α → β} {b : β} :
    x.toOption.map f = some b ↔ ∃ a, x = .ok a ∧ f a = b := by
  cases x <;> simp [Except.toOption]

/-- A computation over a list succeeds when it does at every member, in order. -/
theorem mapM_eq_ok_iff {f : α → Except ε β} {as : List α} {bs : List β} :
    as.mapM f = .ok bs ↔ List.Forall₂ (fun a b => f a = .ok b) as bs := by
  induction as generalizing bs with
  | nil => simp [pure, Except.pure, eq_comm]
  | cons a as ih =>
      simp only [List.mapM_cons, bind_eq_ok_iff, pure_eq_ok_iff, ih, List.forall₂_cons_left_iff]
      constructor
      · rintro ⟨b, hb, bs, hbs, rfl⟩
        exact ⟨b, bs, hb, hbs, rfl⟩
      · rintro ⟨b, bs, hb, hbs, rfl⟩
        exact ⟨b, hb, bs, hbs, rfl⟩

/-- When the members of a list are each computed from what stands for them, the whole list is. -/
theorem mapM_eq_ok_of_forall₂ {γ δ : Type} {f : β → Except ε γ} {g : γ → δ} {k : α → δ}
    {as : List α} {bs : List β}
    (h : List.Forall₂ (fun a b => ∃ c, f b = .ok c ∧ g c = k a) as bs) :
    ∃ cs, bs.mapM f = .ok cs ∧ cs.map g = as.map k := by
  induction h with
  | nil => exact ⟨[], rfl, rfl⟩
  | cons hhead _ ih =>
      obtain ⟨c, hc, hg⟩ := hhead
      obtain ⟨cs, hcs, hgs⟩ := ih
      refine ⟨c :: cs, ?_, by rw [List.map_cons, List.map_cons, hg, hgs]⟩
      rw [List.mapM_cons, hc, hcs]
      rfl

/-- What every result has in common with what it is computed from, the lists have. -/
theorem map_eq_of_mapM_eq_ok {γ : Type} {f : α → Except ε β} {g : β → γ} {k : α → γ}
    {as : List α} {bs : List β} (h : as.mapM f = .ok bs) (hf : ∀ a b, f a = .ok b → g b = k a) :
    bs.map g = as.map k := by
  have hrel := mapM_eq_ok_iff.mp h
  clear h
  induction hrel with
  | nil => rfl
  | cons hhead _ ih => rw [List.map_cons, List.map_cons, hf _ _ hhead, ih]

/-- When members are changed and every result changes with them, the whole list does. -/
theorem mapM_map_eq_ok {f : α → Except ε β} {g : α → α} {g' : β → β} {as : List α} {bs : List β}
    (h : as.mapM f = .ok bs) (hf : ∀ a b, f a = .ok b → f (g a) = .ok (g' b)) :
    (as.map g).mapM f = .ok (bs.map g') := by
  rw [mapM_eq_ok_iff, List.forall₂_map_left_iff, List.forall₂_map_right_iff]
  exact (mapM_eq_ok_iff.mp h).imp hf

/-- A computation over a list succeeds when it does at every member. -/
theorem exists_mapM_eq_ok {f : α → Except ε β} {as : List α} (h : ∀ a ∈ as, ∃ b, f a = .ok b) :
    ∃ bs, as.mapM f = .ok bs := by
  induction as with
  | nil => exact ⟨[], rfl⟩
  | cons a as ih =>
      obtain ⟨b, hb⟩ := h a List.mem_cons_self
      obtain ⟨bs, hbs⟩ := ih fun a ha => h a (List.mem_cons_of_mem _ ha)
      refine ⟨b :: bs, ?_⟩
      rw [List.mapM_cons, hb, hbs]
      rfl

/-! ## Failures -/

theorem bind_eq_error_iff {x : Except ε α} {f : α → Except ε β} {e : ε} :
    x >>= f = .error e ↔ x = .error e ∨ ∃ a, x = .ok a ∧ f a = .error e := by
  cases x <;> simp [bind, Except.bind]

theorem map_eq_error_iff {x : Except ε α} {f : α → β} {e : ε} : x.map f = .error e ↔ x = .error e := by
  cases x <;> simp [Except.map]

theorem mapError_eq_error_iff {x : Except ε α} {f : ε → ε'} {e' : ε'} :
    x.mapError f = .error e' ↔ ∃ e, x = .error e ∧ f e = e' := by
  cases x <;> simp [Except.mapError]

/-- A computation over a list fails with the first member at which it does. -/
theorem mapM_eq_error_iff {f : α → Except ε β} {as : List α} {e : ε} :
    as.mapM f = .error e ↔ ∃ before a after bs, as = before ++ a :: after ∧
      before.mapM f = .ok bs ∧ f a = .error e := by
  induction as with
  | nil => simp [pure, Except.pure]
  | cons a as ih =>
      simp only [List.mapM_cons, bind_eq_error_iff, pure, Except.pure, reduceCtorEq, and_false,
        exists_false, or_false, ih]
      constructor
      · rintro (hhead | ⟨b, hb, before, c, after, bs, rfl, hbefore, hc⟩)
        · exact ⟨[], a, as, [], rfl, rfl, hhead⟩
        · refine ⟨a :: before, c, after, b :: bs, rfl, ?_, hc⟩
          rw [List.mapM_cons, hb, hbefore]
          rfl
      · rintro ⟨before, c, after, bs, heq, hbefore, hc⟩
        cases before with
        | nil =>
            cases heq
            exact .inl hc
        | cons d before =>
            cases heq
            obtain ⟨b, hb, bs, hbs, rfl⟩ : ∃ b, f a = .ok b ∧ ∃ bs', before.mapM f = .ok bs' ∧
                bs = b :: bs' := by
              simpa only [List.mapM_cons, bind_eq_ok_iff, pure_eq_ok_iff] using hbefore
            exact .inr ⟨b, hb, before, c, after, bs, rfl, hbs, hc⟩

/-! ## Lists of results -/

theorem exists_of_mem_left {rel : α → β → Prop} {as : List α} {bs : List β}
    (h : List.Forall₂ rel as bs) {a : α} (ha : a ∈ as) : ∃ b ∈ bs, rel a b := by
  induction h with
  | nil => simp at ha
  | @cons c b as bs hrel _ ih =>
      rcases List.mem_cons.mp ha with rfl | ha
      · exact ⟨b, List.mem_cons_self, hrel⟩
      · obtain ⟨b, hb, hrel⟩ := ih ha
        exact ⟨b, List.mem_cons_of_mem _ hb, hrel⟩

theorem exists_of_mem_right {rel : α → β → Prop} {as : List α} {bs : List β}
    (h : List.Forall₂ rel as bs) {b : β} (hb : b ∈ bs) : ∃ a ∈ as, rel a b :=
  exists_of_mem_left h.flip hb

/-- What is related in order may be shown to be otherwise related, knowing what is in the list. -/
theorem forall₂_imp_of_mem {rel rel' : α → β → Prop} {as : List α} {bs : List β}
    (h : List.Forall₂ rel as bs) (himp : ∀ a ∈ as, ∀ b, rel a b → rel' a b) :
    List.Forall₂ rel' as bs := by
  refine ((List.forall₂_and_left as bs).mpr ⟨fun a ha => ha, h⟩).imp ?_
  rintro a b ⟨ha, hrel⟩
  exact himp a ha b hrel

end SchemaMigration
