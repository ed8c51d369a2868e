import Mathlib.Data.List.Forall2
import SchemaMigration.Toml.Value

/-! # Tables that differ at one key

Two documents that are the same but for one text have the same tables, but for that text: whatever
is put into the tables afterwards is put into both or into neither. Taken of a document and itself,
this says that a text is never replaced once it is there.
-/

namespace SchemaMigration.Toml

/-! ## Keys -/

namespace Table

variable {key : String} {t : Table}

theorem lookup_eq_none_iff : t.lookup key = none ↔ key ∉ t.map Prod.fst := by
  simp only [List.lookup_eq_none_iff, List.mem_map, not_exists, not_and, bne_iff_ne]
  exact forall₂_congr fun _ _ => ne_comm

theorem any_key : (t.any fun entry => entry.1 == key) = decide (key ∈ t.map Prod.fst) := by
  rw [Bool.eq_iff_iff]
  simp

theorem set_of_lookup_eq_none (h : t.lookup key = none) (v : Value) :
    t.set key v = t ++ [(key, v)] := by
  rw [set, any_key, decide_eq_false (lookup_eq_none_iff.mp h)]
  rfl

end Table

/-! ## Tables that differ -/

/-- Tables with the same keys, in the same order, and the same values, except under one key that
they have, where the values are related. -/
structure DiffersAt (key : String) (R : Value → Value → Prop) (t u : Table) : Prop where
  hasKey : key ∈ t.map Prod.fst
  entries : List.Forall₂
    (fun e f => e.1 = key ∧ f.1 = key ∧ R e.2 f.2 ∨ e.1 ≠ key ∧ f = e) t u

namespace DiffersAt

variable {key k : String} {R S : Value → Value → Prop} {t u : Table} {a b v : Value}

theorem map_fst (h : DiffersAt key R t u) : u.map Prod.fst = t.map Prod.fst := by
  obtain ⟨-, hentries⟩ := h
  induction hentries with
  | nil => rfl
  | cons hhead _ ih =>
      rcases hhead with ⟨hleft, hright, -⟩ | ⟨-, rfl⟩
      · rw [List.map_cons, List.map_cons, hleft, hright, ih]
      · rw [List.map_cons, List.map_cons, ih]

theorem lookup_of_ne (h : DiffersAt key R t u) (hk : k ≠ key) : u.lookup k = t.lookup k := by
  obtain ⟨-, hentries⟩ := h
  induction hentries with
  | nil => rfl
  | @cons e f _ _ hhead _ ih =>
      obtain ⟨l, a⟩ := e
      obtain ⟨m, b⟩ := f
      rcases hhead with ⟨rfl, rfl, -⟩ | ⟨-, heq⟩
      · simp only [List.lookup_cons, beq_eq_false_iff_ne.mpr hk, ih]
      · simp only [heq, List.lookup_cons, ih]

theorem exists_lookup (h : DiffersAt key R t u) :
    ∃ a b, t.lookup key = some a ∧ u.lookup key = some b ∧ R a b := by
  obtain ⟨hkey, hentries⟩ := h
  induction hentries with
  | nil => cases hkey
  | @cons e f _ _ hhead _ ih =>
      obtain ⟨l, a⟩ := e
      obtain ⟨m, b⟩ := f
      rcases hhead with ⟨rfl, rfl, hab⟩ | ⟨hne, heq⟩
      · exact ⟨a, b, by simp, by simp, hab⟩
      · have hkey' : key ≠ l := Ne.symm hne
        simp only [List.map_cons, List.mem_cons, hkey', false_or] at hkey
        simpa only [heq, List.lookup_cons, beq_eq_false_iff_ne.mpr hkey'] using ih hkey

theorem refl_of_lookup (h : t.lookup key = some a) : DiffersAt key (· = ·) t t := by
  refine ⟨?_, List.forall₂_same.mpr ?_⟩
  · by_contra hkey
    rw [Table.lookup_eq_none_iff.mpr hkey] at h
    cases h
  · intro e _
    by_cases he : e.1 = key
    · exact .inl ⟨he, he, rfl⟩
    · exact .inr ⟨he, rfl⟩

/-- Tables come to differ when different values are given to a new key. -/
theorem of_append (hkey : t.lookup key = none) (hab : R a b) :
    DiffersAt key R (t ++ [(key, a)]) (t ++ [(key, b)]) := by
  refine ⟨by simp, List.rel_append (List.forall₂_same.mpr ?_) (by simp [hab])⟩
  intro e he
  refine .inr ⟨?_, rfl⟩
  rintro rfl
  exact Table.lookup_eq_none_iff.mp hkey (List.mem_map_of_mem he)

theorem set (h : DiffersAt key R t u) (hab : S a b) :
    DiffersAt key S (Table.set t key a) (Table.set u key b) := by
  simp only [Table.set, Table.any_key, h.map_fst, h.hasKey, decide_true, if_true]
  obtain ⟨e, he, hkey⟩ := List.mem_map.mp h.hasKey
  refine ⟨List.mem_map.mpr ⟨(key, a), List.mem_map.mpr ⟨e, he, by simp [hkey]⟩, rfl⟩, ?_⟩
  rw [List.forall₂_map_left_iff, List.forall₂_map_right_iff]
  refine h.entries.imp ?_
  rintro e f (⟨hleft, hright, -⟩ | ⟨hne, rfl⟩)
  · simp [hleft, hright, hab]
  · simp [hne]

theorem set_of_ne (h : DiffersAt key R t u) (hk : k ≠ key) (v : Value) :
    DiffersAt key R (Table.set t k v) (Table.set u k v) := by
  simp only [Table.set, Table.any_key, h.map_fst]
  split
  next =>
    obtain ⟨e, he, hkey⟩ := List.mem_map.mp h.hasKey
    refine ⟨List.mem_map.mpr ⟨e, List.mem_map.mpr ⟨e, he, by simp [hkey, Ne.symm hk]⟩, hkey⟩, ?_⟩
    rw [List.forall₂_map_left_iff, List.forall₂_map_right_iff]
    refine h.entries.imp ?_
    rintro e f (⟨hleft, hright, hR⟩ | ⟨hne, rfl⟩)
    · simp [hleft, hright, hR, Ne.symm hk]
    · refine .inr ⟨?_, rfl⟩
      split
      · exact hk
      · exact hne
  next => exact ⟨by simp [h.hasKey], List.rel_append h.entries (by simp [hk])⟩

end DiffersAt

end SchemaMigration.Toml
