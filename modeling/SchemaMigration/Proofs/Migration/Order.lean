import SchemaMigration.Migration.Folder
import SchemaMigration.Proofs.Fallible

/-! # The order of migrations

Migrations are listed by stamp and then by name. The order is total, so every listing is sorted.
-/

namespace SchemaMigration

open Files (Path Tree)

namespace Migration

variable {m n : Migration}

theorem before_iff : m.before n = true ↔
    m.timestamp < n.timestamp ∨ m.timestamp = n.timestamp ∧ m.name ≤ n.name := by
  simp only [before, Bool.or_eq_true, decide_eq_true_eq, Bool.and_eq_true, beq_iff_eq,
    Bool.not_eq_true', decide_eq_false_iff_not, String.not_lt]

theorem before_trans (m n k : Migration) (hmn : m.before n = true) (hnk : n.before k = true) :
    m.before k = true := by
  rw [before_iff] at *
  rcases hmn with hmn | ⟨hmn, hnames⟩ <;> rcases hnk with hnk | ⟨hnk, hnames'⟩
  · exact .inl (Int64.lt_trans hmn hnk)
  · exact .inl (hnk ▸ hmn)
  · exact .inl (hmn ▸ hnk)
  · exact .inr ⟨hmn.trans hnk, String.le_trans hnames hnames'⟩

theorem before_total (m n : Migration) : (m.before n || n.before m) = true := by
  rw [Bool.or_eq_true, before_iff, before_iff]
  by_cases heq : m.timestamp = n.timestamp
  · rcases String.le_total m.name n.name with hname | hname
    · exact .inl (.inr ⟨heq, hname⟩)
    · exact .inr (.inr ⟨heq.symm, hname⟩)
  · rcases Int64.le_total m.timestamp n.timestamp with hle | hle
    · exact .inl (.inl (Int64.lt_of_le_of_ne hle heq))
    · exact .inr (.inl (Int64.lt_of_le_of_ne hle (Ne.symm heq)))

end Migration

namespace Folder

variable {f : Folder} {tree : Tree} {migrations : List Migration}

theorem list_eq_ok_iff : f.list tree = .ok migrations ↔
    tree.contains f.path = .ok false ∧ migrations = [] ∨
      tree.contains f.path = .ok true ∧ ∃ paths unsorted, f.scripts tree = .ok paths ∧
        List.Forall₂ (fun path m => readMigration tree path = .ok m) paths unsorted ∧
          migrations = unsorted.mergeSort Migration.before := by
  unfold list
  rw [bind_eq_ok_iff]
  constructor
  · rintro ⟨isThere, hthere, h⟩
    rw [mapError_eq_ok_iff] at hthere
    cases isThere with
    | false => exact .inl ⟨hthere, pure_eq_ok_iff.mp h⟩
    | true =>
        obtain ⟨paths, hpaths, h⟩ := bind_eq_ok_iff.mp h
        obtain ⟨unsorted, hread, h⟩ := bind_eq_ok_iff.mp h
        exact .inr ⟨hthere, paths, unsorted, hpaths, mapM_eq_ok_iff.mp hread, pure_eq_ok_iff.mp h⟩
  · rintro (⟨hthere, rfl⟩ | ⟨hthere, paths, unsorted, hpaths, hread, rfl⟩)
    · exact ⟨false, mapError_eq_ok_iff.mpr hthere, rfl⟩
    · refine ⟨true, mapError_eq_ok_iff.mpr hthere, ?_⟩
      refine bind_eq_ok_iff.mpr ⟨paths, hpaths, ?_⟩
      exact bind_eq_ok_iff.mpr ⟨unsorted, mapM_eq_ok_iff.mpr hread, rfl⟩

/-- A folder that is there is listed as its scripts are read. -/
theorem list_eq_ok_iff_of_contains (hthere : tree.contains f.path = .ok true) :
    f.list tree = .ok migrations ↔ ∃ paths unsorted, f.scripts tree = .ok paths ∧
      List.Forall₂ (fun path m => readMigration tree path = .ok m) paths unsorted ∧
        migrations = unsorted.mergeSort Migration.before := by
  rw [list_eq_ok_iff, hthere]
  simp only [Except.ok.injEq, Bool.true_eq_false, false_and, true_and, false_or]

/-- A listing is in order. -/
theorem pairwise_list (h : f.list tree = .ok migrations) :
    migrations.Pairwise fun m n => m.before n = true := by
  obtain ⟨_, rfl⟩ | ⟨_, paths, unsorted, _, _, rfl⟩ := list_eq_ok_iff.mp h
  · exact .nil
  · exact List.pairwise_mergeSort Migration.before_trans Migration.before_total unsorted

/-- A folder whose files stand in order is listed as it is read. -/
theorem list_eq_ok {paths : List Path} (hthere : tree.contains f.path = .ok true)
    (hscripts : f.scripts tree = .ok paths)
    (hread : paths.mapM (readMigration tree) = .ok migrations)
    (hsorted : migrations.Pairwise fun m n => m.before n = true) :
    f.list tree = .ok migrations :=
  (list_eq_ok_iff_of_contains hthere).mpr ⟨paths, migrations, hscripts, mapM_eq_ok_iff.mp hread,
    (List.mergeSort_of_pairwise hsorted).symm⟩

end Folder

end SchemaMigration
