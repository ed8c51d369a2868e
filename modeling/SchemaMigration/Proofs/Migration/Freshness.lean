import Mathlib.Data.List.Induction
import SchemaMigration.Proofs.Migration.Name
import SchemaMigration.Proofs.Migration.Order

/-! # Fresh names

A migration that is generated for a folder is stamped after all that the folder lists. So its file
is none that the folder had, even where the sum of a stamp and one leaves the 64 bits: a negative
stamp is in the name of no migration, and a folder with a file of such a name is not listed.
-/

namespace SchemaMigration

open Calendar (Instant)
open Files (Content Path Place Tree)

/-! ## Stamps -/

namespace Stamp

variable {now : Instant} {latest : Int64}

/-- The next stamp is the greater of the instant's and of the number behind the latest one, unless
the latest one is the last of 64 bits. -/
theorem toInt_next_of_ne (h : latest ≠ Int64.maxValue) :
    (next now (some latest)).toInt = max (ofInstant now).toInt (latest.toInt + 1) := by
  simp only [next]
  split
  next hbefore =>
    have hle := Int64.le_iff_toInt_le.mp hbefore
    have hne : latest.toInt ≠ 2 ^ 63 - 1 := fun heq =>
      h (Int64.toInt_inj.mp (heq.trans Int64.toInt_maxValue.symm))
    have hlow : -2 ^ 63 ≤ latest.toInt := Int64.le_toInt latest
    have hhigh : latest.toInt < 2 ^ 63 := Int64.toInt_lt latest
    rw [Int64.toInt_add, show (1 : Int64).toInt = 1 from rfl, Int.bmod_def]
    omega
  next hbehind =>
    have hlt := Int64.lt_iff_toInt_lt.mp (Int64.not_le.mp hbehind)
    omega

theorem lt_next_of_ne (h : latest ≠ Int64.maxValue) : latest < next now (some latest) := by
  rw [Int64.lt_iff_toInt_lt, toInt_next_of_ne h]
  omega

/-- The next stamp is above the latest one, unless it is negative. -/
theorem lt_next (h : 0 ≤ (next now (some latest)).toInt) : latest < next now (some latest) := by
  refine lt_next_of_ne ?_
  rintro rfl
  rw [next, if_pos (Int64.le_maxValue _)] at h
  revert h
  decide

end Stamp

namespace Folder

variable {f : Folder} {tree : Tree} {now : Instant} {migrations : List Migration} {m : Migration}

/-- The latest stamp is at least that of every migration. -/
theorem le_latest? (hm : m ∈ migrations) :
    ∃ latest, latest? migrations = some latest ∧ m.timestamp ≤ latest := by
  induction migrations using List.reverseRecOn with
  | nil => cases hm
  | append_singleton migrations n ih =>
      rw [latest?, List.foldl_append, List.foldl_cons, List.foldl_nil, ← latest?]
      rcases List.mem_append.mp hm with hm | hm
      · obtain ⟨latest, heq, hle⟩ := ih hm
        rw [heq]
        refine ⟨_, rfl, ?_⟩
        split
        next hlast => exact Int64.le_trans hle hlast
        next => exact hle
      · rw [List.mem_singleton.mp hm]
        cases latest? migrations with
        | none => exact ⟨_, rfl, Int64.le_refl _⟩
        | some stamp =>
            refine ⟨_, rfl, ?_⟩
            split
            next => exact Int64.le_refl _
            next hlast => exact Int64.le_of_lt (Int64.not_le.mp hlast)

/-! ## Listed files -/

theorem readMigration_eq_ok_iff {path : Path} : readMigration tree path = .ok m ↔
    ∃ stem timestamp slug sql, path.stem? = some stem ∧
      MigrationName.parse stem = .ok (timestamp, slug) ∧ tree.readText path = .ok sql ∧
        m = { Migration.ofScript timestamp slug sql with path } := by
  unfold readMigration
  cases path.stem? with
  | none => simp [throw, throwThe, MonadExceptOf.throw]
  | some stem =>
      simp only [bind_eq_ok_iff, pure_eq_ok_iff, mapError_eq_ok_iff, Prod.exists]
      simp

/-- A file in the directory of a folder that has the name of a migration is listed with its stamp,
which is not negative. -/
theorem exists_listed_of_file {directory : Place} {content : Content}
    (hlist : f.list tree = .ok migrations) (hdirectory : tree.locate f.path = .ok directory)
    (hthere : tree.contains f.path = .ok true)
    (hslug : m.slug ≠ "" ∧ ∀ c ∈ m.slug.toList, isSlugChar c = true)
    (hfile : tree.get? (directory ++ [m.fileName]) = some (.file content)) :
    0 ≤ m.timestamp.toInt ∧ ∃ n ∈ migrations, n.timestamp = m.timestamp := by
  obtain ⟨paths, unsorted, hpaths, hread, rfl⟩ := (list_eq_ok_iff_of_contains hthere).mp hlist
  obtain ⟨names, hnames, heq⟩ := bind_eq_ok_iff.mp hpaths
  rw [mapError_eq_ok_iff] at hnames
  have hpath : f.path.join m.fileName ∈ paths := by
    rw [pure_eq_ok_iff.mp heq]
    refine List.mem_filter.mpr ⟨List.mem_map_of_mem (Tree.mem_files hnames hdirectory hfile), ?_⟩
    simp [Migration.extension?_join hslug.2]
  -- The file is read by its name, so the name is that of a migration.
  obtain ⟨n, hn, hmigration⟩ := exists_of_mem_left hread hpath
  obtain ⟨stem, timestamp, slug, sql, hstem, hparse, _, rfl⟩ :=
    readMigration_eq_ok_iff.mp hmigration
  obtain rfl : m.name = stem := by
    rw [Migration.stem?_join hslug.2] at hstem
    exact Option.some.inj hstem
  rw [Migration.parse_name hslug.1] at hparse
  split at hparse
  next hnonneg =>
    obtain ⟨rfl, _⟩ := Prod.mk.inj (Except.ok.inj hparse)
    exact ⟨hnonneg, _, List.mem_mergeSort.mpr hn, rfl⟩
  next => cases hparse

/-- The file of a migration with the next stamp is not there, if the folder is. -/
theorem not_file_of_nextStamp {directory : Place} {content : Content}
    (hstamp : f.nextStamp tree now = .ok m.timestamp)
    (hdirectory : tree.locate f.path = .ok directory)
    (hthere : tree.contains f.path = .ok true)
    (hslug : m.slug ≠ "" ∧ ∀ c ∈ m.slug.toList, isSlugChar c = true) :
    tree.get? (directory ++ [m.fileName]) ≠ some (.file content) := by
  intro hfile
  obtain ⟨migrations, hlist, heq⟩ := bind_eq_ok_iff.mp hstamp
  have hnext := pure_eq_ok_iff.mp heq
  obtain ⟨hnonneg, n, hn, htimestamp⟩ :=
    exists_listed_of_file hlist hdirectory hthere hslug hfile
  obtain ⟨latest, hlatest, hle⟩ := le_latest? hn
  rw [hlatest] at hnext
  rw [htimestamp, hnext] at hle
  rw [hnext] at hnonneg
  exact Int64.not_le.mpr (Stamp.lt_next hnonneg) hle

end Folder

end SchemaMigration
