import SchemaMigration.Proofs.Migration.Newest

/-! # Generations that fail

A generation that fails leaves all files as they were, also where it fails to store the migration.
Only the snapshot comes behind the migration: when it cannot be stored, the migration is there
already and stays, and the snapshot is still the one before. So the same changes are generated once
more when the generation is tried again.
-/

namespace SchemaMigration

open Calendar (Instant)
open Files (Path Place Tree)

namespace Folder

variable {f : Folder} {tree after : Tree} {schema : Path} {name : String} {now : Instant}
  {previous : Document} {m : Migration} {error : MigrationError}

/-- No migration is stored in the file of the snapshot. -/
theorem fileName_ne_snapshotName : m.fileName ≠ snapshotName := by
  intro heq
  have hextension : (Path.splitExtension? m.fileName.toList).map Prod.snd =
      some ['s', 'q', 'l'] := by
    rw [Migration.splitExtension?_fileName]
    rfl
  rw [heq] at hextension
  revert hextension
  decide

/-- A migration that could not be stored leaves the directories that were created for it. -/
theorem write_eq_error (h : f.write m tree = (.error error, after)) :
    after = (tree.createDirectories f.path).2 := by
  unfold write at h
  split at h
  next made hmade =>
    obtain ⟨_, rfl⟩ := Prod.mk.inj h
    rw [hmade]
  next made hmade =>
    simp only at h
    split at h
    next =>
      obtain ⟨_, rfl⟩ := Prod.mk.inj h
      rw [hmade]
    next => cases h

theorem keepsDirectories_of_write {stored : Migration} (h : f.write m tree = (.ok stored, after)) :
    tree.KeepsDirectories after := by
  obtain ⟨made, hmade, hwritten, _⟩ := write_eq_ok h
  have hextends := tree.extends_createDirectories f.path
  rw [hmade] at hextends
  intro place hdirectory
  exact Tree.keepsDirectories_of_write hwritten (hextends hdirectory)

/-- A stored migration is one more file in the directory of its folder, or replaces the file of its
name, and all other files stay as they are. -/
theorem files_of_write {stored : Migration} (hslug : ∀ c ∈ m.slug.toList, isSlugChar c = true)
    (h : f.write m tree = (.ok stored, after)) :
    ∃ directory, after.locate f.path = .ok directory ∧
      ∀ place content, after.get? place = some (.file content) ↔
        if place = directory ++ [m.fileName] then content = .text m.sql
        else tree.get? place = some (.file content) := by
  obtain ⟨made, hmade, hwritten, _⟩ := write_eq_ok h
  have hsame := tree.sameFiles_createDirectories f.path
  rw [hmade] at hsame
  have hkeeps := Tree.keepsDirectories_of_write hwritten
  obtain ⟨directory, hlocate, _, hfree, rfl⟩ :=
    Tree.exists_set_of_write_join (Migration.isFileName_fileName hslug) hwritten
  refine ⟨directory, hkeeps.locate hlocate, ?_⟩
  intro place content
  rw [Tree.get?_set (Tree.ne_nil_of_get?_ne hfree)]
  split
  next => simp [eq_comm]
  next => exact hsame place content

/-- A generation stores its migration, and then cannot store the snapshot. -/
def FailsAtSnapshot (f : Folder) (schema : Path) (previous : Document) (name : String)
    (now : Instant) (tree : Tree) (m : Migration) (after : Tree) : Prop :=
  ∃ text stored fault, f.prepare tree schema previous name now = .ok (text, some m) ∧
    f.write m tree = (.ok stored, after) ∧ after.write f.snapshotPath (.text text) = .error fault

/-- The steps at which a generation fails. -/
theorem generate_eq_error
    (h : f.generate schema previous name now tree = (.error error, after)) :
    f.prepare tree schema previous name now = .error error ∧ after = tree ∨
      (∃ text m, f.prepare tree schema previous name now = .ok (text, some m) ∧
        f.write m tree = (.error error, after)) ∨
      ∃ m, f.FailsAtSnapshot schema previous name now tree m after := by
  unfold generate at h
  split at h
  next hprepare =>
    obtain ⟨herror, rfl⟩ := Prod.mk.inj h
    exact .inl ⟨Except.error.inj herror ▸ hprepare, rfl⟩
  next => cases h
  next text m hprepare =>
    split at h
    next hwrite =>
      obtain ⟨herror, rfl⟩ := Prod.mk.inj h
      exact .inr (.inl ⟨text, m, hprepare, Except.error.inj herror ▸ hwrite⟩)
    next stored written hwrite =>
      split at h
      next fault hfault =>
        obtain ⟨_, rfl⟩ := Prod.mk.inj h
        exact .inr (.inr ⟨m, text, stored, fault, hprepare, hwrite, hfault⟩)
      next => cases h

/-- What a generation has stored for a folder that was there was not there before. -/
theorem not_sameFiles_of_failsAtSnapshot (hthere : tree.contains f.path = .ok true)
    (h : f.FailsAtSnapshot schema previous name now tree m after) : ¬ tree.SameFiles after := by
  obtain ⟨text, stored, fault, hprepare, hwrite, _⟩ := h
  obtain ⟨_, _, _, hstamp, _⟩ := of_prepare_eq_ok_some hprepare
  have hslug := isSlugChar_of_prepare hprepare
  obtain ⟨directory, hlocate, hfiles⟩ := files_of_write hslug.2 hwrite
  obtain ⟨before, _, hbefore, _⟩ := Tree.contains_eq_ok_true_iff.mp hthere
  obtain rfl : directory = before := Except.ok.inj
    (hlocate.symm.trans ((keepsDirectories_of_write hwrite).locate hbefore))
  have hstored : after.get? (directory ++ [m.fileName]) = some (.file (.text m.sql)) := by
    rw [hfiles, if_pos rfl]
  intro hsame
  exact not_file_of_nextStamp hstamp hbefore hthere hslug ((hsame _ _).mp hstored)

/-- The migration is listed then, though its generation failed. -/
theorem list_of_failsAtSnapshot {migrations : List Migration} (hlist : f.list tree = .ok migrations)
    (hmax : ∀ n ∈ migrations, n.timestamp ≠ Int64.maxValue) (hyear : 0 ≤ now.date.year)
    (hthere : tree.contains f.path = .ok true)
    (h : f.FailsAtSnapshot schema previous name now tree m after) :
    f.list after = .ok (migrations ++ [{ m with path := f.path.join m.fileName }]) := by
  obtain ⟨text, stored, fault, hprepare, hwrite, _⟩ := h
  obtain ⟨_, _, _, rfl⟩ := write_eq_ok hwrite
  have hmade : tree.contains f.path = .ok false →
      f.list (tree.createDirectories f.path).2 = .ok [] := by
    rw [hthere]
    intro hmissing
    cases hmissing
  exact (list_of_write hlist hmax hyear hmade hprepare hwrite).2.2

/-- A generation that fails leaves all files as they were, unless it fails when the snapshot is
stored. Then the migration is a file of its folder, and all other files, the snapshot among them, are
as they were. In a folder that was there the migration is new. -/
theorem files_of_generate_error
    (h : f.generate schema previous name now tree = (.error error, after)) :
    (tree.SameFiles after ∨ ∃ m, f.FailsAtSnapshot schema previous name now tree m after) ∧
      ∀ m, f.FailsAtSnapshot schema previous name now tree m after →
        (∃ directory, after.locate f.path = .ok directory ∧ m.fileName ≠ snapshotName ∧
          ∀ place content, after.get? place = some (.file content) ↔
            if place = directory ++ [m.fileName] then content = .text m.sql
            else tree.get? place = some (.file content)) ∧
        (tree.contains f.path = .ok true → ¬ tree.SameFiles after) := by
  constructor
  · obtain ⟨_, rfl⟩ | ⟨text, m, _, hwrite⟩ | hfails := generate_eq_error h
    · exact .inl fun _ _ => Iff.rfl
    · exact .inl (write_eq_error hwrite ▸ tree.sameFiles_createDirectories f.path)
    · exact .inr hfails
  · intro m hfails
    refine ⟨?_, fun hthere => not_sameFiles_of_failsAtSnapshot hthere hfails⟩
    obtain ⟨text, stored, fault, hprepare, hwrite, _⟩ := hfails
    obtain ⟨directory, hlocate, hfiles⟩ :=
      files_of_write (isSlugChar_of_prepare hprepare).2 hwrite
    exact ⟨directory, hlocate, fileName_ne_snapshotName, hfiles⟩

/-! ## A blocked snapshot -/

/-- A schema, and a directory where the snapshot of a folder belongs. -/
def blocked : Tree :=
  (schemaAlone.createDirectories ⟨"m/schema.snapshot.keel"⟩).2

/-- The script for the schema. -/
def blockedScript : String :=
  "-- Migration: Init\n\nCREATE TABLE \"user\" (\n    \"id\" INTEGER NOT NULL,\n" ++
    "    PRIMARY KEY (\"id\")\n);\n"

def blockedOnce : Tree :=
  blocked.set ["m", "19700101000000_init.sql"] (.file (.text blockedScript))

def blockedTwice : Tree :=
  blockedOnce.set ["m", "19700101000001_init.sql"] (.file (.text blockedScript))

/-- A generation from the empty document, at the start of 1970. -/
def blockedGeneration (tree : Tree) : Except MigrationError (Option Migration) × Tree :=
  generate ⟨⟨"m"⟩⟩ ⟨"s.keel"⟩ {} "Init" ⟨0, 0⟩ tree

theorem exists_of_failed {generated : Except MigrationError (Option Migration) × Tree}
    (h : (generated.1.toOption.isNone, generated.2) = (true, after)) :
    ∃ error, generated = (.error error, after) := by
  obtain ⟨hfailed, rfl⟩ := Prod.mk.inj h
  obtain ⟨error | result, after⟩ := generated
  · exact ⟨error, rfl⟩
  · cases hfailed

/-- The generation fails, and fails again, and each time leaves a migration with the same script. -/
theorem files_of_generate_error_of_blocked :
    ∃ m n error again, blockedGeneration blocked = (.error error, blockedOnce) ∧
      FailsAtSnapshot ⟨⟨"m"⟩⟩ ⟨"s.keel"⟩ {} "Init" ⟨0, 0⟩ blocked m blockedOnce ∧
      blockedGeneration blockedOnce = (.error again, blockedTwice) ∧
      FailsAtSnapshot ⟨⟨"m"⟩⟩ ⟨"s.keel"⟩ {} "Init" ⟨0, 0⟩ blockedOnce n blockedTwice := by
  obtain ⟨error, hfirst⟩ : ∃ error, blockedGeneration blocked = (.error error, blockedOnce) :=
    exists_of_failed (by decide +kernel)
  obtain ⟨again, hagain⟩ :
      ∃ again, blockedGeneration blockedOnce = (.error again, blockedTwice) :=
    exists_of_failed (by decide +kernel)
  have hnew : blocked.get? ["m", "19700101000000_init.sql"] = none ∧
      blockedOnce.get? ["m", "19700101000001_init.sql"] = none := by decide +kernel
  have hstored : blockedOnce.get? ["m", "19700101000000_init.sql"] =
        some (.file (.text blockedScript)) ∧
      blockedTwice.get? ["m", "19700101000001_init.sql"] =
        some (.file (.text blockedScript)) := by
    constructor
    · rw [blockedOnce, Tree.get?_set (by simp), if_pos rfl]
    · rw [blockedTwice, Tree.get?_set (by simp), if_pos rfl]
  obtain ⟨m, hm⟩ := (files_of_generate_error hfirst).1.resolve_left fun hsame => by
    cases hnew.1.symm.trans ((hsame _ _).mp hstored.1)
  obtain ⟨n, hn⟩ := (files_of_generate_error hagain).1.resolve_left fun hsame => by
    cases hnew.2.symm.trans ((hsame _ _).mp hstored.2)
  exact ⟨m, n, error, again, hfirst, hm, hagain, hn⟩

end Folder

end SchemaMigration
