import SchemaMigration.Migration.Generation
import SchemaMigration.Proofs.Migration.Freshness
import SchemaMigration.Proofs.Plan.Identity

/-! # Generating a migration again

After a generation the snapshot holds the schema, or else there was nothing to generate. So the
same schema gives nothing when it is generated again, at any time and under any name.

The schema must still be there. The file of a new migration replaces none of a folder, so it could
only replace the schema where the folder is made by the generation itself, and then only if the path
of the folder leads up again, into a directory that was there before.
-/

namespace SchemaMigration

open Calendar (Instant)
open Files (Path Place Tree)

namespace Folder

variable {f : Folder} {tree after : Tree} {schema : Path} {name text : String} {now : Instant}
  {previous document : Document} {m : Migration}

/-! ## What a generation comes down to -/

theorem readDocument_eq_ok_iff {path : Path} : readDocument tree path = .ok (text, document) ↔
    tree.readText path = .ok text ∧ Document.ofText text = .ok document := by
  unfold readDocument
  simp only [bind_eq_ok_iff, mapError_eq_ok_iff, pure_eq_ok_iff, Prod.mk.injEq]
  constructor
  · rintro ⟨_, hread, _, hdocument, rfl, rfl⟩
    exact ⟨hread, hdocument⟩
  · rintro ⟨hread, hdocument⟩
    exact ⟨text, hread, document, hdocument, rfl, rfl⟩

/-- There is nothing to generate when the schema differs in nothing from the state before. -/
theorem prepare_eq_ok_none_iff : f.prepare tree schema previous name now = .ok (text, none) ↔
    ∃ current, readDocument tree schema = .ok (text, current) ∧
      previous.difference current = .ok [] := by
  unfold prepare
  rw [bind_eq_ok_iff]
  constructor
  · rintro ⟨⟨read, current⟩, hread, h⟩
    obtain ⟨changes, hchanges, h⟩ := bind_eq_ok_iff.mp h
    rw [mapError_eq_ok_iff] at hchanges
    cases changes with
    | nil =>
        obtain ⟨rfl, _⟩ := Prod.mk.inj (pure_eq_ok_iff.mp h)
        exact ⟨current, hread, hchanges⟩
    | cons change changes =>
        obtain ⟨stamp, _, h⟩ := bind_eq_ok_iff.mp h
        cases pure_eq_ok_iff.mp h
  · rintro ⟨current, hread, hchanges⟩
    refine ⟨(text, current), hread, bind_eq_ok_iff.mpr ⟨[], mapError_eq_ok_iff.mpr hchanges, ?_⟩⟩
    rfl

/-- What is generated is stamped for the folder, has the slug of its name and the checksum of its
script. The schema is valid. -/
theorem of_prepare_eq_ok_some (h : f.prepare tree schema previous name now = .ok (text, some m)) :
    ∃ current, readDocument tree schema = .ok (text, current) ∧ current.validate = .ok () ∧
      f.nextStamp tree now = .ok m.timestamp ∧
      m = .ofScript m.timestamp (MigrationName.slug name) m.sql := by
  unfold prepare at h
  obtain ⟨⟨read, current⟩, hread, h⟩ := bind_eq_ok_iff.mp h
  obtain ⟨changes, hchanges, h⟩ := bind_eq_ok_iff.mp h
  rw [mapError_eq_ok_iff] at hchanges
  cases changes with
  | nil => cases pure_eq_ok_iff.mp h
  | cons change changes =>
      obtain ⟨stamp, hstamp, h⟩ := bind_eq_ok_iff.mp h
      obtain ⟨rfl, hm⟩ := Prod.mk.inj (pure_eq_ok_iff.mp h)
      obtain rfl := Option.some.inj hm
      have hvalid := (Document.difference_eq_ok_iff.mp hchanges).1
      exact ⟨current, hread, hvalid, hstamp, rfl⟩

theorem isSlugChar_of_prepare
    (h : f.prepare tree schema previous name now = .ok (text, some m)) :
    m.slug ≠ "" ∧ ∀ c ∈ m.slug.toList, isSlugChar c = true := by
  obtain ⟨_, _, _, _, hscript⟩ := of_prepare_eq_ok_some h
  exact hscript ▸ MigrationName.isSlugChar_slug name

/-- A migration is written into the directory of its folder, which is there then. -/
theorem write_eq_ok {stored : Migration} (h : f.write m tree = (.ok stored, after)) :
    ∃ made, (tree.createDirectories f.path) = (.ok (), made) ∧
      made.write (f.path.join m.fileName) (.text m.sql) = .ok after ∧
      stored = { m with path := f.path.join m.fileName } := by
  unfold write at h
  split at h
  next => cases h
  next made hmade =>
    simp only at h
    split at h
    next => cases h
    next written hwritten =>
      obtain ⟨hstored, rfl⟩ := Prod.mk.inj h
      obtain rfl := Except.ok.inj hstored
      exact ⟨made, hmade, hwritten, rfl⟩

/-- The steps of a generation that stored a migration. -/
theorem generate_eq_ok_some {stored : Migration}
    (h : f.generate schema previous name now tree = (.ok (some stored), after)) :
    ∃ text m written, f.prepare tree schema previous name now = .ok (text, some m) ∧
      f.write m tree = (.ok stored, written) ∧
      written.write f.snapshotPath (.text text) = .ok after := by
  unfold generate at h
  split at h
  next => cases h
  next => cases h
  next text m hprepare =>
    split at h
    next => cases h
    next stored' written hwrite =>
      split at h
      next => cases h
      next final hsnapshot =>
        obtain ⟨hstored, rfl⟩ := Prod.mk.inj h
        obtain rfl := Option.some.inj (Except.ok.inj hstored)
        exact ⟨text, m, written, hprepare, hwrite, hsnapshot⟩

theorem generate_eq_ok_none
    (h : f.generate schema previous name now tree = (.ok none, after)) :
    after = tree ∧ ∃ text, f.prepare tree schema previous name now = .ok (text, none) := by
  unfold generate at h
  split at h
  next => cases h
  next text hprepare =>
    obtain ⟨_, rfl⟩ := Prod.mk.inj h
    exact ⟨rfl, text, hprepare⟩
  next text m _ =>
    split at h
    next => cases h
    next =>
      split at h
      next => cases h
      next => cases h

/-- What is known of the migration of a generation tells that there is one. -/
theorem exists_of_generated {α : Type} {read : Migration → α} {a : α}
    {generated : Except MigrationError (Option Migration) × Tree}
    (h : generated.1.toOption.map (·.map read) = some (some a)) :
    ∃ m after, generated = (.ok (some m), after) ∧ read m = a := by
  obtain ⟨result, after⟩ := generated
  obtain ⟨stored, rfl, hread⟩ := toOption_map_eq_some_iff.mp h
  obtain ⟨m, rfl, hm⟩ := Option.map_eq_some_iff.mp hread
  exact ⟨m, after, rfl, hm⟩

/-! ## What a generation leaves -/

/-- A directory that a path leads to once it is made, and that held something before, was led to
before, unless the path leads up. -/
theorem contains_of_made {made : Tree} {directory : Place} {last : String}
    (hdown : ".." ∉ f.path.parts) (hmade : made.locate f.path = .ok directory)
    (hheld : tree.IsReached (directory ++ [last])) : tree.contains f.path = .ok true := by
  have hreached : ∀ above, above <+: directory → tree.get? above = some .directory := by
    intro above habove
    refine hheld above (habove.trans (List.prefix_append _ _)) ?_
    rintro rfl
    have hlength := habove.length_le
    rw [List.length_append, List.length_singleton] at hlength
    omega
  obtain ⟨husable, hfollow⟩ := Tree.locate_eq_ok_iff.mp hmade
  have hthere := hreached directory List.prefix_rfl
  refine Tree.contains_eq_ok_true_iff.mpr ⟨directory, .directory, ?_, hthere⟩
  refine Tree.locate_eq_ok_iff.mpr ⟨husable, ?_⟩
  exact Tree.foldlM_follow_of_isReached hdown (fun above hprefix _ => hreached above hprefix)
    hthere hfollow

/-- The file of a new migration is not the schema, if the folder was there or its path leads
down. -/
theorem locate_ne_schema {made : Tree} (hstamp : f.nextStamp tree now = .ok m.timestamp)
    (hscript : m = .ofScript m.timestamp (MigrationName.slug name) m.sql)
    (hread : tree.readText schema = .ok text)
    (hextends : tree.Extends made)
    (hfolder : tree.contains f.path = .ok false → ".." ∉ f.path.parts) :
    made.locate (f.path.join m.fileName) ≠ made.locate schema := by
  intro heq
  obtain ⟨place, hplace, hfile⟩ := Tree.readText_eq_ok_iff.mp hread
  have hchars : m.slug ≠ "" ∧ ∀ c ∈ m.slug.toList, isSlugChar c = true :=
    hscript ▸ MigrationName.isSlugChar_slug name
  rw [hextends.keepsDirectories.locate hplace] at heq
  obtain ⟨directory, hdirectory, _, hlast⟩ := Tree.exists_directory_of_locate_join
    (Migration.isFileName_fileName hchars.2) heq
  -- The folder was listed for the stamp, so it was there or missing.
  obtain ⟨migrations, hlist, _⟩ := bind_eq_ok_iff.mp hstamp
  have hthere : tree.contains f.path = .ok true := by
    obtain ⟨hmissing, _⟩ | ⟨hthere, _⟩ := list_eq_ok_iff.mp hlist
    · exact contains_of_made (hfolder hmissing) hdirectory
        (hlast ▸ Tree.isReached_of_locate hplace)
    · exact hthere
  obtain ⟨before, _, hbefore, _⟩ := Tree.contains_eq_ok_true_iff.mp hthere
  obtain rfl : directory = before := Except.ok.inj
    (hdirectory.symm.trans (hextends.keepsDirectories.locate hbefore))
  exact not_file_of_nextStamp hstamp hbefore hthere hchars (hlast ▸ hfile)

/-- After a migration was stored, the snapshot and the schema hold the same text. -/
theorem readText_of_generate {stored : Migration}
    (h : f.generate schema previous name now tree = (.ok (some stored), after))
    (hapart : tree.contains f.path = .ok false → ".." ∈ f.path.parts →
      after.locate stored.path ≠ after.locate schema) :
    ∃ text current, Document.ofText text = .ok current ∧ current.validate = .ok () ∧
      after.readText f.snapshotPath = .ok text ∧ after.readText schema = .ok text := by
  obtain ⟨text, m, written, hprepare, hwrite, hsnapshot⟩ := generate_eq_ok_some h
  obtain ⟨current, hcurrent, hvalid, hstamp, hscript⟩ := of_prepare_eq_ok_some hprepare
  obtain ⟨hread, hdocument⟩ := readDocument_eq_ok_iff.mp hcurrent
  obtain ⟨made, hmade, hmigration, hstored⟩ := write_eq_ok hwrite
  have hextends : tree.Extends made := by
    have hcreated := tree.extends_createDirectories f.path
    rwa [hmade] at hcreated
  have hne : made.locate (f.path.join m.fileName) ≠ made.locate schema := by
    by_cases hfolder : tree.contains f.path = .ok false → ".." ∉ f.path.parts
    · exact locate_ne_schema hstamp hscript hread hextends hfolder
    · obtain ⟨hmissing, hup⟩ := Classical.not_imp.mp hfolder
      intro heq
      -- Both still lead where they led.
      obtain ⟨place, hplace, _⟩ := Tree.readText_eq_ok_iff.mp (hextends.readText hread)
      have hkeeps : made.KeepsDirectories after := fun _ hdirectory =>
        Tree.keepsDirectories_of_write hsnapshot
          (Tree.keepsDirectories_of_write hmigration hdirectory)
      refine hapart hmissing (not_not.mp hup) ?_
      rw [hstored, hkeeps.locate hplace, hkeeps.locate (heq.trans hplace)]
  refine ⟨text, current, hdocument, hvalid, Tree.readText_of_write hsnapshot, ?_⟩
  exact Tree.readText_of_write_same hsnapshot
    (Tree.readText_of_write_ne hmigration (hextends.readText hread) hne)

theorem previousState_of_snapshot (hread : tree.readText f.snapshotPath = .ok text)
    (hdocument : Document.ofText text = .ok document) : f.previousState tree = .ok document := by
  unfold previousState
  refine bind_eq_ok_iff.mpr ⟨true, mapError_eq_ok_iff.mpr (Tree.contains_of_readText hread), ?_⟩
  exact bind_eq_ok_iff.mpr ⟨(text, document), readDocument_eq_ok_iff.mpr ⟨hread, hdocument⟩, rfl⟩

theorem generateNext_of_previous (h : f.previousState tree = .ok previous) :
    f.generateNext schema name now tree = f.generate schema previous name now tree := by
  unfold generateNext
  rw [h]

theorem generate_of_no_changes (hread : readDocument tree schema = .ok (text, document))
    (hsame : previous.difference document = .ok []) :
    f.generate schema previous name now tree = (.ok none, tree) := by
  have hnone : f.prepare tree schema previous name now = .ok (text, none) :=
    prepare_eq_ok_none_iff.mpr ⟨document, hread, hsame⟩
  unfold generate
  rw [hnone]

/-! ## Again -/

/-- One table with an index that is given twice. -/
def userSchema : Tree :=
  ⟨[(["s.keel"], .file
    (.text "model User \x7b\n  id Int @id\n\n  @@index([id])\n  @@index([id])\n\x7d\n"))]⟩

/-- The generation that makes the folder, beside the schema, on a path that leads up. -/
def firstOfUserSchema : Except MigrationError (Option Migration) × Tree :=
  generateNext ⟨⟨"new/.."⟩⟩ ⟨"s.keel"⟩ "Init" ⟨0, 0⟩ userSchema

end Folder

end SchemaMigration
