import SchemaMigration.Proofs.Files.Listing
import SchemaMigration.Proofs.Migration.Generation

/-! # The newest migration

A migration that is generated is stamped above all that the folder lists, stored in a file that was
not there, and listed behind the others with what it was made of.

A folder that is missing is listed as if it were empty. The generation makes it, and then it may
show a directory that was there before: when its path leads through a missing directory and up
again. The migrations in such a directory were not listed, and the new one need not come behind
them.
-/

namespace SchemaMigration

open Calendar (Instant)
open Files (Path Place Tree)

/-! ## Stamps -/

namespace Stamp

variable {now : Instant}

/-- From year 0 on, stamps have no sign. -/
theorem ofInstant_nonneg (h : 0 ≤ now.date.year) : 0 ≤ (ofInstant now).toInt := by
  have hdigits : 0 ≤ digits now := by
    rw [digits]
    simp only [Int.not_lt.mpr h, if_false]
    exact Int.natCast_nonneg _
  unfold ofInstant
  cases hstamp : Number.toInt64? (digits now) with
  | none => decide
  | some stamp =>
      rw [Option.getD_some, MigrationName.toInt_eq_of_toInt64? hstamp]
      exact hdigits

theorem ofInstant_le_next (now : Instant) (latest : Option Int64)
    (hlatest : ∀ stamp, latest = some stamp → stamp ≠ Int64.maxValue) :
    ofInstant now ≤ next now latest := by
  cases latest with
  | none => exact Int64.le_refl _
  | some stamp =>
      rw [Int64.le_iff_toInt_le, toInt_next_of_ne (hlatest stamp rfl)]
      omega

end Stamp

/-! ## Listings -/

/-- What no member of a list comes behind is sorted to its end. -/
theorem mergeSort_concat {α : Type} {le : α → α → Bool}
    (htrans : ∀ a b c, le a b = true → le b c = true → le a c = true)
    (htotal : ∀ a b, (le a b || le b a) = true) {as : List α} {last : α}
    (hlast : ∀ a ∈ as, le a last = true) :
    (as ++ [last]).mergeSort le = as.mergeSort le ++ [last] := by
  -- The members that a sorted list has in front of a new one are the first that are not behind it.
  have hfront {a : α} {before behind : List α} (hbefore : ∀ b ∈ before, (!le a b) = true)
      (hbehind : ∀ b ∈ behind, le a b = true) :
      (before ++ behind).takeWhile (fun b => !le a b) = before := by
    rw [List.takeWhile_append_of_pos hbefore]
    cases behind with
    | nil => simp
    | cons b behind => simp [hbehind b List.mem_cons_self]
  induction as with
  | nil => simp
  | cons a as ih =>
      obtain ⟨before, behind, hsort, hrest, hbefore⟩ := List.mergeSort_cons htrans htotal a as
      obtain ⟨before', behind', hsort', hrest', hbefore'⟩ :=
        List.mergeSort_cons htrans htotal a (as ++ [last])
      have hbehind : ∀ b ∈ behind ++ [last], le a b = true := by
        have hsorted := List.pairwise_mergeSort htrans htotal (a :: as)
        rw [hsort] at hsorted
        intro b hb
        rcases List.mem_append.mp hb with hb | hb
        · exact (List.pairwise_cons.mp (List.pairwise_append.mp hsorted).2.1).1 b hb
        · exact List.mem_singleton.mp hb ▸ hlast a List.mem_cons_self
      have hbehind' : ∀ b ∈ behind', le a b = true := by
        have hsorted := List.pairwise_mergeSort htrans htotal (a :: (as ++ [last]))
        rw [hsort'] at hsorted
        exact (List.pairwise_cons.mp (List.pairwise_append.mp hsorted).2.1).1
      have hsame : before' ++ behind' = before ++ (behind ++ [last]) := by
        rw [← hrest', ih fun b hb => hlast b (List.mem_cons_of_mem _ hb), hrest, List.append_assoc]
      obtain rfl : before' = before := by
        rw [← hfront hbefore' hbehind', hsame, hfront hbefore hbehind]
      rw [List.cons_append, hsort', hsort, List.append_cancel_left hsame, List.append_assoc,
        List.cons_append]

namespace Folder

variable {f : Folder} {tree made written after : Tree} {now : Instant}
  {migrations : List Migration} {m : Migration} {directory : Place} {text : String}

theorem exists_of_latest? {latest : Int64} (h : latest? migrations = some latest) :
    ∃ m ∈ migrations, m.timestamp = latest := by
  induction migrations using List.reverseRecOn generalizing latest with
  | nil => cases h
  | append_singleton migrations n ih =>
      rw [latest?, List.foldl_append, List.foldl_cons, List.foldl_nil, ← latest?] at h
      have hn : n ∈ migrations ++ [n] := by simp
      cases hbefore : latest? migrations with
      | none =>
          rw [hbefore] at h
          exact ⟨n, hn, Option.some.inj h⟩
      | some stamp =>
          rw [hbefore] at h
          obtain rfl := Option.some.inj h
          split
          next => exact ⟨n, hn, rfl⟩
          next =>
            obtain ⟨m, hm, heq⟩ := ih hbefore
            exact ⟨m, List.mem_append_left _ hm, heq⟩

/-- A folder that does not hold the last stamp has a next one above all of its stamps. -/
theorem lt_nextStamp (hlist : f.list tree = .ok migrations)
    (hmax : ∀ n ∈ migrations, n.timestamp ≠ Int64.maxValue)
    (hstamp : f.nextStamp tree now = .ok m.timestamp) :
    Stamp.ofInstant now ≤ m.timestamp ∧ ∀ n ∈ migrations, n.timestamp < m.timestamp := by
  have hnext : m.timestamp = Stamp.next now (latest? migrations) := by
    obtain ⟨listed, hlisted, h⟩ := bind_eq_ok_iff.mp hstamp
    obtain rfl : migrations = listed := Except.ok.inj (hlist.symm.trans hlisted)
    exact pure_eq_ok_iff.mp h
  have hlatest : ∀ stamp, latest? migrations = some stamp → stamp ≠ Int64.maxValue := by
    intro stamp hlatest
    obtain ⟨n, hn, rfl⟩ := exists_of_latest? hlatest
    exact hmax n hn
  rw [hnext]
  refine ⟨Stamp.ofInstant_le_next now _ hlatest, fun n hn => ?_⟩
  obtain ⟨latest, heq, hle⟩ := le_latest? hn
  rw [heq]
  exact Int64.lt_of_le_of_lt hle (Stamp.lt_next_of_ne (hlatest latest heq))

theorem scripts_eq_ok_iff {paths : List Path} : f.scripts tree = .ok paths ↔
    ∃ directory, tree.locate f.path = .ok directory ∧ tree.get? directory = some .directory ∧
      paths = ((tree.filesAt directory).map f.path.join).filter
        fun path => path.extension? == some "sql" := by
  unfold scripts
  simp only [bind_eq_ok_iff, mapError_eq_ok_iff, pure_eq_ok_iff, Tree.files_eq_ok_iff]
  constructor
  · rintro ⟨_, ⟨directory, hlocate, hthere, rfl⟩, rfl⟩
    exact ⟨directory, hlocate, hthere, rfl⟩
  · rintro ⟨directory, hlocate, hthere, rfl⟩
    exact ⟨_, ⟨directory, hlocate, hthere, rfl⟩, rfl⟩

theorem isFileName_snapshotName : Path.IsFileName snapshotName where
  slash := by decide
  leadsOn := by decide
  notUp := by decide

/-! ## A stored migration and its snapshot -/

/-- A migration is read again where its text is. -/
theorem readMigration_of_readText {path : Path}
    (htext : ∀ {sql}, tree.readText path = .ok sql → after.readText path = .ok sql)
    (h : readMigration tree path = .ok m) : readMigration after path = .ok m := by
  obtain ⟨stem, timestamp, slug, sql, hstem, hparse, hsql, rfl⟩ := readMigration_eq_ok_iff.mp h
  exact readMigration_eq_ok_iff.mpr ⟨stem, timestamp, slug, sql, hstem, hparse, htext hsql, rfl⟩

/-- A stored migration is one more script. -/
theorem scripts_of_written {paths : List Path}
    (hslug : ∀ c ∈ m.slug.toList, isSlugChar c = true) (hscripts : f.scripts made = .ok paths)
    (hfree : ∀ directory, made.locate f.path = .ok directory →
      made.get? (directory ++ [m.fileName]) = none)
    (hwritten : made.write (f.path.join m.fileName) (.text m.sql) = .ok written) :
    f.scripts written = .ok (paths ++ [f.path.join m.fileName]) := by
  obtain ⟨directory, hlocate, hthere, rfl⟩ := scripts_eq_ok_iff.mp hscripts
  have hkeeps := Tree.keepsDirectories_of_write hwritten
  obtain ⟨_, hplace, _, _, rfl⟩ :=
    Tree.exists_set_of_write_join (Migration.isFileName_fileName hslug) hwritten
  obtain rfl := Except.ok.inj (hlocate.symm.trans hplace)
  refine scripts_eq_ok_iff.mpr ⟨directory, hkeeps.locate hlocate, hkeeps hthere, ?_⟩
  have hextension : ((f.path.join m.fileName).extension? == some "sql") = true := by
    rw [Migration.extension?_join hslug]
    decide
  rw [Tree.filesAt_set_of_free (hfree directory hlocate), List.map_append, List.filter_append,
    List.map_singleton, List.filter_singleton, hextension, cond_true]

/-- When a migration is stored whose stamp is above all that its folder shows, its file is new, and
it is listed behind the others. -/
theorem list_of_written (hlist : f.list made = .ok migrations)
    (hslug : m.slug ≠ "" ∧ ∀ c ∈ m.slug.toList, isSlugChar c = true)
    (hscript : m = .ofScript m.timestamp m.slug m.sql) (hnonneg : 0 ≤ m.timestamp.toInt)
    (hnewest : ∀ n ∈ migrations, n.timestamp < m.timestamp)
    (hwritten : made.write (f.path.join m.fileName) (.text m.sql) = .ok written) :
    (∃ directory, written.locate f.path = .ok directory ∧
      made.get? (directory ++ [m.fileName]) = none) ∧
    f.list written = .ok (migrations ++ [{ m with path := f.path.join m.fileName }]) := by
  have hkeeps := Tree.keepsDirectories_of_write hwritten
  obtain ⟨directory, hlocate, hdirectory, hfree, hset⟩ :=
    Tree.exists_set_of_write_join (Migration.isFileName_fileName hslug.2) hwritten
  have hthere : made.contains f.path = .ok true :=
    Tree.contains_eq_ok_true_iff.mpr ⟨directory, _, hlocate, hdirectory⟩
  have hnew : made.get? (directory ++ [m.fileName]) = none := by
    cases hheld : made.get? (directory ++ [m.fileName]) with
    | none => rfl
    | some entry =>
        cases entry with
        | directory => exact absurd hheld hfree
        | file content =>
            -- A file of this name would be listed with this stamp.
            obtain ⟨_, n, hn, heq⟩ := exists_listed_of_file hlist hlocate hthere hslug hheld
            exact absurd (heq ▸ hnewest n hn) Int64.lt_irrefl
  refine ⟨⟨directory, hkeeps.locate hlocate, hnew⟩, ?_⟩
  obtain ⟨paths, unsorted, hpaths, hread, rfl⟩ := (list_eq_ok_iff_of_contains hthere).mp hlist
  have hextends : made.Extends written := hset ▸ Tree.extends_set hnew
  have hscripts := scripts_of_written hslug.2 hpaths (fun other hother => by
    rwa [← Except.ok.inj (hlocate.symm.trans hother)]) hwritten
  have hreadOld := hread.imp fun path n hn =>
    (readMigration_of_readText hextends.readText hn : readMigration written path = .ok n)
  have hreadNew : readMigration written (f.path.join m.fileName) =
      .ok { m with path := f.path.join m.fileName } := by
    have hparse := Migration.parse_name hslug.1
    rw [if_pos hnonneg] at hparse
    refine readMigration_eq_ok_iff.mpr ⟨m.name, m.timestamp, m.slug, m.sql,
      Migration.stem?_join hslug.2, hparse, Tree.readText_of_write hwritten, ?_⟩
    rw [← hscript]
  refine list_eq_ok_iff.mpr (.inr ⟨?_, _,
    unsorted ++ [{ m with path := f.path.join m.fileName }], hscripts, ?_, ?_⟩)
  · exact Tree.contains_eq_ok_true_iff.mpr
      ⟨directory, _, hkeeps.locate hlocate, hkeeps hdirectory⟩
  · exact List.rel_append hreadOld (.cons hreadNew .nil)
  · refine (mergeSort_concat Migration.before_trans Migration.before_total fun n hn => ?_).symm
    exact Migration.before_iff.mpr (.inl (hnewest n (List.mem_mergeSort.mpr hn)))

/-- What is read of a script is not changed by a new snapshot. -/
theorem readText_of_snapshot {path : Path} {sql : String} (hsql : path.extension? = some "sql")
    (hread : written.readText path = .ok sql)
    (hsnapshot : written.write f.snapshotPath (.text text) = .ok after) :
    after.readText path = .ok sql := by
  refine Tree.readText_of_write_ne hsnapshot hread fun heq => ?_
  obtain ⟨place, hplace, _⟩ := Tree.readText_eq_ok_iff.mp hread
  -- The place would have both names.
  obtain ⟨name, hname, hextension⟩ := Option.bind_eq_some_iff.mp hsql
  have hscript := Tree.getLast?_of_locate hname hplace
  have hother := Tree.getLast?_of_locate (Path.fileName?_join isFileName_snapshotName)
    (heq.trans hplace)
  obtain rfl : name = snapshotName := Option.some.inj (hscript.symm.trans hother)
  revert hextension
  decide

/-- A new snapshot is no script. -/
theorem scripts_of_snapshot {paths : List Path} (hscripts : f.scripts written = .ok paths)
    (hsnapshot : written.write f.snapshotPath (.text text) = .ok after) :
    f.scripts after = .ok paths := by
  have hkeeps := Tree.keepsDirectories_of_write hsnapshot
  obtain ⟨directory, hlocate, hthere, rfl⟩ := scripts_eq_ok_iff.mp hscripts
  obtain ⟨_, hplace, _, _, rfl⟩ := Tree.exists_set_of_write_join isFileName_snapshotName hsnapshot
  obtain rfl := Except.ok.inj (hlocate.symm.trans hplace)
  refine scripts_eq_ok_iff.mpr ⟨directory, hkeeps.locate hlocate, hkeeps hthere, ?_⟩
  have hextension : ((f.path.join snapshotName).extension? == some "sql") = false := by
    rw [Path.extension?, Path.fileName?_join isFileName_snapshotName]
    decide
  rw [List.filter_map, List.filter_map, Tree.filter_filesAt_set hextension]

/-- A folder lists the same after a new snapshot. -/
theorem list_of_snapshot (hlist : f.list written = .ok migrations)
    (hsnapshot : written.write f.snapshotPath (.text text) = .ok after) :
    f.list after = .ok migrations := by
  have hkeeps := Tree.keepsDirectories_of_write hsnapshot
  obtain ⟨directory, hlocate, hdirectory, _, _⟩ :=
    Tree.exists_set_of_write_join isFileName_snapshotName hsnapshot
  have hthere := Tree.contains_eq_ok_true_iff.mpr ⟨directory, _, hlocate, hdirectory⟩
  obtain ⟨paths, unsorted, hpaths, hread, rfl⟩ := (list_eq_ok_iff_of_contains hthere).mp hlist
  have hextension : ∀ path ∈ paths, path.extension? = some "sql" := by
    obtain ⟨_, _, _, rfl⟩ := scripts_eq_ok_iff.mp hpaths
    exact fun path hpath => by simpa using (List.mem_filter.mp hpath).2
  refine list_eq_ok_iff.mpr (.inr ⟨?_, paths, unsorted, scripts_of_snapshot hpaths hsnapshot,
    ?_, rfl⟩)
  · exact Tree.contains_eq_ok_true_iff.mpr
      ⟨directory, _, hkeeps.locate hlocate, hkeeps hdirectory⟩
  · apply forall₂_imp_of_mem hread
    intro path hpath m
    apply readMigration_of_readText
    exact fun hsql => readText_of_snapshot (hextension path hpath) hsql hsnapshot

/-! ## Directories that are created -/

theorem scripts_createDirectories {paths : List Path} (hscripts : f.scripts tree = .ok paths) :
    f.scripts (tree.createDirectories f.path).2 = .ok paths := by
  have hextends := tree.extends_createDirectories f.path
  obtain ⟨directory, hlocate, hthere, rfl⟩ := scripts_eq_ok_iff.mp hscripts
  refine scripts_eq_ok_iff.mpr
    ⟨directory, hextends.keepsDirectories.locate hlocate, hextends hthere, ?_⟩
  rw [Tree.filesAt_createDirectories]

/-- A folder that is there lists the same when the directories on its path are created. -/
theorem list_createDirectories (hthere : tree.contains f.path = .ok true)
    (hlist : f.list tree = .ok migrations) :
    f.list (tree.createDirectories f.path).2 = .ok migrations := by
  have hextends := tree.extends_createDirectories f.path
  obtain ⟨paths, unsorted, hscripts, hread, rfl⟩ := (list_eq_ok_iff_of_contains hthere).mp hlist
  obtain ⟨directory, entry, hlocate, hheld⟩ := Tree.contains_eq_ok_true_iff.mp hthere
  refine list_eq_ok_iff.mpr (.inr ⟨?_, paths, unsorted, scripts_createDirectories hscripts, ?_, rfl⟩)
  · exact Tree.contains_eq_ok_true_iff.mpr
      ⟨directory, entry, hextends.keepsDirectories.locate hlocate, hextends hheld⟩
  · exact hread.imp fun _ _ hn => readMigration_of_readText hextends.readText hn

/-- A folder that is missing holds no migration when it is created, unless its path leads up. -/
theorem list_createDirectories_of_down (hclosed : tree.IsClosed) (hdown : ".." ∉ f.path.parts)
    (hmissing : tree.contains f.path = .ok false)
    (hmade : (tree.createDirectories f.path).2.locate f.path = .ok directory)
    (hthere : (tree.createDirectories f.path).2.get? directory = some .directory) :
    f.list (tree.createDirectories f.path).2 = .ok [] := by
  -- A file there would lie in a directory that the path led to before.
  have hnone : tree.filesAt directory = [] := by
    refine List.eq_nil_iff_forall_not_mem.mpr fun name hname => ?_
    obtain ⟨e, he, hfile⟩ := List.mem_filterMap.mp hname
    have hheld : tree.IsReached (directory ++ [name]) := Tree.eq_of_fileIn? hfile ▸ hclosed e he
    rw [contains_of_made hdown hmade hheld] at hmissing
    cases hmissing
  refine list_eq_ok_iff.mpr (.inr ⟨?_, [], [], ?_, .nil, List.mergeSort_nil.symm⟩)
  · exact Tree.contains_eq_ok_true_iff.mpr ⟨directory, _, hmade, hthere⟩
  · refine scripts_eq_ok_iff.mpr ⟨directory, hmade, hthere, ?_⟩
    rw [Tree.filesAt_createDirectories, hnone]
    rfl

/-! ## Generations -/

variable {schema : Path} {name : String} {previous : Document}

/-- A migration that is stored above all that its folder shows, in a file that was not there, is
listed behind them. -/
theorem list_of_write_above (hlist : f.list (tree.createDirectories f.path).2 = .ok migrations)
    (hprepare : f.prepare tree schema previous name now = .ok (text, some m))
    (hnonneg : 0 ≤ m.timestamp.toInt) (hnewest : ∀ n ∈ migrations, n.timestamp < m.timestamp)
    {stored : Migration} (hwrite : f.write m tree = (.ok stored, written)) :
    (∃ directory, written.locate f.path = .ok directory ∧
        tree.get? (directory ++ [m.fileName]) = none) ∧
      f.list written = .ok (migrations ++ [stored]) := by
  obtain ⟨_, _, _, _, hscript⟩ := of_prepare_eq_ok_some hprepare
  have hslug := isSlugChar_of_prepare hprepare
  obtain ⟨made, hmade, hwritten, rfl⟩ := write_eq_ok hwrite
  have hself : m = .ofScript m.timestamp m.slug m.sql := by
    rw [hscript]
    rfl
  have hextends := tree.extends_createDirectories f.path
  rw [hmade] at hlist hextends
  obtain ⟨⟨directory, hlocate, hnew⟩, hlistAfter⟩ :=
    list_of_written hlist hslug hself hnonneg hnewest hwritten
  refine ⟨⟨directory, hlocate, ?_⟩, hlistAfter⟩
  cases hheld : tree.get? (directory ++ [m.fileName]) with
  | none => rfl
  | some entry => exact absurd (hextends hheld) (by simp [hnew])

/-- A migration that is generated from year 0 on and stored has a stamp above all that its folder
lists, and is listed behind them. -/
theorem list_of_write (hlist : f.list tree = .ok migrations)
    (hmax : ∀ n ∈ migrations, n.timestamp ≠ Int64.maxValue) (hyear : 0 ≤ now.date.year)
    (hmade : tree.contains f.path = .ok false →
      f.list (tree.createDirectories f.path).2 = .ok [])
    (hprepare : f.prepare tree schema previous name now = .ok (text, some m))
    {stored : Migration} (hwrite : f.write m tree = (.ok stored, written)) :
    (∀ n ∈ migrations, n.timestamp < m.timestamp) ∧
      (∃ directory, written.locate f.path = .ok directory ∧
        tree.get? (directory ++ [m.fileName]) = none) ∧
      f.list written = .ok (migrations ++ [stored]) := by
  obtain ⟨_, _, _, hstamp, _⟩ := of_prepare_eq_ok_some hprepare
  obtain ⟨hafterNow, hnewest⟩ := lt_nextStamp hlist hmax hstamp
  have hnonneg : 0 ≤ m.timestamp.toInt := by
    have hnow := Stamp.ofInstant_nonneg hyear
    have hle := Int64.le_iff_toInt_le.mp hafterNow
    omega
  have hkept : f.list (tree.createDirectories f.path).2 = .ok migrations := by
    obtain ⟨hmissing, rfl⟩ | ⟨hthere, _⟩ := list_eq_ok_iff.mp hlist
    · exact hmade hmissing
    · exact list_createDirectories hthere hlist
  exact ⟨hnewest, list_of_write_above hkept hprepare hnonneg hnewest hwrite⟩

/-- A migration that is generated from year 0 on has a stamp above all that its folder lists, if the
last stamp is not among these; there was nothing where its file is stored; and the folder lists it
behind the others, with the name, the stamp, the script and the checksum that it was given. A folder
that is missing must not hold migrations once the directories on its path are there. -/
theorem list_of_generate (hlist : f.list tree = .ok migrations)
    (hmax : ∀ n ∈ migrations, n.timestamp ≠ Int64.maxValue) (hyear : 0 ≤ now.date.year)
    (hmade : tree.contains f.path = .ok false →
      f.list (tree.createDirectories f.path).2 = .ok [])
    (h : f.generate schema previous name now tree = (.ok (some m), after)) :
    (∀ n ∈ migrations, n.timestamp < m.timestamp) ∧
      (∃ directory, after.locate f.path = .ok directory ∧
        tree.get? (directory ++ [m.fileName]) = none) ∧
      f.list after = .ok (migrations ++ [m]) := by
  obtain ⟨text, drawn, written, hprepare, hwrite, hsnapshot⟩ := generate_eq_ok_some h
  obtain ⟨_, _, _, rfl⟩ := write_eq_ok hwrite
  obtain ⟨hnewest, ⟨directory, hlocate, hnew⟩, hlisted⟩ :=
    list_of_write hlist hmax hyear hmade hprepare hwrite
  have hlocateAfter := (Tree.keepsDirectories_of_write hsnapshot).locate hlocate
  exact ⟨hnewest, ⟨directory, hlocateAfter, hnew⟩, list_of_snapshot hlisted hsnapshot⟩

/-- A tree that holds a schema and nothing else. -/
def schemaAlone : Tree :=
  (Tree.put {} ⟨"s.keel"⟩ (.text "model User \x7b\n  id Int @id\n\x7d\n")).2

/-- A generation in the year 2023, which makes the folder. -/
def generatedFirst : Except MigrationError (Option Migration) × Tree :=
  generate ⟨⟨"m"⟩⟩ ⟨"s.keel"⟩ {} "Init" ⟨1700000000, 0⟩ schemaAlone

/-- Another one, by a clock that was put back to the start of 1970. -/
def generatedSecond : Except MigrationError (Option Migration) × Tree :=
  generate ⟨⟨"m"⟩⟩ ⟨"s.keel"⟩ {} "Init" ⟨0, 0⟩ generatedFirst.2

theorem list_of_generate_of_schemaAlone :
    ∃ m n between after, generatedFirst = (.ok (some m), between) ∧
      generatedSecond = (.ok (some n), after) ∧ m.timestamp = 20231114221320 ∧
      n.timestamp = 20231114221321 ∧ list ⟨⟨"m"⟩⟩ after = .ok [m, n] := by
  obtain ⟨m, between, hfirst, hstamp⟩ := exists_of_generated
    (show generatedFirst.1.toOption.map (·.map Migration.timestamp) =
      some (some 20231114221320) by decide +kernel)
  obtain ⟨n, after, hsecond, hnext⟩ := exists_of_generated
    (show generatedSecond.1.toOption.map (·.map Migration.timestamp) =
      some (some 20231114221321) by decide +kernel)
  have hclosed : schemaAlone.IsClosed := Tree.IsClosed.empty.put _ _
  obtain ⟨_, _, hlist⟩ := list_of_generate (list_eq_ok_iff.mpr (.inl ⟨rfl, rfl⟩)) (by simp)
    (show 0 ≤ (Instant.date ⟨1700000000, 0⟩).year by decide +kernel)
    (fun hmissing => list_createDirectories_of_down hclosed (by decide) hmissing rfl rfl) hfirst
  have hmax : ∀ m' ∈ [m], m'.timestamp ≠ Int64.maxValue := by
    rw [List.forall_mem_singleton, hstamp]
    decide
  have hthere : between.contains ⟨"m"⟩ = .ok true := by
    have htrue : (generatedFirst.2.contains ⟨"m"⟩).toOption.map id = some true := by
      decide +kernel
    obtain ⟨_, hcontains, rfl⟩ := toOption_map_eq_some_iff.mp htrue
    rwa [hfirst] at hcontains
  obtain ⟨_, _, hafter⟩ := list_of_generate hlist hmax
    (show 0 ≤ (Instant.date ⟨0, 0⟩).year by decide +kernel)
    (fun hmissing => by cases hthere.symm.trans hmissing)
    (by rwa [generatedSecond, hfirst] at hsecond)
  exact ⟨m, n, between, after, hfirst, hsecond, hstamp, hnext, hafter⟩

/-! ## A path that leads up -/

/-- The schema beside a migration. -/
def besideOld : Tree :=
  (schemaAlone.put ⟨"1_old.sql"⟩ (.text "SELECT 1;")).2

/-- The folder of both, at the end of a path through a directory that is missing. -/
def roundabout : Folder := ⟨⟨"new/.."⟩⟩

/-- The migration beside the schema. -/
def old : Migration :=
  { Migration.ofScript 1 "old" "SELECT 1;" with path := ⟨"new/../1_old.sql"⟩ }

/-- The folder is listed as if it were empty. The generation makes the directory that is missing and
so brings the migration to light that was there. -/
theorem list_of_roundabout :
    roundabout.list besideOld = .ok [] ∧ 0 ≤ (Instant.date ⟨0, 0⟩).year ∧ ∃ m after,
      roundabout.generate ⟨"s.keel"⟩ {} "Init" ⟨0, 0⟩ besideOld = (.ok (some m), after) ∧
      roundabout.list after = .ok [old, m] ∧ roundabout.list after ≠ .ok ([] ++ [m]) := by
  have hmade : roundabout.list (besideOld.createDirectories roundabout.path).2 = .ok [old] :=
    list_eq_ok rfl rfl rfl (by simp)
  obtain ⟨m, after, hgenerated, hstamp⟩ := exists_of_generated
    (show (roundabout.generate ⟨"s.keel"⟩ {} "Init" ⟨0, 0⟩ besideOld).1.toOption.map
      (·.map Migration.timestamp) = some (some 19700101000000) by decide +kernel)
  have hnonneg : 0 ≤ m.timestamp.toInt := by
    rw [hstamp]
    decide
  have hnewest : ∀ n ∈ [old], n.timestamp < m.timestamp := by
    rw [List.forall_mem_singleton, hstamp]
    decide
  obtain ⟨_, _, _, hprepare, hwrite, hsnapshot⟩ := generate_eq_ok_some hgenerated
  obtain ⟨_, _, _, rfl⟩ := write_eq_ok hwrite
  have hlist :=
    list_of_snapshot (list_of_write_above hmade hprepare hnonneg hnewest hwrite).2 hsnapshot
  refine ⟨list_eq_ok_iff.mpr (.inl ⟨rfl, rfl⟩), by decide +kernel, _, after, hgenerated, hlist, ?_⟩
  simp [hlist]

end Folder

end SchemaMigration
