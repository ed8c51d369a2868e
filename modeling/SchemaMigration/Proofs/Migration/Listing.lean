import Mathlib.Data.List.Perm.Basic
import SchemaMigration.Proofs.Migration.Newest

/-! # Listed migrations and their files

A folder lists one migration for each of its scripts. The name of the migration is made of the stamp
and the slug that the name of the script tells, so it is the script's but for zeros in front of the
stamp. Where there are none, listed migrations have the names of their files and no two of them the
same. Two scripts whose names differ in nothing but such zeros are listed under one name.
-/

namespace SchemaMigration

open Files (Path Place Tree)
open Number (int64Text natText ofDigits plain)
open Text (isDigit)

/-! ## Names of scripts -/

namespace MigrationName

/-- The name of a file without the zeros in front of it. -/
def withoutZeros (name : String) : List Char :=
  name.toList.dropWhile (· == '0')

/-- Whether a name begins with a zero that another digit follows. -/
def isPadded (name : String) : Bool :=
  match name.toList with
  | '0' :: c :: _ => isDigit c
  | _ => false

/-- What stands before the first underscore and what behind it is told by a text. -/
theorem append_underscore_inj {digits others rest rest' : List Char}
    (hdigits : ∀ c ∈ digits, isDigit c = true) (hothers : ∀ c ∈ others, isDigit c = true) :
    digits ++ '_' :: rest = others ++ '_' :: rest' ↔ digits = others ∧ rest = rest' := by
  have hnot {cs : List Char} (hcs : ∀ c ∈ cs, isDigit c = true) : ∀ c ∈ cs, (c != '_') = true := by
    intro c hc
    rw [bne_iff_ne]
    rintro rfl
    exact absurd (hcs _ hc) (by decide)
  refine ⟨fun h => ?_, fun ⟨hfront, hback⟩ => by rw [hfront, hback]⟩
  have htake := congrArg (List.takeWhile (· != '_')) h
  rw [Grammar.takeWhile_append_of_head (hnot hdigits) rfl,
    Grammar.takeWhile_append_of_head (hnot hothers) rfl] at htake
  subst htake
  exact ⟨rfl, (List.cons.inj (List.append_cancel_left h)).2⟩

theorem dropWhile_append_underscore (digits rest : List Char) :
    (digits ++ '_' :: rest).dropWhile (· == '0') = digits.dropWhile (· == '0') ++ '_' :: rest := by
  rw [List.dropWhile_append]
  split
  next hzeros =>
    rw [List.isEmpty_iff.mp hzeros]
    rfl
  next => rfl

end MigrationName

namespace Migration

open MigrationName

variable {m n : Migration} {name other : String}

/-- A migration has the stamp and the slug that the name of a file tells. -/
def IsOf (m : Migration) (name : String) : Prop :=
  ∃ digits, name.toList = digits ++ '_' :: (m.slug.toList ++ ".sql".toList) ∧ digits ≠ [] ∧
    (∀ c ∈ digits, isDigit c = true) ∧ m.slug ≠ "" ∧ m.timestamp.toInt = ofDigits digits

theorem int64Text_of_digits {digits : List Char} (hdigits : ∀ c ∈ digits, isDigit c = true)
    (hstamp : m.timestamp.toInt = ofDigits digits) :
    (int64Text m.timestamp).toList = plain digits := by
  rw [int64Text, hstamp]
  simp [Number.intText, natText, Number.toDigits_ofDigits hdigits]

/-- The name of the file that a migration was read from is the one it would be stored under, unless
there are zeros in front. -/
theorem IsOf.fileName_eq_iff (h : m.IsOf name) : m.fileName = name ↔ isPadded name = false := by
  obtain ⟨digits, hname, hne, hdigits, _, hstamp⟩ := h
  have hfile : m.fileName.toList = plain digits ++ '_' :: (m.slug.toList ++ ".sql".toList) := by
    rw [fileName, String.toList_append, name_toList, int64Text_of_digits hdigits hstamp,
      List.append_assoc, List.cons_append]
  rw [← String.toList_inj, hfile, hname, List.append_cancel_right_eq,
    Number.plain_eq_self_iff hne]
  obtain ⟨c, cs, rfl⟩ := List.exists_cons_of_ne_nil hne
  unfold isPadded
  rw [hname]
  by_cases hc : c = '0'
  · subst hc
    cases cs with
    | nil => simp [isDigit]
    | cons d ds => simp [hdigits d (by simp)]
  · simp [hc]

/-- Migrations have one name exactly when the names of their files differ in nothing but zeros in
front. -/
theorem IsOf.name_eq_iff (hm : m.IsOf name) (hn : n.IsOf other) :
    m.name = n.name ↔ withoutZeros name = withoutZeros other := by
  obtain ⟨digits, hname, _, hdigits, _, hstamp⟩ := hm
  obtain ⟨digits', hother, _, hdigits', _, hstamp'⟩ := hn
  have hplain {ds : List Char} (hds : ∀ c ∈ ds, isDigit c = true) :
      ∀ c ∈ plain ds, isDigit c = true := by
    rw [← Number.toDigits_ofDigits hds]
    exact fun c => Number.isDigit_of_mem_toDigits
  have hdrop {ds : List Char} (hds : ∀ c ∈ ds, isDigit c = true) :
      ∀ c ∈ ds.dropWhile (· == '0'), isDigit c = true :=
    fun c hc => hds c ((List.dropWhile_suffix _).subset hc)
  rw [← String.toList_inj, name_toList, name_toList, int64Text_of_digits hdigits hstamp,
    int64Text_of_digits hdigits' hstamp', append_underscore_inj (hplain hdigits) (hplain hdigits'),
    Number.plain_eq_plain_iff, withoutZeros, withoutZeros, hname, hother,
    dropWhile_append_underscore, dropWhile_append_underscore,
    append_underscore_inj (hdrop hdigits) (hdrop hdigits'), List.append_cancel_right_eq]

theorem IsOf.timestamp_eq (hm : m.IsOf name) (hn : n.IsOf other) (h : m.name = n.name) :
    m.timestamp = n.timestamp := by
  obtain ⟨_, _, _, _, hslug, hstamp⟩ := hm
  obtain ⟨_, _, _, _, hslug', hstamp'⟩ := hn
  have hread := parse_name hslug
  rw [h, parse_name hslug', if_pos (by omega), if_pos (by omega)] at hread
  exact (Prod.mk.inj (Except.ok.inj hread)).1.symm

/-- The order of migrations without those that are at one place in it. -/
def StrictlyBefore (m n : Migration) : Prop :=
  m.timestamp < n.timestamp ∨ m.timestamp = n.timestamp ∧ m.name < n.name

theorem IsOf.strictlyBefore_iff (hm : m.IsOf name) (hn : n.IsOf other) :
    m.StrictlyBefore n ↔ m.before n = true ∧ m.name ≠ n.name := by
  rw [before_iff, StrictlyBefore]
  constructor
  · rintro (hlt | ⟨heq, hlt⟩)
    · refine ⟨.inl hlt, fun hname => ?_⟩
      rw [hm.timestamp_eq hn hname] at hlt
      exact Int64.lt_irrefl hlt
    · exact ⟨.inr ⟨heq, String.not_lt.mp (String.lt_asymm hlt)⟩, String.ne_of_lt hlt⟩
  · rintro ⟨hlt | ⟨heq, hle⟩, hne⟩
    · exact .inl hlt
    · exact .inr ⟨heq, String.not_le.mp fun hge => hne (String.le_antisymm hle hge)⟩

end Migration

/-! ## Listings -/

/-- A directory holds files as directories do: under names that can be those of files, and no two of
them under one name. -/
structure Files.Tree.HoldsFiles (t : Tree) (directory : Place) : Prop where
  named : ∀ name ∈ t.filesAt directory, Path.IsFileName name
  nodup : (t.filesAt directory).Nodup

namespace Folder

open MigrationName

variable {f : Folder} {tree : Tree} {directory : Place} {migrations : List Migration}
  {m : Migration} {name : String}

/-- The names of the files in a directory that are scripts. -/
def scriptNames (tree : Tree) (directory : Place) : List String :=
  (tree.filesAt directory).filter fun name => Path.extension? ⟨name⟩ == some "sql"

/-- A script tells the stamp and the slug of the migration that is read from it. -/
theorem isOf_of_readMigration (hname : Path.IsFileName name)
    (hscript : Path.extension? ⟨name⟩ = some "sql")
    (hread : readMigration tree (f.path.join name) = .ok m) :
    m.IsOf name ∧ m.path = f.path.join name := by
  obtain ⟨stem, timestamp, slug, sql, hstem, hparse, _, rfl⟩ := readMigration_eq_ok_iff.mp hread
  obtain ⟨stem', hstem', hsplit⟩ := Path.exists_stem?_join (p := f.path) hname hscript
  obtain rfl := Option.some.inj (hstem'.symm.trans hstem)
  obtain ⟨digits, hdigits, hne, hall, hslug, hstamp⟩ := parse_eq_ok_iff.mp hparse
  refine ⟨⟨digits, ?_, hne, hall, hslug, hstamp⟩, rfl⟩
  rw [hsplit, hdigits, List.append_assoc, List.cons_append]
  rfl

/-- Results that stand for members of a list repeat a key exactly when the members do. -/
theorem nodup_map_iff {α β γ δ : Type} {rel : α → β → Prop} {k : α → γ} {g : β → δ}
    (hkey : ∀ {a b a' b'}, rel a b → rel a' b' → (k a = k a' ↔ g b = g b'))
    {as : List α} {bs : List β} (h : List.Forall₂ rel as bs) :
    (as.map k).Nodup ↔ (bs.map g).Nodup := by
  induction h with
  | nil => simp
  | @cons a b as bs hrel hrest ih =>
      rw [List.map_cons, List.map_cons, List.nodup_cons, List.nodup_cons, ih, List.mem_map,
        List.mem_map]
      refine and_congr_left' (not_congr ⟨?_, ?_⟩)
      · rintro ⟨a', ha', heq⟩
        obtain ⟨b', hb', hrel'⟩ := exists_of_mem_left hrest ha'
        exact ⟨b', hb', (hkey hrel' hrel).mp heq⟩
      · rintro ⟨b', hb', heq⟩
        obtain ⟨a', ha', hrel'⟩ := exists_of_mem_right hrest hb'
        exact ⟨a', ha', (hkey hrel' hrel).mpr heq⟩

/-- Results have all the members they stand for as their values exactly when each of them has. -/
theorem map_eq_iff {α β : Type} {rel : α → β → Prop} {g : β → α} {p : α → Prop}
    (hvalue : ∀ {a b}, rel a b → (g b = a ↔ p a)) {as : List α} {bs : List β}
    (h : List.Forall₂ rel as bs) : bs.map g = as ↔ ∀ a ∈ as, p a := by
  induction h with
  | nil => simp
  | cons hrel _ ih => rw [List.map_cons, List.cons.injEq, List.forall_mem_cons, hvalue hrel, ih]

/-- A folder lists one migration for each of its scripts. -/
theorem exists_names_of_list (hfiles : tree.HoldsFiles directory)
    (hlocate : tree.locate f.path = .ok directory)
    (hthere : tree.get? directory = some .directory) (hlist : f.list tree = .ok migrations) :
    ∃ names, names.Perm (scriptNames tree directory) ∧
      List.Forall₂ (fun name m => readMigration tree (f.path.join name) = .ok m ∧
        m.IsOf name ∧ m.path = f.path.join name) names migrations := by
  have hcontains := Tree.contains_eq_ok_true_iff.mpr ⟨directory, _, hlocate, hthere⟩
  obtain ⟨paths, unsorted, hpaths, hread, rfl⟩ := (list_eq_ok_iff_of_contains hcontains).mp hlist
  obtain ⟨_, hlocate', _, rfl⟩ := scripts_eq_ok_iff.mp hpaths
  obtain rfl := Except.ok.inj (hlocate.symm.trans hlocate')
  have hscripts : ((tree.filesAt directory).map f.path.join).filter
      (fun path => path.extension? == some "sql") =
        (scriptNames tree directory).map f.path.join := by
    rw [List.filter_map, scriptNames]
    refine congrArg _ (List.filter_congr fun name hname => ?_)
    rw [Function.comp_apply, Path.extension?_join (hfiles.named name hname)]
  rw [hscripts, List.forall₂_map_left_iff] at hread
  have hnames : List.Forall₂ (fun name m => readMigration tree (f.path.join name) = .ok m ∧
      m.IsOf name ∧ m.path = f.path.join name) (scriptNames tree directory) unsorted := by
    apply forall₂_imp_of_mem hread
    intro name hname m hm
    obtain ⟨hfile, hscript⟩ := List.mem_filter.mp hname
    exact ⟨hm, isOf_of_readMigration (hfiles.named name hfile) (beq_iff_eq.mp hscript) hm⟩
  -- Sorting the migrations rearranges the names along with them.
  obtain ⟨names, hsorted, hperm⟩ :=
    List.perm_comp_forall₂ (List.mergeSort_perm unsorted Migration.before) hnames.flip
  exact ⟨names, hperm, hsorted.flip⟩

/-- A folder that is listed gives one migration for each of its scripts, read from it. The migrations
have the names of their files exactly when no script has a zero in front of other digits, and then
their names are all different. In general their names are different exactly when no two scripts
differ in nothing but zeros in front, and exactly then the listing is strictly increasing. -/
theorem list_names_iff (hfiles : tree.HoldsFiles directory)
    (hlocate : tree.locate f.path = .ok directory)
    (hthere : tree.get? directory = some .directory) (hlist : f.list tree = .ok migrations) :
    ∃ names, names.Perm (scriptNames tree directory) ∧
      List.Forall₂ (fun name m => readMigration tree (f.path.join name) = .ok m ∧
        m.path = f.path.join name) names migrations ∧
      (migrations.map Migration.fileName = names ↔ ∀ name ∈ names, isPadded name = false) ∧
      (migrations.map Migration.fileName = names → (migrations.map Migration.name).Nodup) ∧
      ((migrations.map Migration.name).Nodup ↔ (names.map withoutZeros).Nodup) ∧
      (migrations.Pairwise Migration.StrictlyBefore ↔ (names.map withoutZeros).Nodup) := by
  obtain ⟨names, hperm, hread⟩ := exists_names_of_list hfiles hlocate hthere hlist
  have hof := hread.imp fun _ _ h => (h.2.1 : Migration.IsOf _ _)
  have hdistinct : (migrations.map Migration.name).Nodup ↔ (names.map withoutZeros).Nodup :=
    (nodup_map_iff (fun hm hn => (hm.name_eq_iff hn).symm) hof).symm
  refine ⟨names, hperm, hread.imp fun _ _ h => ⟨h.1, h.2.2⟩,
    map_eq_iff (fun h => h.fileName_eq_iff) hof, fun hnames => ?_, hdistinct, ?_⟩
  · apply List.Nodup.of_map (· ++ ".sql")
    rw [List.map_map]
    exact hnames ▸ hperm.nodup_iff.mpr (hfiles.nodup.filter _)
  · have hstrict : migrations.Pairwise Migration.StrictlyBefore ↔
        migrations.Pairwise fun m n => m.before n = true ∧ m.name ≠ n.name := by
      apply List.Pairwise.iff_of_mem
      intro m n hm hn
      obtain ⟨_, _, hm⟩ := exists_of_mem_right hof hm
      obtain ⟨_, _, hn⟩ := exists_of_mem_right hof hn
      exact hm.strictlyBefore_iff hn
    rw [hstrict, List.pairwise_and_iff, ← hdistinct, List.Nodup, List.pairwise_map]
    exact and_iff_right (pairwise_list hlist)

/-- A directory of two scripts whose names differ in a zero in front. -/
def twiceFirst : Tree :=
  ((Tree.put {} ⟨"m/1_a.sql"⟩ (.text "SELECT 1;")).2.put ⟨"m/01_a.sql"⟩ (.text "SELECT 1;")).2

/-- What is read of either script. -/
def firstAt (path : String) : Migration :=
  { Migration.ofScript 1 "a" "SELECT 1;" with path := ⟨path⟩ }

/-- Both scripts are listed, under one name that is that of one of their files. -/
theorem list_names_iff_of_twiceFirst :
    twiceFirst.HoldsFiles ["m"] ∧
      scriptNames twiceFirst ["m"] = ["1_a.sql", "01_a.sql"] ∧
      list ⟨⟨"m"⟩⟩ twiceFirst = .ok [firstAt "m/1_a.sql", firstAt "m/01_a.sql"] ∧
      (∃ names, names.Perm ["1_a.sql", "01_a.sql"] ∧
        [firstAt "m/1_a.sql", firstAt "m/01_a.sql"].map Migration.fileName ≠ names) ∧
      ¬ [firstAt "m/1_a.sql", firstAt "m/01_a.sql"].Pairwise Migration.StrictlyBefore := by
  have hfiles : twiceFirst.HoldsFiles ["m"] := by
    refine ⟨fun name hname => ?_, by decide⟩
    rcases List.mem_cons.mp hname with rfl | hname
    · exact ⟨by decide, by decide, by decide⟩
    · rw [List.mem_singleton.mp hname]
      exact ⟨by decide, by decide, by decide⟩
  have hscripts : scriptNames twiceFirst ["m"] = ["1_a.sql", "01_a.sql"] := by decide
  have hlist : list ⟨⟨"m"⟩⟩ twiceFirst =
      .ok [firstAt "m/1_a.sql", firstAt "m/01_a.sql"] := by
    refine list_eq_ok rfl rfl rfl ?_
    simp [Migration.before_iff, firstAt, Migration.name, Migration.ofScript]
  obtain ⟨names, hperm, _, hplain, _, _, hstrict⟩ := list_names_iff hfiles rfl rfl hlist
  rw [hscripts] at hperm
  refine ⟨hfiles, hscripts, hlist, ⟨names, hperm, fun hnames => ?_⟩, fun hsorted => ?_⟩
  · have hpadded := hplain.mp hnames "01_a.sql" (hperm.mem_iff.mpr (by simp))
    revert hpadded
    decide
  · have hnodup := (hperm.map withoutZeros).nodup_iff.mp (hstrict.mp hsorted)
    revert hnodup
    decide

end Folder

end SchemaMigration
