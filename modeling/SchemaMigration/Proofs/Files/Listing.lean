import Mathlib.Data.List.Induction
import SchemaMigration.Proofs.Files.Path

/-! # The files of a tree

A directory that is created holds no file, so all files stay what they were and none comes to light
in a directory that was there. A file that is written is one more file of its directory, or replaces
the file of its name.

What a tree holds lies in directories of the tree, and the operations keep it so.
-/

namespace SchemaMigration.Files.Tree

variable {t t' : Tree} {p : Path} {name : String} {parts names : List String}
  {here place directory : Place} {entry : Entry} {content : Content}

/-! ## Entries -/

theorem notMem_of_get?_eq_none (hfree : t.get? place = none) :
    ∀ e ∈ t.entries, e.1 ≠ place := by
  have hplace : place ≠ [] := ne_nil_of_get?_ne (t := t) (by simp [hfree])
  rw [get?, if_neg hplace, List.lookup_eq_none_iff] at hfree
  intro e he heq
  have hne := hfree e he
  rw [heq] at hne
  simp at hne

/-- What is set where there was nothing is held last. -/
theorem entries_set_of_free (hfree : t.get? place = none) :
    (t.set place entry).entries = t.entries ++ [(place, entry)] := by
  have hnone : t.entries.any (fun e => e.1 == place) = false := by
    rw [List.any_eq_false]
    exact fun e he => by simpa using notMem_of_get?_eq_none hfree e he
  rw [set, hnone]
  rfl

theorem mem_entries_set {e : Place × Entry} (h : e ∈ (t.set place entry).entries) :
    e.1 = place ∨ e ∈ t.entries := by
  unfold set at h
  split at h
  next =>
    obtain ⟨held, hheld, rfl⟩ := List.mem_map.mp h
    split
    next => exact .inl rfl
    next => exact .inr hheld
  next =>
    rcases List.mem_append.mp h with h | h
    · exact .inr h
    · exact .inl (by rw [List.mem_singleton.mp h])

/-! ## Names in a directory -/

/-- The name of what a tree holds, if it is a file in a directory. -/
def fileIn? (directory : Place) : Place × Entry → Option String
  | (place, .file _) => if place.dropLast = directory then place.getLast? else none
  | (_, .directory) => none

/-- The names of the files in a directory. -/
def filesAt (t : Tree) (directory : Place) : List String :=
  t.entries.filterMap (fileIn? directory)

theorem fileIn?_append (directory : Place) (name : String) (content : Content) :
    fileIn? directory (directory ++ [name], .file content) = some name := by
  simp [fileIn?]

theorem eq_of_fileIn? {e : Place × Entry} (h : fileIn? directory e = some name) :
    e.1 = directory ++ [name] := by
  obtain ⟨file, _ | content⟩ := e
  · cases h
  · simp only [fileIn?] at h
    split at h
    next hdirectory =>
      obtain ⟨before, rfl⟩ := List.getLast?_eq_some_iff.mp h
      rw [← hdirectory, List.dropLast_concat]
    next => cases h

theorem files_eq_ok_iff : t.files p = .ok names ↔
    ∃ directory, t.locate p = .ok directory ∧ t.get? directory = some .directory ∧
      names = t.filesAt directory := by
  unfold files
  rw [bind_eq_ok_iff]
  refine exists_congr fun directory => and_congr_right fun _ => ?_
  rcases t.get? directory with _ | _ | content
  · simp [throw, throwThe, MonadExceptOf.throw]
  · simp only [pure_eq_ok_iff, true_and]
    refine Iff.of_eq (congrArg (names = ·) (List.filterMap_congr fun e _ => ?_))
    rcases e with ⟨file, _ | content⟩ <;> rfl
  · simp [throw, throwThe, MonadExceptOf.throw]

/-- A directory that is created shows no file. -/
theorem filesAt_createDirectories (t : Tree) (p : Path) (directory : Place) :
    (t.createDirectories p).2.filesAt directory = t.filesAt directory := by
  refine createDirectories_keeps (fun t' => t'.filesAt directory = t.filesAt directory)
    (fun t' place h hfree _ => ?_) rfl p
  rw [filesAt, entries_set_of_free hfree, List.filterMap_append, ← filesAt, h]
  simp [fileIn?]

/-- A new file is the last one of its directory. -/
theorem filesAt_set_of_free (hfree : t.get? (directory ++ [name]) = none) :
    (t.set (directory ++ [name]) (.file content)).filesAt directory =
      t.filesAt directory ++ [name] := by
  rw [filesAt, entries_set_of_free hfree, List.filterMap_append, ← filesAt,
    List.filterMap_cons_some (fileIn?_append directory name content), List.filterMap_nil]

/-- Among the files that have not its name, a file that is written does not count. -/
theorem filter_filesAt_set {keeps : String → Bool} (hname : keeps name = false) :
    ((t.set (directory ++ [name]) (.file content)).filesAt directory).filter keeps =
      (t.filesAt directory).filter keeps := by
  have hwritten := fileIn?_append directory name content
  unfold filesAt set
  split
  next =>
    induction t.entries with
    | nil => rfl
    | cons e entries ih =>
        rw [List.map_cons]
        split
        next heq =>
          -- What was held under the name is left out as well.
          rw [List.filterMap_cons_some hwritten, List.filter_cons_of_neg (by simp [hname]), ih]
          obtain ⟨held, _ | replaced⟩ := e
          · rfl
          · obtain rfl : held = directory ++ [name] := beq_iff_eq.mp heq
            rw [List.filterMap_cons_some (fileIn?_append directory name replaced),
              List.filter_cons_of_neg (by simp [hname])]
        next =>
          cases hfile : fileIn? directory e with
          | none => rw [List.filterMap_cons_none hfile, List.filterMap_cons_none hfile, ih]
          | some other =>
              rw [List.filterMap_cons_some hfile, List.filterMap_cons_some hfile,
                List.filter_cons, List.filter_cons, ih]
  next =>
    rw [List.filterMap_append, List.filterMap_cons_some hwritten, List.filterMap_nil,
      List.filter_append, List.filter_cons_of_neg (by simp [hname]), List.filter_nil,
      List.append_nil]

/-- A path leads to a place of the name of its file. -/
theorem getLast?_of_foldlM (hlast : (parts.filter fun part => !Path.stays part).getLast? = some name)
    (hup : name ≠ "..") (hfollow : parts.foldlM t.follow here = .ok place) :
    place.getLast? = some name := by
  induction parts using List.reverseRecOn generalizing place with
  | nil => cases hlast
  | append_singleton parts part ih =>
      rw [List.foldlM_append] at hfollow
      obtain ⟨before, hbefore, hpart⟩ := bind_eq_ok_iff.mp hfollow
      rw [List.foldlM_cons] at hpart
      obtain ⟨last, hstep, hplace⟩ := bind_eq_ok_iff.mp hpart
      obtain rfl : place = last := pure_eq_ok_iff.mp hplace
      rw [List.filter_append, List.filter_singleton] at hlast
      obtain ⟨hstays, rfl⟩ | ⟨rfl, _⟩ | ⟨hgoes, _, _, rfl⟩ := (follow_eq_ok_iff.mp hstep).2
      · rw [hstays] at hlast
        exact ih (by simpa using hlast) hbefore
      · have hname : ".." = name := by simpa [Path.stays] using hlast
        exact absurd hname.symm hup
      · rw [hgoes] at hlast
        have hname : part = name := by simpa using hlast
        rw [hname, List.getLast?_concat]

theorem getLast?_of_locate (hname : p.fileName? = some name) (hlocate : t.locate p = .ok place) :
    place.getLast? = some name := by
  unfold Path.fileName? at hname
  split at hname
  next last hlast =>
    split at hname
    next => cases hname
    next hup =>
      obtain rfl := Option.some.inj hname
      exact getLast?_of_foldlM hlast hup (locate_eq_ok_iff.mp hlocate).2
  next => cases hname

/-- What is written to a file in a directory is set there. -/
theorem exists_set_of_write_join (hname : Path.IsFileName name)
    (hwrite : t.write (p.join name) content = .ok t') :
    ∃ directory, t.locate p = .ok directory ∧ t.get? directory = some .directory ∧
      t.get? (directory ++ [name]) ≠ some .directory ∧
      t' = t.set (directory ++ [name]) (.file content) := by
  obtain ⟨place, hlocate, hfree, rfl⟩ := write_eq_ok_iff.mp hwrite
  obtain ⟨directory, hdirectory, hthere, rfl⟩ := exists_directory_of_locate_join hname hlocate
  exact ⟨directory, hdirectory, hthere, hfree, rfl⟩

/-! ## Files that stay -/

/-- Two trees hold the same files. -/
def SameFiles (t t' : Tree) : Prop :=
  ∀ place content, t'.get? place = some (.file content) ↔ t.get? place = some (.file content)

/-- Creating directories leaves all files as they are. -/
theorem sameFiles_createDirectories (t : Tree) (p : Path) :
    t.SameFiles (t.createDirectories p).2 := by
  refine createDirectories_keeps t.SameFiles (fun t' place h hfree _ => ?_)
    (fun _ _ => Iff.rfl) p
  intro other content
  have hplace : place ≠ [] := ne_nil_of_get?_ne (t := t') (by simp [hfree])
  rw [← h other content, get?_set hplace]
  split
  next heq => simp [heq, hfree]
  next => rfl

/-! ## Closed trees -/

/-- All that a tree holds lies in directories that it holds. -/
def IsClosed (t : Tree) : Prop :=
  ∀ e ∈ t.entries, t.IsReached e.1

namespace IsClosed

theorem empty : IsClosed {} :=
  fun _ he => nomatch he

theorem set (h : t.IsClosed) (hplace : t.IsReached place)
    (hkeeps : t.KeepsDirectories (t.set place entry)) : (t.set place entry).IsClosed := by
  intro e he above hprefix hne
  refine hkeeps ?_
  rcases mem_entries_set he with rfl | he
  · exact hplace above hprefix hne
  · exact h e he above hprefix hne

theorem createDirectories (h : t.IsClosed) (p : Path) : (t.createDirectories p).2.IsClosed :=
  createDirectories_keeps IsClosed
    (fun _ _ h hfree hplace => h.set hplace (extends_set hfree).keepsDirectories) h p

theorem write (h : t.IsClosed) (hwrite : t.write p content = .ok t') : t'.IsClosed := by
  obtain ⟨place, hlocate, _, rfl⟩ := write_eq_ok_iff.mp hwrite
  exact h.set (isReached_of_locate hlocate) (keepsDirectories_of_write hwrite)

theorem put (h : t.IsClosed) (p : Path) (content : Content) : (t.put p content).2.IsClosed := by
  have hcreated := h.createDirectories p.parent
  unfold Tree.put
  split
  next heq => exact heq ▸ hcreated
  next made heq =>
    rw [heq] at hcreated
    split
    next => exact hcreated
    next hwrite => exact hcreated.write hwrite

end IsClosed

end SchemaMigration.Files.Tree
