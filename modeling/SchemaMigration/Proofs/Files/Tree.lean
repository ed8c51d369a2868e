import SchemaMigration.Files.Tree
import SchemaMigration.Proofs.Fallible

/-! # What a tree holds after it is changed

A path is followed through directories only. So what it leads to is the same in every tree that
keeps these directories, and what was written at the end of a path is read back there. Creating
directories takes nothing away, and writing a file changes one place.
-/

namespace SchemaMigration.Files.Tree

variable {t t' : Tree} {p : Path} {part text : String} {parts : List String}
  {here place other : Place} {entry : Entry} {content : Content}

/-! ## Places -/

theorem get?_nil (t : Tree) : t.get? [] = some .directory :=
  if_pos rfl

theorem ne_nil_of_get?_ne (h : t.get? place ≠ some .directory) : place ≠ [] := by
  rintro rfl
  exact h t.get?_nil

theorem lookup_replaced (entries : List (Place × Entry)) (hother : other ≠ place) :
    (entries.map fun e => if e.1 == place then (place, entry) else e).lookup other =
      entries.lookup other := by
  induction entries with
  | nil => rfl
  | cons e entries ih =>
      rw [List.map_cons, List.lookup_cons, List.lookup_cons, ih]
      by_cases he : e.1 = place
      · have hne : (other == place) = false := beq_false_of_ne hother
        simp [he, hne]
      · simp [he]

theorem lookup_replaced_self {entries : List (Place × Entry)}
    (h : entries.any (fun e => e.1 == place) = true) :
    (entries.map fun e => if e.1 == place then (place, entry) else e).lookup place =
      some entry := by
  induction entries with
  | nil => simp at h
  | cons e entries ih =>
      rw [List.map_cons, List.lookup_cons]
      by_cases he : e.1 = place
      · simp [he]
      · have hrest : entries.any (fun e => e.1 == place) = true := by simpa [he] using h
        have hne : (place == e.1) = false := beq_false_of_ne (Ne.symm he)
        have hkeep : (e.1 == place) = false := beq_false_of_ne he
        rw [hkeep, if_neg Bool.false_ne_true, hne]
        exact ih hrest

/-- Setting a place changes what is there and nothing else. -/
theorem get?_set (hplace : place ≠ []) (other : Place) :
    (t.set place entry).get? other = if other = place then some entry else t.get? other := by
  unfold get?
  by_cases hnil : other = []
  · simp [hnil, Ne.symm hplace]
  rw [if_neg hnil, if_neg hnil, set]
  split
  next hany =>
    split
    next heq =>
      rw [heq]
      exact lookup_replaced_self hany
    next hne => exact lookup_replaced _ hne
  next hany =>
    rw [List.lookup_append]
    split
    next heq =>
      have hnone : t.entries.lookup place = none := by
        rw [List.lookup_eq_none_iff]
        intro e he
        refine bne_iff_ne.mpr fun hkey => ?_
        exact hany (List.any_eq_true.mpr ⟨e, he, beq_iff_eq.mpr hkey.symm⟩)
      rw [heq, hnone, Option.none_or, List.lookup_cons, beq_self_eq_true]
    next hne => rw [List.lookup_cons, beq_false_of_ne hne, List.lookup_nil, Option.or_none]

/-! ## Following a path -/

theorem follow_eq_ok_iff : t.follow here part = .ok place ↔
    t.get? here = some .directory ∧
      (Path.stays part = true ∧ place = here ∨ part = ".." ∧ place = here.dropLast ∨
        Path.stays part = false ∧ part ≠ ".." ∧ isName part = true ∧ place = here ++ [part]) := by
  unfold follow
  cases t.get? here with
  | none => simp
  | some entry =>
      cases entry with
      | file content => simp
      | directory =>
          have hstays : Path.stays part = true ↔ part = "" ∨ part = "." := by simp [Path.stays]
          have hok (a b : Place) : (.ok a : Except Fault Place) = .ok b ↔ b = a := ok_eq_ok_iff
          by_cases hstay : part = "" ∨ part = "."
          · have hup : part ≠ ".." := by rintro rfl; simp at hstay
            simp [hstay, hup, hstays.mpr hstay, hok]
          · have hgoes : Path.stays part = false :=
              Bool.eq_false_iff.mpr fun h => hstay (hstays.mp h)
            by_cases hup : part = ".."
            · subst hup
              simp [hgoes, hok]
            · by_cases hname : isName part = true
              · simp [hstay, hgoes, hup, hname, hok]
              · simp [hstay, hgoes, hup, hname]

theorem locate_eq_ok_iff :
    t.locate p = .ok place ↔ p.isUsable = true ∧ p.parts.foldlM t.follow [] = .ok place := by
  unfold locate
  split
  next h => simp [h]
  next h => simp [h]

/-- The directories of a tree are directories of another one. -/
def KeepsDirectories (t t' : Tree) : Prop :=
  ∀ ⦃place⦄, t.get? place = some .directory → t'.get? place = some .directory

namespace KeepsDirectories

theorem follow (h : t.KeepsDirectories t') (hfollow : t.follow here part = .ok place) :
    t'.follow here part = .ok place := by
  rw [follow_eq_ok_iff] at hfollow ⊢
  exact ⟨h hfollow.1, hfollow.2⟩

theorem foldlM_follow (h : t.KeepsDirectories t')
    (hfollow : parts.foldlM t.follow here = .ok place) :
    parts.foldlM t'.follow here = .ok place := by
  induction parts generalizing here with
  | nil => exact hfollow
  | cons part parts ih =>
      rw [List.foldlM_cons] at hfollow ⊢
      obtain ⟨next, hnext, hrest⟩ := bind_eq_ok_iff.mp hfollow
      exact bind_eq_ok_iff.mpr ⟨next, h.follow hnext, ih hrest⟩

theorem locate (h : t.KeepsDirectories t') (hlocate : t.locate p = .ok place) :
    t'.locate p = .ok place := by
  rw [locate_eq_ok_iff] at hlocate ⊢
  exact ⟨hlocate.1, h.foldlM_follow hlocate.2⟩

end KeepsDirectories

/-- All that leads to a place are directories. -/
def IsReached (t : Tree) (place : Place) : Prop :=
  ∀ above, above <+: place → above ≠ place → t.get? above = some .directory

theorem isReached_nil (t : Tree) : t.IsReached [] :=
  fun _ hprefix hne => absurd (List.prefix_nil.mp hprefix) hne

theorem IsReached.follow (h : t.IsReached here) (hfollow : t.follow here part = .ok place) :
    t.IsReached place := by
  obtain ⟨hdirectory, hplace⟩ := follow_eq_ok_iff.mp hfollow
  intro above hprefix hne
  obtain ⟨_, rfl⟩ | ⟨_, rfl⟩ | ⟨_, _, _, rfl⟩ := hplace
  · exact h above hprefix hne
  · have habove : above <+: here := hprefix.trans (List.dropLast_prefix here)
    by_cases heq : above = here
    · exact heq ▸ hdirectory
    · exact h above habove heq
  · rcases List.prefix_concat_iff.mp hprefix with heq | habove
    · exact absurd heq hne
    · by_cases heq : above = here
      · exact heq ▸ hdirectory
      · exact h above habove heq

/-- A path leads to places that lie in directories, also if it leads up in between. -/
theorem isReached_of_foldlM (h : t.IsReached here)
    (hfollow : parts.foldlM t.follow here = .ok place) : t.IsReached place := by
  induction parts generalizing here with
  | nil =>
      rw [List.foldlM_nil, pure_eq_ok_iff] at hfollow
      exact hfollow ▸ h
  | cons part parts ih =>
      rw [List.foldlM_cons] at hfollow
      obtain ⟨next, hnext, hrest⟩ := bind_eq_ok_iff.mp hfollow
      exact ih (h.follow hnext) hrest

theorem isReached_of_locate (h : t.locate p = .ok place) : t.IsReached place :=
  isReached_of_foldlM t.isReached_nil (locate_eq_ok_iff.mp h).2

/-- Parts that do not lead up lead on. -/
theorem prefix_of_foldlM (hdown : ".." ∉ parts)
    (hfollow : parts.foldlM t.follow here = .ok place) : here <+: place := by
  induction parts generalizing here with
  | nil =>
      rw [List.foldlM_nil, pure_eq_ok_iff] at hfollow
      exact hfollow ▸ List.prefix_rfl
  | cons part parts ih =>
      obtain ⟨hpart, hrest⟩ := not_or.mp (mt List.mem_cons.mpr hdown)
      rw [List.foldlM_cons] at hfollow
      obtain ⟨next, hnext, hfollow⟩ := bind_eq_ok_iff.mp hfollow
      have hstep : here <+: next := by
        obtain ⟨_, rfl⟩ | ⟨hup, _⟩ | ⟨_, _, _, rfl⟩ := (follow_eq_ok_iff.mp hnext).2
        · exact List.prefix_rfl
        · exact absurd hup.symm hpart
        · exact List.prefix_append _ _
      exact hstep.trans (ih hrest hfollow)

/-- Where a path without a way up leads in one tree, it leads in every tree in which there are
directories up to there. -/
theorem foldlM_follow_of_isReached (hdown : ".." ∉ parts) (hreached : t'.IsReached place)
    (hplace : t'.get? place = some .directory)
    (hfollow : parts.foldlM t.follow here = .ok place) :
    parts.foldlM t'.follow here = .ok place := by
  induction parts generalizing here with
  | nil => exact hfollow
  | cons part parts ih =>
      rw [List.foldlM_cons] at hfollow ⊢
      obtain ⟨next, hnext, hrest⟩ := bind_eq_ok_iff.mp hfollow
      have habove : here <+: place :=
        prefix_of_foldlM hdown (by rwa [List.foldlM_cons])
      have hhere : t'.get? here = some .directory := by
        by_cases heq : here = place
        · exact heq ▸ hplace
        · exact hreached here habove heq
      refine bind_eq_ok_iff.mpr ⟨next, ?_, ih (mt (List.mem_cons_of_mem _) hdown) hrest⟩
      exact follow_eq_ok_iff.mpr ⟨hhere, (follow_eq_ok_iff.mp hnext).2⟩

/-! ## Reading and writing -/

theorem contains_eq_ok_true_iff : t.contains p = .ok true ↔
    ∃ place entry, t.locate p = .ok place ∧ t.get? place = some entry := by
  unfold contains
  cases t.locate p with
  | error fault => cases fault <;> simp
  | ok place => simp [Option.isSome_iff_exists]

theorem readText_eq_ok_iff : t.readText p = .ok text ↔
    ∃ place, t.locate p = .ok place ∧ t.get? place = some (.file (.text text)) := by
  unfold readText
  rw [bind_eq_ok_iff]
  refine exists_congr fun place => and_congr_right fun _ => ?_
  rcases t.get? place with _ | _ | _ | _ <;>
    simp [pure, Except.pure, throw, throwThe, MonadExceptOf.throw]

theorem write_eq_ok_iff : t.write p content = .ok t' ↔
    ∃ place, t.locate p = .ok place ∧ t.get? place ≠ some .directory ∧
      t' = t.set place (.file content) := by
  unfold write
  rw [bind_eq_ok_iff]
  refine exists_congr fun place => and_congr_right fun _ => ?_
  by_cases h : t.get? place = some .directory <;>
    simp [h, pure, Except.pure, throw, throwThe, MonadExceptOf.throw, bind, Except.bind, eq_comm]

/-- Writing a file keeps all directories, and what is at other places. -/
theorem keepsDirectories_of_write (h : t.write p content = .ok t') : t.KeepsDirectories t' := by
  obtain ⟨place, _, hfree, rfl⟩ := write_eq_ok_iff.mp h
  intro other hother
  rw [get?_set (ne_nil_of_get?_ne hfree)]
  split
  next heq => exact absurd (heq ▸ hother) hfree
  next => exact hother

/-- What is written is read back. -/
theorem readText_of_write (h : t.write p (.text text) = .ok t') : t'.readText p = .ok text := by
  obtain ⟨place, hlocate, hfree, ht'⟩ := write_eq_ok_iff.mp h
  refine readText_eq_ok_iff.mpr ⟨place, (keepsDirectories_of_write h).locate hlocate, ?_⟩
  rw [ht', get?_set (ne_nil_of_get?_ne hfree), if_pos rfl]

theorem contains_of_readText (h : t.readText p = .ok text) : t.contains p = .ok true := by
  obtain ⟨place, hlocate, hfile⟩ := readText_eq_ok_iff.mp h
  exact contains_eq_ok_true_iff.mpr ⟨place, _, hlocate, hfile⟩

/-- A text stays as it is unless a file is written over it. -/
theorem readText_of_write_ne {q : Path} (h : t.write p content = .ok t')
    (hread : t.readText q = .ok text) (hne : t.locate p ≠ t.locate q) :
    t'.readText q = .ok text := by
  obtain ⟨place, hlocate, hfile⟩ := readText_eq_ok_iff.mp hread
  obtain ⟨written, hwritten, hfree, ht'⟩ := write_eq_ok_iff.mp h
  refine readText_eq_ok_iff.mpr ⟨place, (keepsDirectories_of_write h).locate hlocate, ?_⟩
  rw [ht', get?_set (ne_nil_of_get?_ne hfree), if_neg, hfile]
  rintro rfl
  exact hne (hwritten.trans hlocate.symm)

/-- A text stays as it is when the same text is written, wherever that is. -/
theorem readText_of_write_same {q : Path} (h : t.write p (.text text) = .ok t')
    (hread : t.readText q = .ok text) : t'.readText q = .ok text := by
  by_cases heq : t.locate p = t.locate q
  · obtain ⟨place, hlocate, _⟩ := readText_eq_ok_iff.mp hread
    obtain ⟨written, hwritten, hfree, ht'⟩ := write_eq_ok_iff.mp h
    obtain rfl : written = place := Except.ok.inj (hwritten.symm.trans (heq.trans hlocate))
    refine readText_eq_ok_iff.mpr ⟨written, (keepsDirectories_of_write h).locate hlocate, ?_⟩
    rw [ht', get?_set (ne_nil_of_get?_ne hfree), if_pos rfl]
  · exact readText_of_write_ne h hread heq

/-- The files of a directory are listed by their names. -/
theorem mem_files {directory : Place} {name : String} {names : List String}
    (hfiles : t.files p = .ok names) (hdirectory : t.locate p = .ok directory)
    (hfile : t.get? (directory ++ [name]) = some (.file content)) : name ∈ names := by
  unfold files at hfiles
  obtain ⟨place, hplace, h⟩ := bind_eq_ok_iff.mp hfiles
  obtain rfl : directory = place := Except.ok.inj (hdirectory.symm.trans hplace)
  have hentry : (directory ++ [name], Entry.file content) ∈ t.entries := by
    rw [get?, if_neg (by simp), List.lookup_eq_some_iff] at hfile
    obtain ⟨before, after, heq, _⟩ := hfile
    exact heq ▸ List.mem_append_right _ List.mem_cons_self
  split at h
  next =>
    rw [pure_eq_ok_iff.mp h]
    exact List.mem_filterMap.mpr ⟨_, hentry, by simp⟩
  next => cases h
  next => cases h

/-! ## Creating directories -/

/-- What a tree holds is held by another one. -/
def Extends (t t' : Tree) : Prop :=
  ∀ ⦃place entry⦄, t.get? place = some entry → t'.get? place = some entry

namespace Extends

theorem refl (t : Tree) : t.Extends t :=
  fun _ _ h => h

theorem trans {t'' : Tree} (h : t.Extends t') (h' : t'.Extends t'') : t.Extends t'' :=
  fun _ _ hentry => h' (h hentry)

theorem keepsDirectories (h : t.Extends t') : t.KeepsDirectories t' :=
  fun _ hplace => h hplace

theorem readText (h : t.Extends t') (hread : t.readText p = .ok text) :
    t'.readText p = .ok text := by
  obtain ⟨place, hlocate, hfile⟩ := readText_eq_ok_iff.mp hread
  exact readText_eq_ok_iff.mpr ⟨place, h.keepsDirectories.locate hlocate, h hfile⟩

end Extends

theorem extends_set (hfree : t.get? place = none) : t.Extends (t.set place entry) := by
  have hplace : place ≠ [] := ne_nil_of_get?_ne (t := t) (by simp [hfree])
  intro other held hheld
  rw [get?_set hplace, if_neg, hheld]
  rintro rfl
  rw [hfree] at hheld
  cases hheld

theorem Extends.isReached (h : t.Extends t') (hplace : t.IsReached place) : t'.IsReached place :=
  fun above hprefix hne => h (hplace above hprefix hne)

section Creation

variable (holds : Tree → Prop)
  (hset : ∀ ⦃t place⦄, holds t → t.get? place = none → t.IsReached place →
    holds (t.set place .directory))

include hset

/-- What is kept by every single directory is kept by all on the way. -/
theorem createAlong_keeps (h : holds t) (hhere : t.IsReached here) (parts : List String) :
    holds (t.createAlong here parts).2 ∧ ∀ place, (t.createAlong here parts).1 = .ok place →
      (t.createAlong here parts).2.IsReached place := by
  induction parts generalizing t here with
  | nil =>
      refine ⟨h, fun place hplace => ?_⟩
      obtain rfl : here = place := Except.ok.inj hplace
      exact hhere
  | cons part parts ih =>
      unfold createAlong
      split
      next => exact ⟨h, fun _ hplace => nomatch hplace⟩
      next place hfollow =>
        have hplace := hhere.follow hfollow
        split
        next hfree => exact ih (hset h hfree hplace) ((extends_set hfree).isReached hplace)
        next => exact ih h hplace

theorem ensureDirectory_keeps (h : holds t) (hplace : t.IsReached place)
    (hensure : t.ensureDirectory place = .ok t') : holds t' := by
  unfold ensureDirectory at hensure
  split at hensure
  next hfree =>
    obtain rfl := Except.ok.inj hensure
    exact hset h hfree hplace
  next =>
    obtain rfl := Except.ok.inj hensure
    exact h
  next => cases hensure

/-- What is kept by every single directory that is created where there was nothing is kept when
directories are created along a path, whether that succeeds or not. -/
theorem createDirectories_keeps (h : holds t) (p : Path) : holds (t.createDirectories p).2 := by
  obtain ⟨halong, hreached⟩ := createAlong_keeps holds hset h t.isReached_nil p.steps.dropLast
  unfold createDirectories
  split
  next =>
    split
    next fault after heq =>
      rw [heq] at halong
      exact halong
    next here after heq =>
      rw [heq] at halong hreached
      split
      next => exact halong
      next created hcreated =>
        obtain ⟨place, hfollow, hensure⟩ := bind_eq_ok_iff.mp hcreated
        exact ensureDirectory_keeps holds hset halong (isReached_of_foldlM (hreached here rfl) hfollow)
          hensure
  next => exact h

end Creation

/-- Creating directories takes nothing away. -/
theorem extends_createDirectories (t : Tree) (p : Path) :
    t.Extends (t.createDirectories p).2 :=
  createDirectories_keeps t.Extends (fun _ _ h hfree _ => h.trans (extends_set hfree)) (.refl t) p

end SchemaMigration.Files.Tree
