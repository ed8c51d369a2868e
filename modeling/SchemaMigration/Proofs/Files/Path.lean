import SchemaMigration.Proofs.Files.Tree
import SchemaMigration.Proofs.Text.Position

/-! # Paths to files in a directory

The path of a directory goes on with the name of a file. It leads to the file of that name in the
directory, and its stem and extension are those of the name.
-/

namespace SchemaMigration.Files

open Text (byteLength_append)

namespace Path

/-! ## Parts -/

theorem cut_ne_nil (cs : List Char) : cut cs ≠ [] := by
  cases cs with
  | nil => simp [cut]
  | cons c cs =>
      unfold cut
      split
      · simp
      · split <;> simp

theorem cut_cons_of_ne {c : Char} (h : c ≠ '/') (cs : List Char) :
    cut (c :: cs) = (cut cs).modifyHead (c :: ·) := by
  rw [cut, if_neg h]
  cases hcut : cut cs with
  | nil => exact absurd hcut (cut_ne_nil cs)
  | cons part parts => rfl

theorem cut_append_slash (cs ds : List Char) : cut (cs ++ '/' :: ds) = cut cs ++ cut ds := by
  induction cs with
  | nil => rfl
  | cons c cs ih =>
      by_cases hc : c = '/'
      · simp only [List.cons_append, cut, if_pos hc, ih]
      · rw [List.cons_append, cut_cons_of_ne hc, cut_cons_of_ne hc, ih]
        obtain ⟨part, parts, hcut⟩ := List.exists_cons_of_ne_nil (cut_ne_nil cs)
        rw [hcut]
        rfl

theorem cut_of_notMem {cs : List Char} (h : '/' ∉ cs) : cut cs = [cs] := by
  induction cs with
  | nil => rfl
  | cons c cs ih =>
      obtain ⟨hc, hcs⟩ := not_or.mp (mt List.mem_cons.mpr h)
      rw [cut_cons_of_ne (Ne.symm hc), ih hcs, List.modifyHead_cons]

/-- A text that is one part of a path, and leads on. -/
structure IsFileName (name : String) : Prop where
  slash : '/' ∉ name.toList
  leadsOn : stays name = false
  notUp : name ≠ ".."

variable {p : Path} {name : String}

theorem head_ne_slash (h : '/' ∉ name.toList) : name.toList.head? ≠ some '/' :=
  fun hhead => h (List.mem_of_head? hhead)

/-- The parts of a path that goes on are its own and the name. Its own may have an empty one more at
the end. -/
theorem parts_join (h : '/' ∉ name.toList) :
    ∃ parts, (p.join name).parts = parts ++ [name] ∧ (p.parts = parts ∨ p.parts = parts ++ [""]) := by
  have hname : (cut name.toList).map String.ofList = [name] := by
    rw [cut_of_notMem h, List.map_singleton, String.ofList_toList]
  unfold join
  rw [if_neg (head_ne_slash h)]
  split
  next hend =>
    rcases hend with hempty | hlast
    · have htext : p.text = "" := by simpa using hempty
      refine ⟨[], ?_, .inr ?_⟩
      · simpa [parts, htext] using hname
      · simp [parts, htext, cut]
    · obtain ⟨cs, hcs⟩ := List.getLast?_eq_some_iff.mp hlast
      refine ⟨(cut cs).map String.ofList, ?_, .inr ?_⟩
      · rw [parts, String.toList_append, hcs, List.append_assoc, List.singleton_append,
          cut_append_slash, List.map_append, hname]
      · rw [parts, hcs, cut_append_slash, List.map_append]
        rfl
  next =>
    refine ⟨p.parts, ?_, .inl rfl⟩
    rw [parts, String.toList_append, String.toList_append, List.append_assoc,
      show ("/" : String).toList = ['/'] from rfl, List.singleton_append, cut_append_slash,
      List.map_append, hname, parts]

/-- A path that can be followed when it goes on can be followed as it is. -/
theorem isUsable_of_join (h : '/' ∉ name.toList) (husable : (p.join name).isUsable = true) :
    p.isUsable = true := by
  obtain ⟨more, hmore⟩ : ∃ more, (p.join name).text.toList = p.text.toList ++ more := by
    unfold join
    rw [if_neg (head_ne_slash h)]
    split
    · exact ⟨name.toList, by simp⟩
    · exact ⟨'/' :: name.toList, by simp⟩
  rw [isUsable, hmore, byteLength_append, List.all_append] at husable
  simp only [Bool.and_eq_true, decide_eq_true_eq] at husable
  rw [isUsable, Bool.and_eq_true, decide_eq_true_eq]
  exact ⟨by omega, husable.2.1⟩

/-- A path that goes on with the name of a file leads to that file. -/
theorem fileName?_join (h : IsFileName name) : (p.join name).fileName? = some name := by
  obtain ⟨parts, hparts, _⟩ := parts_join (p := p) h.slash
  have hsteps : (p.join name).steps = parts.filter (fun part => !stays part) ++ [name] := by
    rw [steps, hparts, List.filter_append, List.filter_singleton, h.leadsOn]
    rfl
  simp only [fileName?, hsteps, List.getLast?_concat, if_neg h.notUp]

/-- The stem of a name stands before its last point, and its extension behind it. -/
theorem splitExtension?_append {stem extension : List Char} (hstem : stem ≠ [])
    (hextension : '.' ∉ extension) :
    splitExtension? (stem ++ '.' :: extension) = some (stem, extension) := by
  have hrun : ∀ c ∈ extension.reverse, (c != '.') = true := by
    intro c hc
    rw [bne_iff_ne]
    rintro rfl
    exact hextension (List.mem_reverse.mp hc)
  have hreverse : (stem ++ '.' :: extension).reverse =
      extension.reverse ++ '.' :: stem.reverse := by simp
  obtain ⟨c, cs, hcons⟩ := List.exists_cons_of_ne_nil (List.reverse_ne_nil_iff.mpr hstem)
  have hback : (c :: cs).reverse = stem := by rw [← hcons, List.reverse_reverse]
  have hdrop : (stem ++ '.' :: extension).reverse.dropWhile (· != '.') = '.' :: c :: cs := by
    rw [hreverse, List.dropWhile_append_of_pos hrun, hcons]
    rfl
  have htake : (stem ++ '.' :: extension).reverse.takeWhile (· != '.') = extension.reverse := by
    rw [hreverse, List.takeWhile_append_of_pos hrun, List.takeWhile_cons_of_neg (by simp),
      List.append_nil]
  rw [splitExtension?, hdrop, htake, List.reverse_reverse]
  simp only [hback]

theorem eq_of_splitExtension? {cs stem extension : List Char}
    (h : splitExtension? cs = some (stem, extension)) : cs = stem ++ '.' :: extension := by
  have hsplit := List.takeWhile_append_dropWhile (p := (· != '.')) (l := cs.reverse)
  unfold splitExtension? at h
  split at h
  next d c before hdrop =>
    obtain rfl : d = '.' := by
      have hhead := List.head?_dropWhile_not (· != '.') cs.reverse
      simpa [hdrop] using hhead
    obtain ⟨rfl, rfl⟩ := Prod.mk.inj (Option.some.inj h)
    rw [hdrop] at hsplit
    simpa using (congrArg List.reverse hsplit).symm
  next => cases h

/-- The extension of a file is that of its name, whatever directory the file is in. -/
theorem extension?_join (h : IsFileName name) :
    (p.join name).extension? = (Path.mk name).extension? := by
  have hbare : (Path.mk "").join name = ⟨name⟩ := by simp [join, head_ne_slash h.slash]
  rw [← hbare, extension?, extension?, fileName?_join h, fileName?_join h]

/-- What stands before the extension of a file is its stem. -/
theorem exists_stem?_join (h : IsFileName name) {extension : String}
    (hextension : (Path.mk name).extension? = some extension) :
    ∃ stem, (p.join name).stem? = some stem ∧
      name.toList = stem.toList ++ '.' :: extension.toList := by
  rw [← extension?_join (p := p) h] at hextension
  simp only [Path.extension?, fileName?_join h, Option.bind_some, Option.map_eq_some_iff] at hextension
  obtain ⟨⟨stem, after⟩, hsplit, rfl⟩ := hextension
  refine ⟨String.ofList stem, ?_, ?_⟩
  · simp [stem?, fileName?_join h, hsplit]
  · simpa using eq_of_splitExtension? hsplit

end Path

namespace Tree

variable {t : Tree} {p : Path} {name : String} {place : Place}

/-- Joined with the name of a file, the path of a directory leads to that name in the directory. -/
theorem exists_directory_of_locate_join (h : Path.IsFileName name)
    (hlocate : t.locate (p.join name) = .ok place) :
    ∃ directory, t.locate p = .ok directory ∧ t.get? directory = some .directory ∧
      place = directory ++ [name] := by
  obtain ⟨husable, hfollow⟩ := locate_eq_ok_iff.mp hlocate
  obtain ⟨parts, hparts, hown⟩ := Path.parts_join (p := p) h.slash
  rw [hparts, List.foldlM_append] at hfollow
  obtain ⟨directory, hdirectory, hname⟩ := bind_eq_ok_iff.mp hfollow
  rw [List.foldlM_cons] at hname
  obtain ⟨last, hlast, hplace⟩ := bind_eq_ok_iff.mp hname
  obtain rfl := pure_eq_ok_iff.mp hplace
  obtain ⟨hthere, hstep⟩ := follow_eq_ok_iff.mp hlast
  refine ⟨directory, locate_eq_ok_iff.mpr ⟨Path.isUsable_of_join h.slash husable, ?_⟩, hthere, ?_⟩
  · rcases hown with hown | hown
    · rw [hown, hdirectory]
    · -- The empty part at the end of the path stays at the directory.
      rw [hown, List.foldlM_append]
      refine bind_eq_ok_iff.mpr ⟨directory, hdirectory, ?_⟩
      rw [List.foldlM_cons]
      refine bind_eq_ok_iff.mpr ⟨directory, ?_, rfl⟩
      exact follow_eq_ok_iff.mpr ⟨hthere, .inl ⟨rfl, rfl⟩⟩
  · obtain ⟨hstays, _⟩ | ⟨hup, _⟩ | ⟨_, _, _, heq⟩ := hstep
    · rw [h.leadsOn] at hstays
      cases hstays
    · exact absurd hup h.notUp
    · exact heq

end Tree

end SchemaMigration.Files
