import SchemaMigration.Migration.Migration
import SchemaMigration.Migration.Name
import SchemaMigration.Proofs.Files.Path
import SchemaMigration.Proofs.Schema.ArgumentText.Literal

/-! # Names of migrations, written and read

The name of a migration is read back as its stamp and slug. A negative stamp has no name that is
read. The file of a migration has one plain name, whose stem is the name of the migration.
-/

namespace SchemaMigration

open Files (Path)
open Number (int64Text isDigit_of_mem_toDigits natText ofDigits ofDigits_toDigits)
open Text (isDigit isLetter lowerAscii)

/-! ## Slugs -/

/-- A character of a slug. -/
def isSlugChar (c : Char) : Bool :=
  ('a' ≤ c && c ≤ 'z') || isDigit c || c == '_'

theorem isSlugChar_lowerAscii {c : Char} (h : (isLetter c || isDigit c) = true) :
    isSlugChar (lowerAscii c) = true := by
  simp only [isLetter, isDigit, Bool.or_eq_true, Bool.and_eq_true, decide_eq_true_eq,
    Char.le_def, UInt32.le_iff_toNat_le] at h
  unfold lowerAscii
  split
  next hupper =>
    simp only [Bool.and_eq_true, decide_eq_true_eq, Char.le_def, UInt32.le_iff_toNat_le] at hupper
    have hlow : 65 ≤ c.toNat := hupper.1
    have hhigh : c.toNat ≤ 90 := hupper.2
    have hvalid : (c.toNat + 32).isValidChar := .inl (by omega)
    have hnat : (Char.ofNat (c.toNat + 32)).toNat = c.toNat + 32 := by
      rw [Char.ofNat, dif_pos hvalid]
      rfl
    have hlower : 97 ≤ (Char.ofNat (c.toNat + 32)).toNat ∧
        (Char.ofNat (c.toNat + 32)).toNat ≤ 122 := by omega
    simp only [isSlugChar, Bool.or_eq_true, Bool.and_eq_true, decide_eq_true_eq, Char.le_def,
      UInt32.le_iff_toNat_le]
    exact .inl (.inl hlower)
  next hupper =>
    simp only [Bool.and_eq_true, decide_eq_true_eq, Char.le_def, UInt32.le_iff_toNat_le] at hupper
    simp only [isSlugChar, isDigit, Bool.or_eq_true, Bool.and_eq_true, decide_eq_true_eq,
      Char.le_def, UInt32.le_iff_toNat_le]
    rcases h with (h | h) | h
    · exact .inl (.inl h)
    · exact absurd h hupper
    · exact .inl (.inr h)

namespace MigrationName

theorem isSlugChar_slugFrom {started due : Bool} {cs : List Char} :
    ∀ c ∈ slugFrom started due cs, isSlugChar c = true := by
  induction cs generalizing started due with
  | nil => simp [slugFrom]
  | cons c cs ih =>
      unfold slugFrom
      split
      next h =>
        intro d hd
        rcases List.mem_append.mp hd with hd | hd
        · split at hd
          · rw [List.mem_singleton.mp hd]
            decide
          · cases hd
        · rcases List.mem_cons.mp hd with rfl | hd
          · exact isSlugChar_lowerAscii h
          · exact ih d hd
      next => exact ih

/-- The slug of any name is a text of lower case letters, digits and underscores. -/
theorem isSlugChar_slug (name : String) :
    slug name ≠ "" ∧ ∀ c ∈ (slug name).toList, isSlugChar c = true := by
  have hchars := @isSlugChar_slugFrom false false name.toList
  unfold slug
  cases hslug : slugFrom false false name.toList with
  | nil => exact ⟨by decide, List.all_eq_true.mp rfl⟩
  | cons c cs =>
      rw [hslug] at hchars
      refine ⟨fun h => ?_, by simpa using hchars⟩
      simpa using congrArg String.toList h

/-- A number that fits 64 bits is itself there. -/
theorem toInt_eq_of_toInt64? {i : Int} {n : Int64} (h : Number.toInt64? i = some n) :
    n.toInt = i := by
  unfold Number.toInt64? at h
  split at h
  next hfits =>
    obtain rfl := Option.some.inj h
    have hlow := hfits.1
    have hhigh := hfits.2
    rw [Int64.toInt_minValue] at hlow
    rw [Int64.toInt_maxValue] at hhigh
    exact Int64.toInt_ofInt_of_le hlow (by omega)
  next => cases h

theorem readInt64_eq_some_iff {digits : List Char} {n : Int64} :
    Number.readInt64 false digits = some n ↔ n.toInt = ofDigits digits := by
  refine ⟨toInt_eq_of_toInt64?, fun h => ?_⟩
  rw [← toInt64?_toInt n, h]
  rfl

/-- A name that is read consists of the digits of its stamp, an underscore and its slug. -/
theorem parse_eq_ok_iff {stem slug : String} {timestamp : Int64} :
    parse stem = .ok (timestamp, slug) ↔
      ∃ digits, stem.toList = digits ++ '_' :: slug.toList ∧ digits ≠ [] ∧
        (∀ c ∈ digits, isDigit c = true) ∧ slug ≠ "" ∧ timestamp.toInt = ofDigits digits := by
  constructor
  · intro h
    have hsplit := List.takeWhile_append_dropWhile (p := (· != '_')) (l := stem.toList)
    unfold parse at h
    dsimp only at h
    split at h
    next c rest hrest =>
      obtain rfl : c = '_' := by
        have hhead := List.head?_dropWhile_not (· != '_') stem.toList
        simpa [hrest] using hhead
      split at h
      next => cases h
      next hshape =>
        simp only [Bool.or_eq_true, List.isEmpty_iff, Bool.not_eq_true', not_or,
          Bool.not_eq_false, List.all_eq_true] at hshape
        split at h
        next stamp hstamp =>
          obtain ⟨rfl, rfl⟩ := Prod.mk.inj (Except.ok.inj h)
          refine ⟨_, ?_, hshape.1.1, hshape.1.2, ?_, readInt64_eq_some_iff.mp hstamp⟩
          · rw [String.toList_ofList, ← hrest, hsplit]
          · intro hempty
            exact hshape.2 (by simpa using congrArg String.toList hempty)
        next => cases h
    next => cases h
  · rintro ⟨digits, hstem, hne, hdigits, hslug, hstamp⟩
    have hnot : ∀ c ∈ digits, (c != '_') = true := by
      intro c hc
      rw [bne_iff_ne]
      rintro rfl
      exact absurd (hdigits _ hc) (by decide)
    have hshape : (digits.isEmpty || !digits.all isDigit || slug.toList.isEmpty) = false := by
      simp only [Bool.or_eq_false_iff, List.isEmpty_eq_false_iff, Bool.not_eq_false',
        List.all_eq_true]
      exact ⟨⟨hne, hdigits⟩, by simpa using hslug⟩
    have hend : ('_' :: slug.toList).head?.any (· != '_') = false := rfl
    have htake := Grammar.takeWhile_append_of_head hnot hend
    have hdrop := Grammar.dropWhile_append_of_head hnot hend
    simp only [parse, hstem, htake, hdrop, hshape, Bool.false_eq_true, if_false,
      readInt64_eq_some_iff.mpr hstamp, String.ofList_toList]

/-- Stamps that are read have no sign. -/
theorem nonneg_of_parse {stem slug : String} {timestamp : Int64}
    (h : parse stem = .ok (timestamp, slug)) : 0 ≤ timestamp.toInt := by
  obtain ⟨digits, _, _, _, _, hstamp⟩ := parse_eq_ok_iff.mp h
  rw [hstamp]
  exact Int.natCast_nonneg _

end MigrationName

/-! ## Names -/

namespace Migration

variable {m : Migration}

theorem name_toList (m : Migration) :
    m.name.toList = (int64Text m.timestamp).toList ++ '_' :: m.slug.toList := by
  rw [name, String.toList_append, String.toList_append]
  exact List.append_cons _ _ _ |>.symm

theorem takeWhile_name (m : Migration) :
    m.name.toList.takeWhile (· != '_') = (int64Text m.timestamp).toList ∧
      m.name.toList.dropWhile (· != '_') = '_' :: m.slug.toList := by
  have hstamp : ∀ c ∈ (int64Text m.timestamp).toList, (c != '_') = true := by
    intro c hc
    rw [bne_iff_ne]
    rintro rfl
    rcases mem_int64Text hc with h | h <;> revert h <;> decide
  rw [name_toList]
  exact ⟨Grammar.takeWhile_append_of_head hstamp rfl, Grammar.dropWhile_append_of_head hstamp rfl⟩

/-- The name of a migration is read back, unless its stamp is negative. -/
theorem parse_name (hslug : m.slug ≠ "") :
    MigrationName.parse m.name =
      if 0 ≤ m.timestamp.toInt then .ok (m.timestamp, m.slug)
      else .error (.invalidMigration (.badName m.name)) := by
  obtain ⟨htake, hdrop⟩ := m.takeWhile_name
  have hempty : m.slug.toList.isEmpty = false := by
    simpa [List.isEmpty_eq_false_iff] using hslug
  simp only [MigrationName.parse, htake, hdrop, hempty, Bool.or_false]
  have hread := toInt64?_toInt m.timestamp
  unfold int64Text
  cases hstamp : m.timestamp.toInt with
  | ofNat n =>
      have hdigits : (Nat.toDigits 10 n).all isDigit = true :=
        List.all_eq_true.mpr fun c => isDigit_of_mem_toDigits
      have hsome : Number.readInt64 false (Nat.toDigits 10 n) = some m.timestamp := by
        rw [← hread, Number.readInt64, ofDigits_toDigits, hstamp]
        rfl
      simp [Number.intText, natText, hdigits, Nat.toDigits_ne_nil, hsome]
  | negSucc n =>
      have hminus : isDigit '-' = false := by decide
      simp [Number.intText, hminus, Int.negSucc_not_nonneg]

/-- The file of a migration has a name in its directory. -/
theorem isFileName_fileName (hslug : ∀ c ∈ m.slug.toList, isSlugChar c = true) :
    Path.IsFileName m.fileName := by
  have hchars : m.fileName.toList =
      (int64Text m.timestamp).toList ++ '_' :: m.slug.toList ++ ".sql".toList := by
    rw [fileName, String.toList_append, name_toList]
  have hlow : '_' ∈ m.fileName.toList := by simp [hchars]
  constructor
  case slash =>
    rw [hchars]
    intro hmem
    simp only [List.mem_append, List.mem_cons] at hmem
    rcases hmem with (hmem | hmem | hmem) | hmem
    · rcases mem_int64Text hmem with h | h <;> revert h <;> decide
    · revert hmem
      decide
    · have := hslug _ hmem
      revert this
      decide
    · revert hmem
      decide
  case leadsOn =>
    rw [Path.stays, Bool.or_eq_false_iff, beq_eq_false_iff_ne, beq_eq_false_iff_ne]
    constructor <;> (intro h; rw [h] at hlow; revert hlow; decide)
  case notUp =>
    intro h
    rw [h] at hlow
    revert hlow
    decide

/-- What stands before and after the last point of the file's name. -/
theorem splitExtension?_fileName (m : Migration) :
    Path.splitExtension? m.fileName.toList = some (m.name.toList, ['s', 'q', 'l']) := by
  have hchars : m.fileName.toList = m.name.toList ++ '.' :: ['s', 'q', 'l'] := by
    rw [fileName, String.toList_append]
    rfl
  have hname : m.name.toList ≠ [] := by simp [name_toList]
  rw [hchars]
  exact Path.splitExtension?_append hname (by decide)

variable {directory : Path}

theorem stem?_join (hslug : ∀ c ∈ m.slug.toList, isSlugChar c = true) :
    (directory.join m.fileName).stem? = some m.name := by
  simp [Path.stem?, Path.fileName?_join (isFileName_fileName hslug), splitExtension?_fileName]

theorem extension?_join (hslug : ∀ c ∈ m.slug.toList, isSlugChar c = true) :
    (directory.join m.fileName).extension? = some "sql" := by
  simp [Path.extension?, Path.fileName?_join (isFileName_fileName hslug), splitExtension?_fileName]

end Migration

end SchemaMigration
