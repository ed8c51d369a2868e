import Mathlib.Tactic.SplitIfs
import SchemaMigration.Text.JsonString

/-! # Texts that tell where they end

What a self-delimiting text stands for, and what follows it, can be told from any text that it
begins. Strings of JSON are such texts: every escape is read back as the character it stands for,
and only the closing quote is a quote. So are items in a row behind which a closing character
stands.
-/

namespace SchemaMigration.Text

variable {α : Type}

/-! ## Self-delimiting texts -/

/-- Where the text of one thing begins a text, no other thing begins it, and the rest is fixed. -/
def SelfDelimiting (code : α → List Char) : Prop :=
  ∀ ⦃a b rest rest'⦄, code a ++ rest = code b ++ rest' → a = b ∧ rest = rest'

namespace SelfDelimiting

variable {code : α → List Char}

theorem lead (h : SelfDelimiting code) (before : List Char) :
    SelfDelimiting fun a => before ++ code a := by
  intro a b rest rest' heq
  rw [List.append_assoc, List.append_assoc] at heq
  exact h (List.append_cancel_left heq)

/-- Items in a row tell where they end when a character stands behind them that begins none. -/
theorem closed (h : SelfDelimiting code) (close : Char)
    (hclose : ∀ a rest, (code a ++ rest).head? ≠ some close) :
    SelfDelimiting fun items : List α => items.flatMap code ++ [close] := by
  intro items others rest rest' heq
  simp only [List.append_assoc, List.singleton_append] at heq
  induction items generalizing others with
  | nil =>
      cases others with
      | nil => exact ⟨rfl, (List.cons.inj heq).2⟩
      | cons b others =>
          rw [List.flatMap_cons, List.append_assoc] at heq
          exact absurd (congrArg List.head? heq).symm (hclose b _)
  | cons a items ih =>
      cases others with
      | nil =>
          rw [List.flatMap_cons, List.append_assoc] at heq
          exact absurd (congrArg List.head? heq) (hclose a _)
      | cons b others =>
          simp only [List.flatMap_cons, List.append_assoc] at heq
          obtain ⟨rfl, hrest⟩ := h heq
          obtain ⟨rfl, rfl⟩ := ih hrest
          exact ⟨rfl, rfl⟩

end SelfDelimiting

/-! ## Strings of JSON -/

/-- The value of a hexadecimal digit in lower case. -/
def hexadecimalValue (c : Char) : Nat :=
  if c.toNat < 'a'.toNat then c.toNat - '0'.toNat else c.toNat - 'a'.toNat + 10

/-- The number that hexadecimal digits denote, most significant first. -/
def ofHexadecimal (digits : List Char) : Nat :=
  digits.foldl (fun n c => 16 * n + hexadecimalValue c) 0

/-- The character that a letter stands for behind a backslash. -/
def ofEscape (c : Char) : Char :=
  match c with
  | 'b' => Char.ofNat 0x8
  | 't' => Char.ofNat 0x9
  | 'n' => Char.ofNat 0xA
  | 'f' => Char.ofNat 0xC
  | 'r' => Char.ofNat 0xD
  | _ => c

/-- A character of a string in JSON, escaped or not, and what follows it. -/
def readJsonChar : List Char → Option (Char × List Char)
  | '\\' :: 'u' :: cs => some (Char.ofNat (ofHexadecimal (cs.take 4)), cs.drop 4)
  | '\\' :: c :: cs => some (ofEscape c, cs)
  | c :: cs => some (c, cs)
  | [] => none

theorem ofHexadecimal_fourHexadecimal : ∀ n < 0x20,
    (fourHexadecimal n).length = 4 ∧ ofHexadecimal (fourHexadecimal n) = n := by
  decide

theorem readJsonChar_append (c : Char) (rest : List Char) :
    readJsonChar (jsonChar c ++ rest) = some (c, rest) := by
  have hvalue {n : Nat} (h : c.toNat = n) : Char.ofNat n = c := by
    rw [← h, Char.ofNat_toNat]
  unfold jsonChar
  split
  next hguarded => rcases hguarded with rfl | rfl <;> rfl
  next hplain =>
    split_ifs with hbackspace htab hline hpage hreturn hcontrol
    · exact congrArg (fun d => some (d, rest)) (hvalue hbackspace)
    · exact congrArg (fun d => some (d, rest)) (hvalue htab)
    · exact congrArg (fun d => some (d, rest)) (hvalue hline)
    · exact congrArg (fun d => some (d, rest)) (hvalue hpage)
    · exact congrArg (fun d => some (d, rest)) (hvalue hreturn)
    · obtain ⟨hlength, hnumber⟩ := ofHexadecimal_fourHexadecimal c.toNat hcontrol
      rw [List.cons_append, List.cons_append, readJsonChar, ← hlength, List.take_left,
        List.drop_left, hnumber, Char.ofNat_toNat]
    · have hbackslash : c ≠ '\\' := fun heq => hplain (.inr heq)
      rw [List.singleton_append, readJsonChar] <;> intros <;> contradiction

theorem selfDelimiting_jsonChar : SelfDelimiting jsonChar := by
  intro c d rest rest' heq
  have hread := congrArg readJsonChar heq
  rw [readJsonChar_append, readJsonChar_append] at hread
  cases hread
  exact ⟨rfl, rfl⟩

/-- A quote within a string has a backslash in front of it. -/
theorem head?_jsonChar (c : Char) (rest : List Char) :
    (jsonChar c ++ rest).head? ≠ some '"' := by
  unfold jsonChar
  split
  next => simp
  next hplain =>
    rw [not_or] at hplain
    split_ifs <;> simp [hplain.1]

theorem selfDelimiting_jsonString : SelfDelimiting fun s => (jsonString s).toList := by
  have hbody := (selfDelimiting_jsonChar.closed '"' head?_jsonChar).lead ['"']
  intro s t rest rest' heq
  have hchars (u : String) :
      (jsonString u).toList = ['"'] ++ (u.toList.flatMap jsonChar ++ ['"']) := by
    simp [jsonString]
  dsimp only at heq
  rw [hchars, hchars] at heq
  obtain ⟨hs, hrest⟩ := hbody heq
  exact ⟨String.toList_injective hs, hrest⟩

end SchemaMigration.Text
