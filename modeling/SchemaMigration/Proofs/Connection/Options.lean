import SchemaMigration.Connection.Options
import SchemaMigration.Proofs.Text.JsonString
import SchemaMigration.Proofs.Text.Trimming

/-! # Options and their text

The text of connection options is an object of JSON. Every part of it tells where it ends, so two
options with one text are the same options, whatever strings stand in them.
-/

namespace SchemaMigration.ConnectionOptions

open Number (natText)
open Text (SelfDelimiting intercalate_eq_flatMap isDigit jsonString selfDelimiting_jsonString)

/-! ## Parts of the text -/

/-- A number is read up to the first character that is no digit. -/
theorem selfDelimiting_natText (stop : Char) (hstop : isDigit stop = false) :
    SelfDelimiting fun n => (natText n).toList ++ [stop] := by
  let read (cs : List Char) : List Char × List Char := (cs.takeWhile isDigit, cs.dropWhile isDigit)
  have hread (n : Nat) (rest : List Char) :
      read ((natText n).toList ++ [stop] ++ rest) = (Nat.toDigits 10 n, stop :: rest) := by
    have hdigits : ∀ c ∈ Nat.toDigits 10 n, isDigit c = true :=
      fun c hc => Nat.isDigit_of_mem_toDigits (by decide) (by decide) hc
    simp only [read, natText, String.toList_ofList, List.append_assoc,
      List.takeWhile_append_of_pos hdigits, List.dropWhile_append_of_pos hdigits]
    simp [hstop]
  intro m n rest rest' heq
  have hsame := congrArg read heq
  rw [hread, hread, Prod.mk.injEq, List.cons.injEq] at hsame
  have hvalue := congrArg (Nat.ofDigitChars 10 · 0) hsame.1
  exact ⟨by simpa [Nat.ofDigitChars_ten_toDigits] using hvalue, hsame.2.2⟩

theorem selfDelimiting_bool :
    SelfDelimiting fun b : Bool => (if b then "true" else "false").toList := by
  intro b b' rest rest' heq
  cases b <;> cases b' <;> simp_all

/-- The text of a pair in the object of further options. -/
def pairText (pair : String × String) : List Char :=
  (member pair.1 (jsonString pair.2)).toList

theorem selfDelimiting_pairText : SelfDelimiting pairText := by
  rintro ⟨key, value⟩ ⟨key', value'⟩ rest rest' heq
  simp only [pairText, member, String.toList_append, List.append_assoc] at heq
  obtain ⟨rfl, hvalue⟩ := selfDelimiting_jsonString heq
  obtain ⟨rfl, hrest⟩ := selfDelimiting_jsonString (List.append_cancel_left hvalue)
  exact ⟨rfl, hrest⟩

theorem head?_pairText (pair : String × String) (rest : List Char) :
    (pairText pair ++ rest).head? = some '"' := by
  simp [pairText, member, jsonString]

/-- The text of further options. -/
def pairsText (pairs : List (String × String)) : List Char :=
  (object (pairs.map fun (key, value) => member key (jsonString value))).toList

theorem pairsText_nil : pairsText [] = ['\x7b', '\x7d'] := by
  decide

theorem pairsText_cons (pair : String × String) (pairs : List (String × String)) :
    pairsText (pair :: pairs) =
      '\x7b' :: (pairText pair ++ (pairs.flatMap (fun p => ',' :: pairText p) ++ ['\x7d'])) := by
  simp only [pairsText, object, List.map_cons, String.toList_append, intercalate_eq_flatMap,
    List.flatMap_map, List.append_assoc]
  simp [pairText]

/-- The character behind the opening brace tells whether there is a pair. -/
theorem pairsText_nil_append_ne (pair : String × String) (pairs : List (String × String))
    (rest rest' : List Char) : pairsText [] ++ rest ≠ pairsText (pair :: pairs) ++ rest' := by
  intro heq
  have hquote := congrArg (fun cs => cs.tail.head?) heq
  simp only [pairsText_nil, pairsText_cons, List.cons_append, List.tail_cons, List.head?_cons,
    List.append_assoc, head?_pairText] at hquote
  cases hquote

theorem selfDelimiting_pairsText : SelfDelimiting pairsText := by
  have hfurther := (selfDelimiting_pairText.lead [',']).closed '\x7d' (by simp)
  intro pairs others rest rest' heq
  cases pairs with
  | nil =>
      cases others with
      | nil => exact ⟨rfl, List.append_cancel_left heq⟩
      | cons pair others => exact absurd heq (pairsText_nil_append_ne _ _ _ _)
  | cons pair pairs =>
      cases others with
      | nil => exact absurd heq.symm (pairsText_nil_append_ne _ _ _ _)
      | cons pair' others =>
          rw [pairsText_cons, pairsText_cons, List.cons_append, List.cons_append, List.cons.injEq,
            List.append_assoc (pairText pair), List.append_assoc (pairText pair')] at heq
          obtain ⟨rfl, hpairs⟩ := selfDelimiting_pairText heq.2
          obtain ⟨rfl, rfl⟩ := hfurther hpairs
          exact ⟨rfl, rfl⟩

/-! ## The whole text -/

theorem toList_key (o : ConnectionOptions) :
    o.key.toList = "\x7b\"url\":".toList ++ ((jsonString o.url).toList ++
      (",\"foreign_keys\":".toList ++ ((if o.foreignKeys then "true" else "false").toList ++
        (",\"busy_timeout\":\x7b\"secs\":".toList ++
          ((natText o.busyTimeout.seconds).toList ++ [','] ++
            ("\"nanos\":".toList ++ ((natText o.busyTimeout.nanos).toList ++ ['\x7d'] ++
              (",\"extra\":".toList ++ (pairsText o.extra ++ ['\x7d']))))))))) := by
  have hnames : jsonString "url" = "\"url\"" ∧ jsonString "foreign_keys" = "\"foreign_keys\"" ∧
      jsonString "busy_timeout" = "\"busy_timeout\"" ∧ jsonString "secs" = "\"secs\"" ∧
        jsonString "nanos" = "\"nanos\"" ∧ jsonString "extra" = "\"extra\"" := by
    decide
  obtain ⟨hurl, hkeys, htimeout, hsecs, hnanos, hextra⟩ := hnames
  simp [key, object, member, pairsText, hurl, hkeys, htimeout, hsecs, hnanos, hextra]

/-- Options are told apart by their text. -/
theorem key_eq_key_iff {o o' : ConnectionOptions} : o.key = o'.key ↔ o = o' := by
  refine ⟨fun h => ?_, fun h => h ▸ rfl⟩
  obtain ⟨url, foreignKeys, ⟨seconds, nanos⟩, extra⟩ := o
  obtain ⟨url', foreignKeys', ⟨seconds', nanos'⟩, extra'⟩ := o'
  have heq := congrArg String.toList h
  simp only [toList_key] at heq
  obtain ⟨rfl, hkeys⟩ := selfDelimiting_jsonString (List.append_cancel_left heq)
  obtain ⟨rfl, htimeout⟩ := selfDelimiting_bool (List.append_cancel_left hkeys)
  obtain ⟨rfl, hnanos⟩ :=
    selfDelimiting_natText ',' (by decide) (List.append_cancel_left htimeout)
  obtain ⟨rfl, hextra⟩ :=
    selfDelimiting_natText '\x7d' (by decide) (List.append_cancel_left hnanos)
  obtain ⟨rfl, -⟩ := selfDelimiting_pairsText (List.append_cancel_left hextra)
  rfl

end SchemaMigration.ConnectionOptions
