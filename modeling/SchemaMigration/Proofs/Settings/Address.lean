import SchemaMigration.Proofs.Settings.Expansion
import SchemaMigration.Proofs.Toml.Assembly
import SchemaMigration.Proofs.Toml.Outline
import SchemaMigration.Proofs.Toml.Text
import SchemaMigration.Settings.Settings

/-! # The address of the database in a variable

Variables are put into the settings before these are read, so the value of a variable becomes part
of a document. Where the address of the database is a reference to a variable, the value arrives
unchanged exactly when it has neither double quotes nor backslashes.
-/

namespace SchemaMigration.Settings

open Toml (DiffersAt AreTexts AreSections LeadsInto Line IsVerbatim line outline endOfLine? assemble
  withoutMark)

variable {environment : String → Option String} {before after name value : String}
variable {t u sub sub' : Toml.Table} {w v : String} {s : Settings}

/-! ## Settings that differ in the address -/

theorem record?_of_differs {key : String} {R : Toml.Value → Toml.Value → Prop}
    {kind : Toml.TableKind} {names : List String} {r : RecordText} (h : DiffersAt key R t u)
    (hr : record? names (.table kind t) = some r) :
    r = .named t ∧ record? names (.table kind u) = some (.named u) := by
  have hall (t : Toml.Table) : (t.all fun field => names.contains field.1) =
      (t.map Prod.fst).all (names.contains ·) := by
    rw [List.all_map]
    rfl
  simp only [record?, hall, h.map_fst] at hr ⊢
  split at hr
  next hkeys =>
    rw [if_pos hkeys]
    exact ⟨(Option.some.inj hr).symm, rfl⟩
  next => cases hr

theorem database?_of_differs {d : Database} (h : DiffersAt "url" (AreTexts w v) sub sub')
    (hd : database? (.table .explicit sub) = some d) :
    d.url = some w ∧ database? (.table .explicit sub') = some { d with url := some v } := by
  simp only [database?, Option.bind_eq_bind, Option.bind_eq_some_iff] at hd ⊢
  obtain ⟨r, hr, provider, hprovider, url, hurl, hd⟩ := hd
  cases hd
  obtain ⟨rfl, hr'⟩ := record?_of_differs h hr
  obtain ⟨_, _, hw, hv, rfl, rfl⟩ := h.exists_lookup
  have hlookup : sub'.lookup "provider" = sub.lookup "provider" := h.lookup_of_ne (by decide)
  simp only [RecordText.optional, RecordText.field?, hw, string?, Option.map_some,
    Option.some.injEq] at hurl
  subst hurl
  refine ⟨rfl, _, hr', provider, ?_, some v, ?_, rfl⟩
  · simpa only [RecordText.withDefault, RecordText.field?, hlookup] using hprovider
  · simp only [RecordText.optional, RecordText.field?, hv, string?, Option.map_some]

theorem ofTable?_of_differs (h : DiffersAt "database" (AreSections "url" w v) t u)
    (hs : ofTable? t = some s) :
    s.database.url = some w ∧
      ofTable? u = some { s with database := { s.database with url := some v } } := by
  simp only [ofTable?, Option.bind_eq_bind, Option.bind_eq_some_iff] at hs ⊢
  obtain ⟨r, hr, database, hdatabase, schemaPath, hpath, migrations, hmigrations, environments,
    henvironments, hs⟩ := hs
  cases hs
  obtain ⟨rfl, hr'⟩ := record?_of_differs h hr
  obtain ⟨_, _, ht, hu, sub, sub', rfl, rfl, hsub⟩ := h.exists_lookup
  have hlookup (key : String) (hkey : key ≠ "database") : u.lookup key = t.lookup key :=
    h.lookup_of_ne hkey
  simp only [RecordText.withDefault, RecordText.field?, ht] at hdatabase
  obtain ⟨hurl, hdatabase'⟩ := database?_of_differs hsub hdatabase
  refine ⟨hurl, _, hr', _, ?_, schemaPath, ?_, migrations, ?_, environments, ?_, rfl⟩
  · simpa only [RecordText.withDefault, RecordText.field?, hu] using hdatabase'
  · simpa only [RecordText.withDefault, RecordText.field?, hlookup "schema" (by decide)] using hpath
  · simpa only [RecordText.withDefault, RecordText.field?, hlookup "migrations" (by decide)]
      using hmigrations
  · simpa only [RecordText.withDefault, RecordText.field?, hlookup "environments" (by decide)]
      using henvironments

/-! ## The line of the address -/

/-- What the line of the address begins with, up to the quotes. -/
def addressLead : List Char :=
  "url = ".toList

variable {cs next rest text : List Char} {content : Line}

theorem key_address :
    Toml.key (addressLead ++ '"' :: cs) = some (["url"], '=' :: ' ' :: '"' :: cs) := by
  have hkey : Toml.simpleKey (Toml.dropBlanks (addressLead ++ '"' :: cs)) =
      some ("url", ' ' :: '=' :: ' ' :: '"' :: cs) := rfl
  rw [Toml.key, Toml.nestingLimit, Toml.dottedKey, hkey]
  rfl

theorem contentLine_address_eq_some_iff :
    Toml.contentLine (addressLead ++ '"' :: cs) = some (content, rest) ↔ ∃ read,
      Toml.string ('"' :: cs) = some (read, rest) ∧
        content = .entry ["url"] (.string (String.ofList read)) := by
  have hentry : Toml.contentLine (addressLead ++ '"' :: cs) =
      (Toml.entry (Toml.value Toml.nestingLimit) (addressLead ++ '"' :: cs)).bind
        fun r => some (.entry r.1.1 r.1.2, r.2) := rfl
  have hvalue : Toml.value Toml.nestingLimit (Toml.dropBlanks (' ' :: '"' :: cs)) =
      (Toml.string ('"' :: cs)).map fun r => (.string (String.ofList r.1), r.2) := rfl
  rw [hentry, Toml.entry, key_address]
  simp only [Option.bind_eq_bind, Option.bind_some, hvalue]
  cases Toml.string ('"' :: cs) with
  | none => simp
  | some r =>
      obtain ⟨read, rest'⟩ := r
      simp [eq_comm, and_comm]

theorem line_address_eq_some_iff :
    line (addressLead ++ '"' :: cs) = some (content, next) ↔ ∃ read rest,
      Toml.string ('"' :: cs) = some (read, rest) ∧ endOfLine? rest = some next ∧
        content = .entry ["url"] (.string (String.ofList read)) := by
  have hend : endOfLine? (addressLead ++ '"' :: cs) = none := rfl
  have hblanks : Toml.dropBlanks (addressLead ++ '"' :: cs) = addressLead ++ '"' :: cs := rfl
  rw [line, hend, hblanks]
  simp only [Option.bind_eq_bind, Option.bind_eq_some_iff, Prod.exists,
    contentLine_address_eq_some_iff]
  constructor
  · rintro ⟨content', rest, ⟨read, hread, rfl⟩, next', hnext, heq⟩
    cases heq
    exact ⟨read, rest, hread, hnext, rfl⟩
  · rintro ⟨read, rest, hread, hnext, rfl⟩
    exact ⟨_, rest, ⟨read, hread, rfl⟩, next, hnext, rfl⟩

/-! ## Files with an address -/

/-- The line of the address. -/
def addressLine (value : String) : String :=
  "url = \"" ++ value ++ "\""

/-- A reference to a variable. -/
def reference (name : String) : String :=
  "$\x7b" ++ name ++ "\x7d"

/-- The texts before and after the address of the database in a file: no reference goes from the
text before it into the address, the address is in the section of the database, and no more than a
comment follows on its line. -/
structure IsAddressPlace (environment : String → Option String) (before after : String) : Prop where
  closed : IsClosed before.toList
  leads : LeadsInto "database" (withoutMark (expand environment before).toList)
  ends : (endOfLine? (expand environment after).toList).isSome

theorem toList_expand (text : String) :
    (expand environment text).toList = expandFrom environment 0 text.toList :=
  String.toList_ofList

/-- What a file with an address is read from. -/
theorem expand_file (hclosed : IsClosed before.toList)
    (hvalue : ∀ rest, expandFrom environment 0 (value.toList ++ rest) =
      text ++ expandFrom environment 0 rest) :
    (expand environment (before ++ addressLine value ++ after)).toList =
      (expand environment before).toList ++
        (addressLead ++ '"' :: (text ++ '"' :: (expand environment after).toList)) := by
  have hfile : (before ++ addressLine value ++ after).toList =
      before.toList ++ ("url = \"".toList ++ (value.toList ++ ("\"".toList ++ after.toList))) := by
    simp [addressLine]
  simp only [toList_expand]
  rw [hfile, expandFrom_append hclosed (by simp) (Nat.zero_le _),
    expandFrom_of_notMem (by decide), hvalue, expandFrom_of_notMem (by decide)]
  rfl

theorem withoutMark_append (h : cs ≠ []) : withoutMark (cs ++ rest) = withoutMark cs ++ rest := by
  cases cs with
  | nil => exact absurd rfl h
  | cons c cs =>
      simp only [List.cons_append, withoutMark]
      split <;> rfl

theorem ofText_eq_ok_iff {file : String} :
    ofText environment file = .ok s ↔ ∃ o t,
      outline (withoutMark (expand environment file).toList).length
        (withoutMark (expand environment file).toList) = some o ∧
      assemble o.1 o.2 = some t ∧ ofTable? t = some s := by
  have hdocument : (Toml.document? (expand environment file)).bind ofTable? = some s ↔ ∃ o t,
      outline (withoutMark (expand environment file).toList).length
        (withoutMark (expand environment file).toList) = some o ∧
      assemble o.1 o.2 = some t ∧ ofTable? t = some s := by
    simp only [Toml.document?, Option.bind_eq_bind, Option.bind_eq_some_iff]
    constructor
    · rintro ⟨t, ⟨o, ho, ht⟩, hs⟩
      exact ⟨o, t, ho, ht, hs⟩
    · rintro ⟨o, t, ho, ht, hs⟩
      exact ⟨t, ⟨o, ho, ht⟩, hs⟩
  rw [← hdocument, ofText]
  cases (Toml.document? (expand environment file)).bind ofTable? <;> simp

/-- How a file with an address is read: up to the address always in the same way, then the address
as a string, and then what comes after it. -/
theorem IsAddressPlace.ofText_eq_ok_iff (h : IsAddressPlace environment before after) :
    ∃ size n entries front fields, ∀ value text s,
      (∀ rest, expandFrom environment 0 (value.toList ++ rest) =
        text ++ expandFrom environment 0 rest) →
      (ofText environment (before ++ addressLine value ++ after) = .ok s ↔
        ∃ m read rest next o t, text.length + size = m + n ∧
          Toml.string ('"' :: (text ++ '"' :: (expand environment after).toList)) =
            some (read, rest) ∧
          endOfLine? rest = some next ∧ outline m next = some o ∧
          assemble entries (front ++ ⟨false, ["database"],
            fields ++ (["url"], .string (String.ofList read)) :: o.1⟩ :: o.2) = some t ∧
          ofTable? t = some s) := by
  obtain ⟨n, entries, front, fields, houtline⟩ := h.leads.outline_eq_some_iff
  refine ⟨(withoutMark (expand environment before).toList ++ addressLead ++
    (expand environment after).toList).length + 1, n, entries, front, fields, ?_⟩
  intro value text s hvalue
  have hne : (expand environment before).toList ≠ [] := by
    intro hnil
    exact h.leads.ne_nil (by rw [hnil]; rfl)
  rw [Settings.ofText_eq_ok_iff, expand_file h.closed hvalue, withoutMark_append hne]
  constructor
  · rintro ⟨o, t, ho, ht, hs⟩
    obtain ⟨m, content, next, o', hbound, hline, ho', rfl⟩ :=
      (houtline _ _ _ (by simp [addressLead])).mp ho
    obtain ⟨read, rest, hread, hnext, rfl⟩ := line_address_eq_some_iff.mp hline
    refine ⟨m, read, rest, next, o', t, ?_, hread, hnext, ho', ht, hs⟩
    simp only [List.length_append, List.length_cons] at hbound ⊢
    omega
  · rintro ⟨m, read, rest, next, o', t, hbound, hread, hnext, ho', ht, hs⟩
    refine ⟨_, t, (houtline _ _ _ (by simp [addressLead])).mpr ⟨m, _, next, o', ?_,
      line_address_eq_some_iff.mpr ⟨read, rest, hread, hnext, rfl⟩, ho', rfl⟩, ht, hs⟩
    simp only [List.length_append, List.length_cons] at hbound ⊢
    omega

/-! ## A file with nothing but an address -/

theorem line_database :
    line ("[database]\n".toList ++ rest) = some (.header false ["database"], rest) := by
  have hend : endOfLine? ("[database]\n".toList ++ rest) = none := rfl
  have hblanks : Toml.dropBlanks ("[database]\n".toList ++ rest) = "[database]\n".toList ++ rest :=
    rfl
  have hname : Toml.simpleKey (Toml.dropBlanks ("database]\n".toList ++ rest)) =
      some ("database", ']' :: '\n' :: rest) := rfl
  have hkey : Toml.key ("database]\n".toList ++ rest) =
      some (["database"], ']' :: '\n' :: rest) := by
    rw [Toml.key, Toml.nestingLimit, Toml.dottedKey, hname]
    rfl
  have hcontent : Toml.contentLine ('[' :: ("database]\n".toList ++ rest)) =
      some (.header false ["database"], '\n' :: rest) := by
    rw [Toml.contentLine.eq_2 _ (by simp), hkey]
    rfl
  rw [line, hend, hblanks]
  exact Option.bind_eq_some_iff.mpr ⟨_, hcontent, rfl⟩

theorem isAddressPlace_database : IsAddressPlace environment "[database]\n" "\n" where
  closed := fun cs hcs => absurd (hcs.subset List.mem_cons_self) (by decide)
  leads := by
    rw [toList_expand, expandFrom_eq_self (by decide)]
    exact ⟨"[database]\n".toList ++ [], [], [], [], rfl, .cons (fun _ => line_database) .nil,
      by simp, by simp⟩
  ends := by
    rw [toList_expand, expandFrom_eq_self (by decide)]
    rfl

theorem ofText_database : ofText environment ("[database]\n" ++ addressLine "" ++ "\n") =
    .ok { database := { url := some "" } } := by
  have hfile : withoutMark (expand environment ("[database]\n" ++ addressLine "" ++ "\n")).toList =
      "[database]\n".toList ++ (addressLead ++ '"' :: ['"', '\n']) := by
    rw [toList_expand, expandFrom_eq_self (by decide)]
    rfl
  have haddress : line (addressLead ++ '"' :: ['"', '\n']) =
      some (.entry ["url"] (.string ""), []) :=
    line_address_eq_some_iff.mpr ⟨[], ['\n'], rfl, rfl, rfl⟩
  have houtline : outline 20 ("[database]\n".toList ++ (addressLead ++ '"' :: ['"', '\n'])) =
      some ([], [⟨false, ["database"], [(["url"], .string "")]⟩]) :=
    (Toml.outline_succ_eq_some_iff (by simp)).mpr ⟨_, _, _, line_database,
      (Toml.outline_succ_eq_some_iff (by simp)).mpr ⟨_, _, ([], []), haddress, rfl, rfl⟩, rfl⟩
  refine ofText_eq_ok_iff.mpr ⟨([], [⟨false, ["database"], [(["url"], .string "")]⟩]),
    [("database", .table .explicit [("url", .string "")])], ?_, rfl, rfl⟩
  have hlength : ("[database]\n".toList ++ (addressLead ++ '"' :: ['"', '\n'])).length = 20 := rfl
  rw [hfile, hlength]
  exact houtline

/-- An environment in which one variable is set. -/
def oneVariable (name value : String) : String → Option String :=
  fun other => if other = name then some value else none

/-! ## What arrives -/

theorem expandFrom_reference_append (hname : name ≠ "") (hbrace : '\x7d' ∉ name.toList)
    (hvalue : environment name = some value) (rest : List Char) :
    expandFrom environment 0 ((reference name).toList ++ rest) =
      value.toList ++ expandFrom environment 0 rest := by
  rw [← expandFrom_reference hname hbrace hvalue]
  simp [reference]

/-- A value without double quotes and backslashes arrives unchanged, and everything else is as it
is without it. -/
theorem IsAddressPlace.ofText_reference (h : IsAddressPlace environment before after)
    (hread : ofText environment (before ++ addressLine "" ++ after) = .ok s) (hname : name ≠ "")
    (hbrace : '\x7d' ∉ name.toList) (hvalue : environment name = some value)
    (hplain : ∀ c ∈ value.toList, Toml.isPlain c) (hverbatim : ∀ c ∈ value.toList, IsVerbatim c) :
    ofText environment (before ++ addressLine (reference name) ++ after) =
      .ok { s with database := { s.database with url := some value } } := by
  obtain ⟨size, n, entries, front, fields, hiff⟩ := h.ofText_eq_ok_iff
  obtain ⟨next, hend⟩ := Option.isSome_iff_exists.mp h.ends
  obtain ⟨m, read, rest, next', o, t, hbound, hstring, hnext, ho, ht, hs⟩ :=
    (hiff "" [] s fun _ => rfl).mp hread
  cases hstring.symm.trans (Toml.string_verbatim (by simp) (by simp) hend)
  obtain ⟨u, hu, hdiffers⟩ := Toml.assemble_differs ht
  refine (hiff (reference name) value.toList _
    (expandFrom_reference_append hname hbrace hvalue)).mpr
      ⟨m + value.toList.length, value.toList, _, next', o, u, ?_,
        Toml.string_verbatim hplain hverbatim hend, hnext,
        Toml.outline_mono ho (Nat.le_add_right _ _), hu, ?_⟩
  · simp only [List.length_nil] at hbound
    omega
  · rw [String.ofList_toList] at hdiffers
    exact (ofTable?_of_differs hdiffers hs).2

/-- In a file that is in order when it gives an empty address, the value of a variable arrives
unchanged as the address exactly when it has neither double quotes nor backslashes. With one of
these the file may also be refused, or be read as one with another address. -/
theorem address_arrives_iff (h : IsAddressPlace environment before after)
    (hread : ofText environment (before ++ addressLine "" ++ after) = .ok s) (hname : name ≠ "")
    (hbrace : '\x7d' ∉ name.toList) (hvalue : environment name = some value)
    (hplain : ∀ c ∈ value.toList, Toml.isPlain c) :
    (∃ settings,
        ofText environment (before ++ addressLine (reference name) ++ after) = .ok settings ∧
          settings.database.url = some value) ↔
      ∀ c ∈ value.toList, c ≠ '"' ∧ c ≠ '\\' := by
  constructor
  · rintro ⟨settings, hsettings, hurl⟩
    obtain ⟨size, n, entries, front, fields, hiff⟩ := h.ofText_eq_ok_iff
    obtain ⟨next, hend⟩ := Option.isSome_iff_exists.mp h.ends
    -- The file without the value tells that another line may follow, or nothing.
    obtain ⟨m, _, _, _, o, _, -, hstring, hnext, ho, -⟩ := (hiff "" [] s fun _ => rfl).mp hread
    cases hstring.symm.trans (Toml.string_verbatim (by simp) (by simp) hend)
    cases hnext.symm.trans hend
    -- What is read as the address is never replaced by what comes later.
    obtain ⟨_, read, rest, _, o', t, -, hstring', -, -, ht, hs⟩ :=
      (hiff (reference name) value.toList settings
        (expandFrom_reference_append hname hbrace hvalue)).mp hsettings
    obtain ⟨u, -, hdiffers⟩ := Toml.assemble_differs (v := value) ht
    have hread' : some (String.ofList read) = some value :=
      (ofTable?_of_differs hdiffers hs).1.symm.trans hurl
    have hvalue' : read = value.toList := by
      rw [← Option.some.inj hread', String.toList_ofList]
    rw [hvalue'] at hstring'
    exact Toml.verbatim_of_string hplain hend (Toml.isSome_line_of_outline ho) hstring'
  · intro hverbatim
    exact ⟨_, h.ofText_reference hread hname hbrace hvalue hplain hverbatim, rfl⟩

/-- The letters after the backslashes of a path are taken for a tab and a line end. -/
theorem address_arrives_iff_of_path :
    ¬∃ settings, ofText (oneVariable "KEEL_URL" "C:\\temp\\new.db")
        ("[database]\n" ++ addressLine (reference "KEEL_URL") ++ "\n") = .ok settings ∧
      settings.database.url = some "C:\\temp\\new.db" := by
  have hvalue : oneVariable "KEEL_URL" "C:\\temp\\new.db" "KEEL_URL" =
      some "C:\\temp\\new.db" := if_pos rfl
  have hplain : ∀ c ∈ "C:\\temp\\new.db".toList, Toml.isPlain c :=
    List.all_eq_true.mp rfl
  rw [address_arrives_iff isAddressPlace_database ofText_database (by decide) (by decide) hvalue
    hplain]
  intro hverbatim
  exact (hverbatim '\\' (by decide)).2 rfl

end SchemaMigration.Settings
