import SchemaMigration.Sql.Definition

/-! # Statements in segments

A definition in SQL is made of names and strings, which stand in quotes, and of other text. Wherever a
name or a string stands, it is read back from there by undoing the doubled quotes, and reading it
leaves exactly what follows. Nothing else in a definition depends on the names in it.
-/

namespace SchemaMigration.Sql

/-! ## Tokens in quotes -/

/-- What stands in quotes up to the quote that closes them, and what follows. Two quotes in a row stand
for one. -/
def readQuoted (quote : Char) : List Char → Option (List Char × List Char)
  | c :: d :: cs =>
    if c = quote then
      if d = quote then (readQuoted quote cs).map fun (text, rest) => (quote :: text, rest)
      else some ([], d :: cs)
    else (readQuoted quote (d :: cs)).map fun (text, rest) => (c :: text, rest)
  | [c] => if c = quote then some ([], []) else none
  | [] => none

/-- What a token in quotes at the front of a text denotes, and what follows it. -/
def readToken (quote : Char) : List Char → Option (List Char × List Char)
  | c :: cs => if c = quote then readQuoted quote cs else none
  | [] => none

/-- A token denotes a text when it is read as that text wherever no further quote follows. -/
def Denotes (quote : Char) (token text : String) : Prop :=
  ∀ rest, rest.head? ≠ some quote →
    readToken quote (token.toList ++ rest) = some (text.toList, rest)

section Tokens

variable {quote : Char} {rest : List Char}

theorem readQuoted_close (hrest : rest.head? ≠ some quote) :
    readQuoted quote (quote :: rest) = some ([], rest) := by
  cases rest with
  | nil => simp [readQuoted]
  | cons d rest =>
      have hd : d ≠ quote := fun heq => hrest (heq ▸ rfl)
      simp [readQuoted, hd]

theorem readQuoted_cons {c : Char} (hc : c ≠ quote) {cs : List Char} (hcs : cs ≠ []) :
    readQuoted quote (c :: cs) =
      (readQuoted quote cs).map fun (text, rest) => (c :: text, rest) := by
  obtain ⟨d, ds, rfl⟩ := List.exists_cons_of_ne_nil hcs
  simp [readQuoted, hc]

theorem readQuoted_doubled (hrest : rest.head? ≠ some quote) (cs : List Char) :
    readQuoted quote ((cs.flatMap fun c => if c = quote then [quote, quote] else [c])
      ++ quote :: rest) = some (cs, rest) := by
  induction cs with
  | nil => exact readQuoted_close hrest
  | cons c cs ih =>
      rw [List.flatMap_cons, List.append_assoc]
      by_cases hc : c = quote
      · simp only [hc, if_true, List.cons_append, List.nil_append, readQuoted, ih, Option.map_some]
      · simp only [hc, if_false, List.cons_append, List.nil_append]
        rw [readQuoted_cons hc (by simp), ih, Option.map_some]

theorem denotes_of_doubled {token text : String}
    (h : token.toList = quote :: ((doubled quote text).toList ++ [quote])) :
    Denotes quote token text := by
  intro rest hrest
  rw [h, doubled, String.toList_ofList, List.cons_append, List.append_assoc, List.singleton_append,
    readToken, if_pos rfl, readQuoted_doubled hrest]

theorem denotes_quoteName (name : String) : Denotes '"' (quoteName name) name :=
  denotes_of_doubled (by simp [quoteName])

theorem denotes_quoteText (value : String) : Denotes '\'' (quoteText value) value :=
  denotes_of_doubled (by simp [quoteText])

end Tokens

/-! ## Segments -/

/-- A part of a statement: a name or a string, which stands in quotes, or text that stands as it
is. -/
inductive Segment
  | name (name : String)
  | text (value : String)
  | plain (sql : String)

namespace Segment

def sql : Segment → String
  | .name n => quoteName n
  | .text value => quoteText value
  | .plain part => part

def name? : Segment → Option String
  | .name n => some n
  | _ => none

/-- The segment with other names. -/
def rename (φ : String → String) : Segment → Segment
  | .name n => .name (φ n)
  | segment => segment

@[simp] theorem map_rename_id (segments : List Segment) : segments.map (rename id) = segments :=
  List.map_id'' (fun segment => by cases segment <;> rfl) segments

end Segment

/-- The text that segments make up. -/
def render (segments : List Segment) : List Char :=
  segments.flatMap fun segment => segment.sql.toList

@[simp] theorem render_nil : render [] = [] :=
  rfl

@[simp] theorem render_cons (segment : Segment) (segments : List Segment) :
    render (segment :: segments) = segment.sql.toList ++ render segments :=
  List.flatMap_cons

@[simp] theorem render_append (segments more : List Segment) :
    render (segments ++ more) = render segments ++ render more :=
  List.flatMap_append

/-- Text that no quote begins. -/
def isSpacer (sql : String) : Bool :=
  sql.toList.head?.any fun c => c ≠ '"' && c ≠ '\''

/-- Whether a spacer comes first, or nothing at all. -/
def StartsSpaced : List Segment → Prop
  | [] => True
  | .plain sql :: _ => isSpacer sql = true
  | _ => False

/-- Segments in which a spacer follows every name and every string. -/
def Spaced : List Segment → Prop
  | [] => True
  | .plain _ :: segments => Spaced segments
  | .name _ :: segments | .text _ :: segments => StartsSpaced segments ∧ Spaced segments

section Spaced

variable {segments more : List Segment} {sql : String}

theorem StartsSpaced.append (h : StartsSpaced segments) (hmore : StartsSpaced more) :
    StartsSpaced (segments ++ more) := by
  rcases segments with - | ⟨segment, segments⟩
  · exact hmore
  · cases segment with
    | plain sql => exact h
    | name | text => exact h.elim

theorem Spaced.append (h : Spaced segments) (hstart : StartsSpaced more) (hmore : Spaced more) :
    Spaced (segments ++ more) := by
  induction segments with
  | nil => exact hmore
  | cons segment segments ih =>
      cases segment with
      | plain sql => exact ih h
      | name | text => exact ⟨h.1.append hstart, ih h.2⟩

theorem StartsSpaced.head?_ne (h : StartsSpaced segments) {quote : Char}
    (hquote : quote = '"' ∨ quote = '\'') : (render segments).head? ≠ some quote := by
  rcases segments with - | ⟨segment, segments⟩
  · simp
  · cases segment with
    | name | text => exact h.elim
    | plain sql =>
        have hspacer : isSpacer sql = true := h
        rw [render_cons, Segment.sql]
        unfold isSpacer at hspacer
        cases hsql : sql.toList with
        | nil => simp [hsql] at hspacer
        | cons c cs =>
            rw [hsql] at hspacer
            rintro ⟨⟩
            rcases hquote with rfl | rfl <;> simp at hspacer

/-- Where a name stands, it is read, and what follows is left. -/
theorem Spaced.readToken_name (h : Spaced segments) {before after : List Segment} {name : String}
    (hsplit : segments = before ++ .name name :: after) :
    readToken '"' (render (.name name :: after)) = some (name.toList, render after) := by
  subst hsplit
  induction before with
  | nil =>
      rw [render_cons]
      exact denotes_quoteName name _ (h.1.head?_ne (.inl rfl))
  | cons segment before ih =>
      cases segment with
      | plain sql => exact ih h
      | name | text => exact ih h.2

end Spaced

/-! ## Texts with names in them -/

/-- A text in which names are written stands for them in double quotes only: it is made of segments
whose names are the given ones in order, and with other names nothing but these segments changes. -/
def QuotesNames (sql : (String → String) → String) (names : List String) : Prop :=
  ∃ segments, Spaced segments ∧ segments.filterMap Segment.name? = names ∧
    ∀ φ, (sql φ).toList = render (segments.map (Segment.rename φ))

namespace QuotesNames

variable {sql sql' : (String → String) → String} {names names' : List String}

theorem plain (part : String) : QuotesNames (fun _ => part) [] :=
  ⟨[.plain part], trivial, rfl, fun _ => by simp [Segment.rename, Segment.sql]⟩

theorem name (n : String) : QuotesNames (fun φ => quoteName (φ n)) [n] :=
  ⟨[.name n], ⟨trivial, trivial⟩, rfl, fun _ => by simp [Segment.rename, Segment.sql]⟩

theorem text (value : String) : QuotesNames (fun _ => quoteText value) [] :=
  ⟨[.text value], ⟨trivial, trivial⟩, rfl, fun _ => by simp [Segment.rename, Segment.sql]⟩

/-- Text may stand in front of anything. -/
theorem lead (part : String) (h : QuotesNames sql names) :
    QuotesNames (fun φ => part ++ sql φ) names := by
  obtain ⟨segments, hspaced, hnames, hsql⟩ := h
  refine ⟨.plain part :: segments, hspaced, hnames, fun φ => ?_⟩
  rw [String.toList_append, hsql, List.map_cons, render_cons]
  rfl

/-- With a spacer between them, texts are put one behind the other. -/
theorem append (spacer : String) (hspacer : isSpacer spacer = true) (h : QuotesNames sql names)
    (h' : QuotesNames sql' names') :
    QuotesNames (fun φ => sql φ ++ spacer ++ sql' φ) (names ++ names') := by
  obtain ⟨segments, hspaced, rfl, hsql⟩ := h
  obtain ⟨more, hmore, rfl, hsql'⟩ := h'
  refine ⟨segments ++ .plain spacer :: more, hspaced.append hspacer hmore, ?_, fun φ => ?_⟩
  · rw [List.filterMap_append, List.filterMap_cons_none rfl]
  · simp [hsql, hsql', Segment.rename, Segment.sql]

/-- A spacer may stand behind anything. -/
theorem trail (spacer : String) (hspacer : isSpacer spacer = true) (h : QuotesNames sql names) :
    QuotesNames (fun φ => sql φ ++ spacer) names := by
  have happend := h.append spacer hspacer (plain "")
  simpa using happend

theorem trail_optional (b : Bool) (spacer : String) (hspacer : isSpacer spacer = true)
    (h : QuotesNames sql names) :
    QuotesNames (fun φ => sql φ ++ if b then spacer else "") names := by
  cases b with
  | true => exact h.trail spacer hspacer
  | false => simpa using h

/-- Texts in a row, with a spacer between them. -/
theorem intercalate {α : Type} {item : (String → String) → α → String} {itemNames : α → List String}
    {items : List α} (separator : String) (hseparator : isSpacer separator = true)
    (h : ∀ a ∈ items, QuotesNames (fun φ => item φ a) (itemNames a)) :
    QuotesNames (fun φ => separator.intercalate (items.map (item φ))) (items.flatMap itemNames) := by
  induction items with
  | nil => exact plain ""
  | cons a items ih =>
      have ha := h a List.mem_cons_self
      have hitems := ih fun b hb => h b (List.mem_cons_of_mem _ hb)
      cases items with
      | nil => simpa using ha
      | cons b items =>
          simp only [List.map_cons, String.intercalate_cons_cons, List.flatMap_cons] at hitems ⊢
          exact ha.append separator hseparator hitems

end QuotesNames

end SchemaMigration.Sql
