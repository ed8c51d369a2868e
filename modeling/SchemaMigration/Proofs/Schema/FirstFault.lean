import SchemaMigration.Proofs.Schema.Grammar.Trail
import SchemaMigration.Proofs.Schema.Orderly

/-! # Errors point at their place

A text that is refused gives an error with a range of the text, and the line and the column at which
the range starts. When the grammar refuses the text, the range is empty and stands at the furthest
place that was reached. When an outline is read, but its arguments or settings make no sense, the range
is that of the first attribute or setting at fault, in the order of the text.
-/

namespace SchemaMigration

open Grammar
open SchemaMigration.Grammar.Parser
open Text (Position byteLength)

/-! ## Computations and their faults -/

section FailsWith

variable {ε α β : Type} {x : Except ε α} {faults : List ε}

/-- A computation fails exactly with the first of its faults. -/
def FailsWith (x : Except ε α) (faults : List ε) : Prop :=
  ∀ fault, x = .error fault ↔ faults.head? = some fault

theorem failsWith_ok (a : α) : FailsWith (.ok a : Except ε α) [] := by
  simp [FailsWith]

theorem failsWith_error (fault : ε) : FailsWith (.error fault : Except ε α) [fault] := by
  simp [FailsWith]

theorem FailsWith.eq_nil_of_ok {a : α} (h : FailsWith (.ok a) faults) : faults = [] := by
  cases faults with
  | nil => rfl
  | cons fault rest => cases (h fault).mpr rfl

theorem FailsWith.bind_pure (h : FailsWith x faults) (f : α → β) :
    FailsWith (x >>= fun a => pure (f a)) faults := by
  intro fault
  rw [← h fault]
  cases x <;> simp [bind, Except.bind, pure, Except.pure]

/-- The faults of the members of a list follow each other in the order of the members. -/
theorem failsWith_mapM {f : α → Except ε β} {faults : α → List ε} {as : List α}
    (h : ∀ a ∈ as, FailsWith (f a) (faults a)) : FailsWith (as.mapM f) (as.flatMap faults) := by
  induction as with
  | nil => exact failsWith_ok []
  | cons a as ih =>
      obtain ⟨ha, has⟩ := List.forall_mem_cons.mp h
      intro fault
      rw [List.mapM_cons, List.flatMap_cons, List.head?_append]
      cases hrun : f a with
      | error e =>
          rw [hrun] at ha
          have hhead : (faults a).head? = some e := (ha e).mp rfl
          simp [hhead, bind, Except.bind]
      | ok b =>
          rw [hrun] at ha
          rw [ha.eq_nil_of_ok]
          exact (ih has).bind_pure (b :: ·) fault

end FailsWith

/-! ## What is at fault -/

namespace Grammar

/-- What is at fault in an outline: arguments of an attribute that have no meaning, and a setting whose
key stands in its block before. -/
inductive Offends (blocks : List Block) : LocatedFault → Prop
  | arguments {b : Block} {m : Member} {mark raw : String} {w : AttributeText} {fault : ArgumentFault}
      (hb : b ∈ blocks) (hm : m ∈ b.members) (hw : (mark, w) ∈ m.written)
      (hraw : w.arguments = some raw) (hfault : ArgumentText.interpret w.name.name raw = .error fault) :
      Offends blocks (w.span, .badArguments (mark ++ w.name.name) fault)
  | repetition {b : Block} {before after : List Member} {key : String} {value value' : SettingValue}
      {span span' : Span} (hb : b ∈ blocks)
      (hmembers : b.members = before ++ .property key value span :: after)
      (hbefore : .property key value' span' ∈ before) :
      Offends blocks (span, .duplicateProperty key b.name.name)

/-- The fault of an attribute, if there is one. -/
def AttributeText.faults (mark : String) (w : AttributeText) : List LocatedFault :=
  match Attribute.ofText mark w with
  | .ok _ => []
  | .error fault => [fault]

def Member.faults (m : Member) : List LocatedFault :=
  m.written.flatMap fun w => w.2.faults w.1

/-- The settings of a block whose keys are known before. -/
def repetitions (block : String) : List String → List Member → List LocatedFault
  | known, .property key _ span :: members =>
    (if key ∈ known then [(span, .duplicateProperty key block)] else []) ++
      repetitions block (known ++ [key]) members
  | known, _ :: members => repetitions block known members
  | _, [] => []

def Block.faults (b : Block) : List LocatedFault :=
  repetitions b.name.name [] b.members ++ b.members.flatMap Member.faults

theorem mem_attributeFaults_iff {mark : String} {w : AttributeText} {x : LocatedFault} :
    x ∈ w.faults mark ↔ ∃ raw fault, w.arguments = some raw ∧
      ArgumentText.interpret w.name.name raw = .error fault ∧
      x = (w.span, .badArguments (mark ++ w.name.name) fault) := by
  cases harguments : w.arguments with
  | none => simp [AttributeText.faults, Attribute.ofText, harguments]
  | some raw =>
      cases hargs : ArgumentText.interpret w.name.name raw <;>
        simp [AttributeText.faults, Attribute.ofText, harguments, hargs]

theorem mem_repetitions_iff {block : String} {known : List String} {members : List Member}
    {x : LocatedFault} : x ∈ repetitions block known members ↔
      ∃ before key value span after, members = before ++ .property key value span :: after ∧
        (key ∈ known ∨ ∃ value' span', .property key value' span' ∈ before) ∧
        x = (span, .duplicateProperty key block) := by
  induction members generalizing known with
  | nil => simp [repetitions]
  | cons m members ih =>
      constructor
      · intro hx
        cases m with
        | property key value span =>
            rcases List.mem_append.mp hx with hx | hx
            · by_cases hknown : key ∈ known
              · rw [if_pos hknown, List.mem_singleton] at hx
                exact ⟨[], key, value, span, members, rfl, .inl hknown, hx⟩
              · rw [if_neg hknown] at hx
                cases hx
            · obtain ⟨before, key', value', span', after, rfl, hkey, hx⟩ := ih.mp hx
              refine ⟨_ :: before, key', value', span', after, rfl, ?_, hx⟩
              rcases hkey with hkey | ⟨value₀, span₀, hmem⟩
              · rcases List.mem_append.mp hkey with hkey | hkey
                · exact .inl hkey
                · obtain rfl := List.mem_singleton.mp hkey
                  exact .inr ⟨value, span, List.mem_cons_self⟩
              · exact .inr ⟨value₀, span₀, List.mem_cons_of_mem _ hmem⟩
        | _ =>
            obtain ⟨before, key, value, span, after, rfl, hkey, hx⟩ := ih.mp hx
            refine ⟨_ :: before, key, value, span, after, rfl, hkey.imp_right ?_, hx⟩
            exact fun ⟨value', span', hmem⟩ => ⟨value', span', List.mem_cons_of_mem _ hmem⟩
      · rintro ⟨before, key, value, span, after, hmembers, hkey, hx⟩
        cases before with
        | nil =>
            cases hmembers
            rcases hkey with hkey | ⟨_, _, hmem⟩
            · apply List.mem_append_left
              rw [if_pos hkey]
              exact List.mem_singleton.mpr hx
            · cases hmem
        | cons m' before =>
            cases hmembers
            cases m with
            | property key₀ value₀ span₀ =>
                apply List.mem_append_right
                refine ih.mpr ⟨before, key, value, span, after, rfl, ?_, hx⟩
                rcases hkey with hkey | ⟨value', span', hmem⟩
                · exact .inl (List.mem_append_left _ hkey)
                · rcases List.mem_cons.mp hmem with heq | hmem
                  · cases heq
                    exact .inl (List.mem_append_right _ List.mem_cons_self)
                  · exact .inr ⟨value', span', hmem⟩
            | _ =>
                refine ih.mpr ⟨before, key, value, span, after, rfl, hkey.imp_right ?_, hx⟩
                rintro ⟨value', span', hmem⟩
                exact ⟨value', span', (List.mem_cons.mp hmem).resolve_left nofun⟩

theorem mem_faults_iff {blocks : List Block} {x : LocatedFault} :
    x ∈ blocks.flatMap Block.faults ↔ Offends blocks x := by
  simp only [List.mem_flatMap, Block.faults, List.mem_append, mem_repetitions_iff, Member.faults,
    mem_attributeFaults_iff]
  constructor
  · rintro ⟨b, hb, ⟨before, key, value, span, after, hmembers, hkey, rfl⟩ | ⟨m, hm, w, hw, hx⟩⟩
    · obtain hkey | ⟨value', span', hbefore⟩ := hkey
      · cases hkey
      · exact .repetition hb hmembers hbefore
    · obtain ⟨raw, fault, hraw, hfault, rfl⟩ := hx
      exact .arguments hb hm hw hraw hfault
  · intro h
    cases h with
    | arguments hb hm hw hraw hfault =>
        exact ⟨_, hb, .inr ⟨_, hm, _, hw, _, _, hraw, hfault, rfl⟩⟩
    | repetition hb hmembers hbefore =>
        exact ⟨_, hb, .inl ⟨_, _, _, _, _, hmembers, .inr ⟨_, _, hbefore⟩, rfl⟩⟩

end Grammar

/-! ## Failing with the first fault -/

theorem Attribute.failsWith_ofText (mark : String) (w : AttributeText) :
    FailsWith (Attribute.ofText mark w) (w.faults mark) := by
  unfold AttributeText.faults
  cases Attribute.ofText mark w with
  | ok a => exact failsWith_ok a
  | error fault => exact failsWith_error fault

theorem Attribute.failsWith_ofTexts (written : List AttributeText) :
    FailsWith (Attribute.ofTexts written)
      ((written.map fun w => ("@", w)).flatMap fun w => w.2.faults w.1) := by
  rw [List.flatMap_map]
  exact failsWith_mapM fun w _ => Attribute.failsWith_ofText "@" w

theorem Part.failsWith_ofMember? : ∀ m : Member, FailsWith (Part.ofMember? m) m.faults
  | .property .. => failsWith_ok none
  | .field _ _ attributes _ | .value _ attributes _ =>
      (Attribute.failsWith_ofTexts attributes).bind_pure _
  | .attribute w => by
      rw [Member.faults, Member.written, List.flatMap_singleton]
      exact (Attribute.failsWith_ofText "@@" w).bind_pure _

theorem SettingsBlock.failsWith_settingsAfter (block : String)
    (known : List (String × SettingValue)) (members : List Member) :
    FailsWith (settingsAfter block known members) (repetitions block (known.map Prod.fst) members) := by
  fun_induction settingsAfter block known members with
  | case1 known key value span members hknown =>
      have hmem : key ∈ known.map Prod.fst := by simpa using hknown
      intro fault
      simp [repetitions, hmem]
  | case2 known key value span members hknown ih =>
      have hmem : key ∉ known.map Prod.fst := by simpa using hknown
      rw [repetitions, if_neg hmem, List.nil_append]
      simpa using ih
  | case3 known m members hsetting ih =>
      cases m with
      | property key value span => exact absurd rfl (hsetting key value span)
      | _ => exact ih
  | case4 known => exact failsWith_ok known

section Blocks

variable {text : List Char} {b : Block} {blocks : List Block}

theorem Grammar.faults_eq_nil_of_settings {members : List Member}
    (h : ∀ m ∈ members, m.isSetting = true) : members.flatMap Member.faults = [] := by
  refine List.flatMap_eq_nil_iff.mpr fun m hm => ?_
  have hsetting := h m hm
  cases m <;> first | rfl | cases hsetting

theorem Grammar.repetitions_eq_nil {block : String} {known : List String} {members : List Member}
    (h : ∀ m ∈ members, m.isSetting = false) : repetitions block known members = [] := by
  refine List.eq_nil_iff_forall_not_mem.mpr fun x hx => ?_
  obtain ⟨before, key, value, span, after, rfl, -, -⟩ := mem_repetitions_iff.mp hx
  cases h _ (List.mem_append_right before List.mem_cons_self)

/-- A block is either settings, which may be repeated, or has attributes, which may have no meaning. -/
theorem Declaration.failsWith_ofBlock (h : b.IsOrderly text) :
    FailsWith (Declaration.ofBlock b) b.faults := by
  have hkinds := h.settings
  have hsettings := SettingsBlock.failsWith_settingsAfter b.name.name [] b.members
  have hdata := failsWith_mapM fun m (_ : m ∈ b.members) => Part.failsWith_ofMember? m
  obtain ⟨kind, name, members, span⟩ := b
  dsimp only at hkinds hsettings hdata
  unfold Block.faults
  cases kind with
  | datasource | generator =>
      rw [faults_eq_nil_of_settings fun m hm => (hkinds m hm).mpr (by simp), List.append_nil]
      exact (hsettings.bind_pure _).bind_pure _
  | _ =>
      have hnone : ∀ m ∈ members, m.isSetting = false := fun m hm =>
        Bool.eq_false_iff.mpr (mt (hkinds m hm).mp (by simp))
      rw [repetitions_eq_nil hnone, List.nil_append]
      exact hdata.bind_pure _

theorem Document.failsWith_ofOutline (h : ∀ b ∈ blocks, b.IsOrderly text) :
    FailsWith (Document.ofOutline blocks) (blocks.flatMap Block.faults) :=
  (failsWith_mapM fun b hb => Declaration.failsWith_ofBlock (h b hb)).bind_pure _

/-! ## The order of faults -/

theorem Span.Row.singleton {whole s : Span} (hstart : whole.start ≤ s.start) (hs : s.start < s.stop)
    (hstop : s.stop ≤ whole.stop) : whole.Row [s] :=
  .cons hstart hs hstop (.nil _)

/-- Rows inside of ranges that stand in a row make up one row. -/
theorem Span.Row.flatMap {α : Type} {whole : Span} {as : List α} {span : α → Span}
    {parts : α → List Span} (h : whole.Row (as.map span)) (hparts : ∀ a ∈ as, (span a).Row (parts a)) :
    whole.Row (as.flatMap parts) where
  inside s hs := by
    obtain ⟨a, ha, hs⟩ := List.mem_flatMap.mp hs
    have houter := h.inside (span a) (List.mem_map_of_mem ha)
    have hinner := (hparts a ha).inside s hs
    exact ⟨houter.1.trans hinner.1, hinner.2.trans houter.2⟩
  nonempty s hs := by
    obtain ⟨a, ha, hs⟩ := List.mem_flatMap.mp hs
    exact (hparts a ha).nonempty s hs
  inOrder := by
    refine List.pairwise_flatMap.mpr ⟨fun a ha => (hparts a ha).inOrder, ?_⟩
    have hbetween := List.pairwise_map.mp h.inOrder
    refine hbetween.imp_of_mem fun {a b} ha hb hab s hs t ht => ?_
    have hfirst := ((hparts a ha).inside s hs).2
    have hsecond := ((hparts b hb).inside t ht).1
    exact (hfirst.trans hab).trans hsecond

theorem Grammar.Member.row_faults {m : Member} (h : m.IsOrderly text) :
    m.span.Row (m.faults.map Prod.fst) := by
  rw [Member.faults, List.map_flatMap]
  refine h.row.flatMap fun w hw => ?_
  have hnonempty := h.row.nonempty w.2.span (List.mem_map_of_mem hw)
  unfold AttributeText.faults
  cases hrun : Attribute.ofText w.1 w.2 with
  | ok a => exact .nil _
  | error fault =>
      have hmem : fault ∈ w.2.faults w.1 := by
        rw [AttributeText.faults, hrun]
        exact List.mem_singleton_self fault
      obtain ⟨raw, what, -, -, rfl⟩ := mem_attributeFaults_iff.mp hmem
      exact .singleton (Nat.le_refl _) hnonempty (Nat.le_refl _)

theorem Grammar.repetitions_sublist (block : String) (known : List String) (members : List Member) :
    ((repetitions block known members).map Prod.fst).Sublist (members.map Member.span) := by
  fun_induction repetitions block known members with
  | case1 known key value span members ih =>
      by_cases hknown : key ∈ known
      · rw [if_pos hknown]
        exact ih.cons_cons _
      · rw [if_neg hknown]
        exact ih.cons _
  | case2 known m members _ ih => exact ih.cons _
  | case3 => exact .slnil

theorem Grammar.Block.row_faults (h : b.IsOrderly text) : b.span.Row (b.faults.map Prod.fst) := by
  rw [Block.faults, List.map_append]
  by_cases hkind : b.kind = .datasource ∨ b.kind = .generator
  · rw [faults_eq_nil_of_settings fun m hm => (h.settings m hm).mpr hkind, List.map_nil,
      List.append_nil]
    exact h.row.sublist (repetitions_sublist _ _ _)
  · have hnone : ∀ m ∈ b.members, m.isSetting = false := fun m hm =>
      Bool.eq_false_iff.mpr (mt (h.settings m hm).mp hkind)
    rw [repetitions_eq_nil hnone, List.map_nil, List.nil_append, List.map_flatMap]
    exact h.row.flatMap fun m hm => Member.row_faults (h.members m hm)

/-- What is at fault is a part of the text. -/
theorem Grammar.Offends.inText {x : LocatedFault} (h : Offends blocks x)
    (horderly : ∀ b ∈ blocks, b.IsOrderly text) : ∃ part, x.1.Holds text part := by
  cases h with
  | arguments hb hm hw => exact ((horderly _ hb).members _ hm).writtenInText _ hw
  | @repetition b before after key value _ span _ hb hmembers =>
      have hmem : Member.property key value span ∈ b.members := by
        rw [hmembers]
        exact List.mem_append_right _ List.mem_cons_self
      exact ((horderly b hb).members _ hmem).inText

/-- The fault with which an outline fails is at fault, and everything else at fault stands behind. -/
theorem Document.first_of_ofOutline_eq_error {whole : Span} {x : LocatedFault}
    (horderly : ∀ b ∈ blocks, b.IsOrderly text) (hrow : whole.Row (blocks.map Block.span))
    (h : Document.ofOutline blocks = .error x) :
    Offends blocks x ∧ ∀ y, Offends blocks y → y = x ∨ x.1.stop ≤ y.1.start := by
  have hhead := (Document.failsWith_ofOutline horderly x).mp h
  obtain ⟨rest, hfaults⟩ := List.head?_eq_some_iff.mp hhead
  have hrows : whole.Row ((blocks.flatMap Block.faults).map Prod.fst) := by
    rw [List.map_flatMap]
    exact hrow.flatMap fun b hb => Block.row_faults (horderly b hb)
  have horder := hrows.inOrder
  rw [hfaults, List.map_cons, List.pairwise_cons] at horder
  constructor
  · apply mem_faults_iff.mp
    rw [hfaults]
    exact List.mem_cons_self
  · intro y hy
    rw [← mem_faults_iff, hfaults, List.mem_cons] at hy
    exact hy.imp_right fun hy => horder.1 y.1 (List.mem_map_of_mem hy)

end Blocks

/-! ## Errors -/

/-- An error points at a part of a text, and gives the line and the column at which it starts. -/
structure SyntaxError.PointsAt (e : SyntaxError) (text before part : List Char) : Prop where
  inText : ∃ after, text = before ++ part ++ after
  start : e.span.start = byteLength before
  stop : e.span.stop = e.span.start + byteLength part
  line : e.position.line = 1 + before.count '\n'
  column : e.position.column = 1 + (before.rtakeWhile (· ≠ '\n')).length

theorem SyntaxError.pointsAt_ofFault {text part : List Char} {x : LocatedFault}
    (h : x.1.Holds text part) : ∃ before, (SyntaxError.ofFault text x).PointsAt text before part := by
  obtain ⟨before, after, htext, hstart, hstop⟩ := h
  have hposition : (SyntaxError.ofFault text x).position =
      ⟨1 + before.count '\n', 1 + (before.rtakeWhile (· ≠ '\n')).length⟩ := by
    rw [SyntaxError.ofFault, hstart, htext, List.append_assoc, Position.atOffset_byteLength]
  exact ⟨before, ⟨after, htext⟩, hstart, hstop, by rw [hposition], by rw [hposition]⟩

theorem Document.ofText_eq_error {text : String} {fault : LocatedFault}
    (h : Document.ofChars text.toList = .error fault) :
    Document.ofText text = .error (.syntactic (.ofFault text.toList fault)) := by
  unfold Document.ofText
  rw [h]

/-- Every text that is refused gives an error at its true place. Either the grammar refuses the text,
and the error stands between two characters; or there is an outline, and the error takes the range of
the first attribute or setting at fault. -/
theorem Document.pointsAt_of_ofText_eq_error {text : String} {error : SchemaError}
    (h : Document.ofText text = .error error) :
    ∃ e before part, error = .syntactic e ∧ e.PointsAt text.toList before part ∧
      ((outline.Fails (.start text.toList) ∧ part = [] ∧ ∃ symbols, e.fault = .expected symbols) ∨
        ∃ blocks c, outline.Reads (.start text.toList) blocks c ∧ Offends blocks (e.span, e.fault) ∧
          ∀ other, Offends blocks other →
            other = (e.span, e.fault) ∨ e.span.stop ≤ other.1.start) := by
  unfold Document.ofText at h
  split at h
  next => cases h
  next x hx =>
    cases h
    unfold Document.ofChars at hx
    split at hx
    next blocks c trail hrun =>
      have hreads : outline.Reads (.start text.toList) blocks c := ⟨{}, trail, hrun⟩
      obtain ⟨horderly, whole, hrow⟩ := outline_orderly hreads
      obtain ⟨hoffends, hfirst⟩ := Document.first_of_ofOutline_eq_error horderly hrow hx
      obtain ⟨part, hpart⟩ := hoffends.inText horderly
      obtain ⟨before, hpoints⟩ := SyntaxError.pointsAt_ofFault hpart
      exact ⟨_, before, part, rfl, hpoints, .inr ⟨blocks, c, hreads, hoffends, hfirst⟩⟩
    next trail hrun =>
      cases hx
      have hstays := staysIn_outline _ _ _ _ (Cursor.isIn_start text.toList) (Trail.isIn_empty _) hrun
      obtain ⟨before, after, htext, hfurthest⟩ := hstays.1
      have hholds : (Span.mk trail.furthest trail.furthest).Holds text.toList [] :=
        ⟨before, after, by simpa using htext, hfurthest, rfl⟩
      obtain ⟨before, hpoints⟩ := SyntaxError.pointsAt_ofFault (x := (_, .expected trail.expected)) hholds
      exact ⟨_, before, [], rfl, hpoints, .inl ⟨⟨{}, trail, hrun⟩, rfl, _, rfl⟩⟩

/-- Of two faulty attributes behind a comment, the error points at the first. Its range counts bytes,
and its column characters. -/
theorem Document.pointsAt_of_ofText_eq_error_of_enum :
    ∃ e before part,
      Document.ofText "enum E \x7b a // é\n b @default(f()) @default(g()) \x7d" = .error (.syntactic e) ∧
        e = ⟨⟨20, 33⟩, ⟨2, 4⟩, .badArguments "@default" (.unknownFunction "f")⟩ ∧
        e.PointsAt "enum E \x7b a // é\n b @default(f()) @default(g()) \x7d".toList before part := by
  have hread : (Document.ofChars "enum E \x7b a // é\n b @default(f()) @default(g()) \x7d".toList).map
      (fun _ => ()) = .error (⟨20, 33⟩, .badArguments "@default" (.unknownFunction "f")) := by
    decide +kernel
  have hplace : SyntaxError.ofFault "enum E \x7b a // é\n b @default(f()) @default(g()) \x7d".toList
      (⟨20, 33⟩, .badArguments "@default" (.unknownFunction "f")) =
      ⟨⟨20, 33⟩, ⟨2, 4⟩, .badArguments "@default" (.unknownFunction "f")⟩ := by
    decide +kernel
  have herror := Document.ofText_eq_error (map_eq_error_iff.mp hread)
  rw [hplace] at herror
  obtain ⟨e, before, part, heq, hpoints, -⟩ := Document.pointsAt_of_ofText_eq_error herror
  cases heq
  exact ⟨_, before, part, herror, rfl, hpoints⟩

end SchemaMigration
