import SchemaMigration.Proofs.Execution.Atomicity
import SchemaMigration.Proofs.Execution.DryRun
import SchemaMigration.Proofs.Execution.Ledger
import SchemaMigration.Proofs.Execution.Store

/-! # Databases after a reset

A reset starts from an empty ledger, whatever was recorded before it. With atomic transactions, what
it applies is what the ledger holds afterwards: the first of the migrations, up to one that fails,
or all of them. Then the status of every migration is that it was applied with the script it has.
-/

namespace SchemaMigration

open Calendar (Instant)

variable {State Content : Type}

namespace DatabaseView

variable (view : DatabaseView State Content)

/-- The ledger can be dropped and created again. To drop a table, or to create the ledger, opens no
transaction. To drop the ledger leaves no rows, and to create it leaves those that there are. A
selection gives the rows under the names of their columns, in some order. -/
structure Recreates (executor : Executor State) (l : Ledger) : Prop where
  dropTable : ∀ {table s s' rows},
    executor.perform (.run (Sql.dropTableSql table) []) s = (.ok rows, s') →
    view.working s = none → view.working s' = none
  drop : ∀ {s s' rows}, executor.perform (.run l.dropSql []) s = (.ok rows, s') →
    view.working s = none → view.rows (view.committed s') = 0
  create : ∀ {s s' rows}, executor.perform (.run l.createSql []) s = (.ok rows, s') →
    view.working s = none →
    view.working s' = none ∧ view.rows (view.committed s') = view.rows (view.committed s)
  select : ∀ {s s' rows}, executor.perform (.run l.selectSql []) s = (.ok rows, s') →
    view.working s = none → ∃ values : List (List Value),
      view.rows (view.committed s) = ↑values ∧ rows = values.map (Row.mk Ledger.columns)

end DatabaseView

/-- The rows of migrations that are applied at an instant. -/
def appliedRows (now : Instant) (migrations : List Migration) : List (List Value) :=
  migrations.map fun m => (Record.ofMigration m now).values

/-- The outcomes of a run at migrations, of which it applied some: all of them, or those before one
that failed. -/
inductive EndsWith (migrations : List Migration) : List Migration → List Outcome → Prop
  | all : EndsWith migrations migrations (migrations.map .applied)
  | failure {done : List Migration} {m : Migration} (hleading : done ++ [m] <+: migrations)
      (error : ExecutionError) :
      EndsWith migrations done (done.map .applied ++ [.failed m error])

namespace EndsWith

variable {migrations done : List Migration} {m : Migration} {outcomes : List Outcome}

theorem cons (h : EndsWith migrations done outcomes) :
    EndsWith (m :: migrations) (m :: done) (.applied m :: outcomes) := by
  cases h with
  | all => exact .all
  | failure hleading error =>
      exact .failure (List.cons_prefix_cons.mpr ⟨rfl, hleading⟩) error

/-- The outcomes are those of the first migrations, in order. -/
theorem names (h : EndsWith migrations done outcomes) :
    outcomes.map Outcome.name <+: migrations.map Migration.name := by
  cases h with
  | all =>
      rw [List.map_map]
      exact List.prefix_rfl
  | @failure done m hleading error =>
      have hnames := hleading.map Migration.name
      rw [List.map_append] at hnames ⊢
      rw [List.map_map]
      exact hnames

theorem mismatches (h : EndsWith migrations done outcomes) (isDryRun : Bool) :
    (ApplyReport.mk outcomes isDryRun).mismatches = [] := by
  have hnone : ∀ o ∈ outcomes, o.status ≠ .checksumMismatch := by
    intro o ho
    cases h with
    | all =>
        obtain ⟨m, _, rfl⟩ := List.mem_map.mp ho
        simp [Outcome.applied]
    | failure hleading error =>
        rcases List.mem_append.mp ho with ho | ho
        · obtain ⟨m, _, rfl⟩ := List.mem_map.mp ho
          simp [Outcome.applied]
        · rw [List.mem_singleton.mp ho]
          simp [Outcome.failed]
  unfold ApplyReport.mismatches ApplyReport.withStatus
  rw [List.filter_eq_nil_iff.mpr fun o ho => by simpa using hnone o ho]
  rfl

theorem eq_of_isSuccess (h : EndsWith migrations done outcomes) {isDryRun : Bool}
    (hsuccess : (ApplyReport.mk outcomes isDryRun).isSuccess = true) : done = migrations := by
  cases h with
  | all => rfl
  | failure hleading error =>
      simp [ApplyReport.isSuccess, ApplyReport.failure?, Outcome.failed] at hsuccess

end EndsWith

namespace Manager

variable {manager : Manager State} {view : DatabaseView State Content}
  {migrations : List Migration} {now : Instant} {database final : State}

/-- A run adds the rows of the migrations that it applied, and no others. -/
theorem applyAll_rows (hatomic : view.Atomic manager.executor)
    (hkeeps : view.Keeps manager.executor manager.ledger)
    (hspared : ∀ m ∈ migrations, ∀ sql ∈ m.statements, view.Spares sql)
    (hclosed : view.working database = none) {outcomes : List Outcome}
    (h : manager.applyAll now migrations database = (outcomes, final)) :
    view.working final = none ∧ ∃ done, EndsWith migrations done outcomes ∧
      view.rows (view.committed final) =
        ↑(appliedRows now done) + view.rows (view.committed database) := by
  induction migrations generalizing database outcomes with
  | nil =>
      obtain ⟨rfl, rfl⟩ := Prod.mk.inj h
      exact ⟨hclosed, [], .all, by simp [appliedRows]⟩
  | cons m migrations ih =>
      obtain ⟨hm, hrest⟩ := List.forall_mem_cons.mp hspared
      have hinside := manager.ledger.isInside_application m now
      unfold applyAll at h
      cases htransact : manager.executor.transact (manager.ledger.application m now) database with
      | mk result after =>
          rw [htransact] at h
          cases result with
          | error error =>
              obtain ⟨rfl, rfl⟩ := Prod.mk.inj h
              obtain ⟨hdone, hsame⟩ := hatomic.transact_error hinside htransact hclosed
              refine ⟨hdone, [], .failure (List.prefix_append [m] migrations) error, ?_⟩
              rw [hsame]
              simp [appliedRows]
          | ok _ =>
              obtain ⟨hdone, hevolves⟩ := hatomic.transact_ok hinside htransact hclosed
              obtain ⟨_, hrows⟩ := hkeeps.rows_of_application hm hevolves
              cases hrun : manager.applyAll now migrations after with
              | mk later last =>
                  simp only [hrun] at h
                  obtain ⟨rfl, rfl⟩ := Prod.mk.inj h
                  obtain ⟨hlast, done, hends, hheld⟩ := ih hrest hdone hrun
                  refine ⟨hlast, m :: done, hends.cons, ?_⟩
                  rw [hheld, hrows, Multiset.add_cons, ← Multiset.cons_add]
                  rfl

/-- To drop tables opens no transaction. -/
theorem working_of_performAll (hrecreates : view.Recreates manager.executor manager.ledger)
    (hclosed : view.working database = none) {tables : List String}
    (h : manager.executor.performAll ((tables.map Sql.dropTableSql).map fun sql => .run sql [])
      database = (.ok (), final)) : view.working final = none := by
  induction tables generalizing database with
  | nil =>
      obtain ⟨_, rfl⟩ := Prod.mk.inj h
      exact hclosed
  | cons table tables ih =>
      rw [List.map_cons, List.map_cons, Executor.performAll] at h
      split at h
      next rows after hdrop => exact ih (hrecreates.dropTable hdrop hclosed) h
      next => cases h

/-- The drop statements leave the ledger without rows. -/
theorem rows_of_dropped (hrecreates : view.Recreates manager.executor manager.ledger)
    (hclosed : view.working database = none) {dropped : State}
    (h : manager.executor.performAll
      ((manager.dryReset migrations).statements.map fun sql => .run sql []) database =
        (.ok (), dropped)) :
    view.working dropped = none ∧ view.rows (view.committed dropped) = 0 := by
  obtain ⟨between, rows, htables, hdrop⟩ := manager.exists_drop_of_performAll h
  have hbetween := working_of_performAll hrecreates hclosed htables
  exact ⟨hrecreates.dropTable hdrop hbetween, hrecreates.drop hdrop hbetween⟩

/-- A run on a ledger without rows applies migrations from the first on. -/
theorem applyListed_rows (hatomic : view.Atomic manager.executor)
    (hkeeps : view.Keeps manager.executor manager.ledger)
    (hrecreates : view.Recreates manager.executor manager.ledger)
    (hspared : ∀ m ∈ migrations, ∀ sql ∈ m.statements, view.Spares sql)
    (hclosed : view.working database = none)
    (hempty : view.rows (view.committed database) = 0) (isForced : Bool)
    {result : Except MigrationError ApplyReport}
    (h : manager.applyListed now ⟨false, isForced⟩ migrations database = (result, final)) :
    (∃ error, result = .error (.execution error)) ∨
      ∃ outcomes done, result = .ok ⟨outcomes, false⟩ ∧ EndsWith migrations done outcomes ∧
        view.working final = none ∧ view.rows (view.committed final) = ↑(appliedRows now done) := by
  cases hselect : manager.executor.perform (.run manager.ledger.selectSql []) database with
  | mk answer selected =>
      obtain ⟨hstill, hsame⟩ := hkeeps.select hselect hclosed
      cases answer with
      | error error =>
          simp only [applyListed, Ledger.records, hselect] at h
          exact .inl ⟨error, (Prod.mk.inj h).1.symm⟩
      | ok rows =>
          obtain ⟨values, hvalues, rfl⟩ := hrecreates.select hselect hclosed
          obtain rfl : values = [] := Multiset.coe_eq_zero _ |>.mp (hvalues.symm.trans hempty)
          have hrecords : ([] : List Row).mapM Record.ofRow = .ok [] := rfl
          rw [List.map_nil] at hselect
          cases hrun : manager.applyAll now migrations selected with
          | mk outcomes last =>
              obtain ⟨hlast, done, hends, hrows⟩ :=
                applyAll_rows hatomic hkeeps hspared hstill hrun
              simp only [applyListed, Ledger.records, hselect, hrecords, applyPending,
                checkMismatches_nil, pending_nil, Bool.false_eq_true, if_false, hrun] at h
              obtain ⟨rfl, rfl⟩ := Prod.mk.inj h
              refine .inr ⟨outcomes, done, rfl, hends, hlast, ?_⟩
              rw [hrows, hsame, hempty, Multiset.add_zero]

/-- What a reset reports and leaves, when it gets as far as a report. -/
theorem rebuild_rows (hatomic : view.Atomic manager.executor)
    (hkeeps : view.Keeps manager.executor manager.ledger)
    (hrecreates : view.Recreates manager.executor manager.ledger)
    (hspared : ∀ m ∈ migrations, ∀ sql ∈ m.statements, view.Spares sql)
    (hclosed : view.working database = none) (isForced : Bool)
    {result : Except MigrationError ResetReport}
    (h : manager.rebuild now ⟨false, isForced⟩ migrations database = (result, final)) :
    (∃ error, result = .error (.execution error)) ∨
      ∃ outcomes done,
        result = .ok { manager.dryReset migrations with apply := ⟨outcomes, false⟩ } ∧
        EndsWith migrations done outcomes ∧ view.working final = none ∧
        view.rows (view.committed final) = ↑(appliedRows now done) := by
  cases hdrops : manager.executor.performAll
      ((manager.dryReset migrations).statements.map fun sql => .run sql []) database with
  | mk dropping dropped =>
      cases dropping with
      | error error =>
          rw [manager.rebuild_of_drop_error hdrops] at h
          exact .inl ⟨error, (Prod.mk.inj h).1.symm⟩
      | ok _ =>
          obtain ⟨hdropped, hnone⟩ := rows_of_dropped hrecreates hclosed hdrops
          cases hcreate : manager.executor.perform (.run manager.ledger.createSql []) dropped with
          | mk answer created =>
              cases answer with
              | error error =>
                  rw [manager.rebuild_of_create_error hdrops hcreate] at h
                  exact .inl ⟨error, (Prod.mk.inj h).1.symm⟩
              | ok rows =>
                  obtain ⟨hcreated, hsame⟩ := hrecreates.create hcreate hdropped
                  have hempty := hsame.trans hnone
                  cases hrun : manager.applyListed now ⟨false, isForced⟩ migrations created with
                  | mk applied last =>
                      rw [manager.rebuild_of_created hdrops hcreate hrun] at h
                      obtain ⟨rfl, rfl⟩ := Prod.mk.inj h
                      obtain ⟨error, rfl⟩ | ⟨outcomes, done, rfl, hrest⟩ :=
                        applyListed_rows hatomic hkeeps hrecreates hspared hcreated hempty
                          isForced hrun
                      · exact .inl ⟨error, rfl⟩
                      · exact .inr ⟨outcomes, done, rfl, hrest⟩

/-- The status when the ledger has the rows of all migrations. -/
theorem status_of_rows (hrecreates : view.Recreates manager.executor manager.ledger)
    (hnames : (migrations.map Migration.name).Nodup) (hnow : now.IsCurrent)
    (hclosed : view.working database = none)
    (hrows : view.rows (view.committed database) = ↑(appliedRows now migrations))
    {rows : List Row} {selected : State}
    (hselect : manager.executor.perform (.run manager.ledger.selectSql []) database =
      (.ok rows, selected)) :
    manager.status (.ok migrations) ⟨.ready, database⟩ =
      (.ok (migrations.map fun m => StatusEntry.current m now), ⟨.ready, selected⟩) := by
  obtain ⟨values, hvalues, rfl⟩ := hrecreates.select hselect hclosed
  have hperm : values.Perm (appliedRows now migrations) :=
    Multiset.coe_eq_coe.mp (hvalues.symm.trans hrows)
  have hheld : HoldRecords (values.map (Row.mk Ledger.columns)) migrations now := by
    intro row
    rw [(hperm.map _).mem_iff, appliedRows, List.map_map, List.mem_map]
    exact exists_congr fun m => and_congr_right fun _ => eq_comm
  obtain ⟨records, hrecords, hmem⟩ := exists_records hheld hnow
  simp only [status, whenReady, withListing, Ledger.records, hselect, hrecords,
    StatusEntry.all_of_records hnames hmem]

end Manager

/-! ## A store that can be reset -/

namespace Store

/-- The content after a statement outside of a transaction: to drop the ledger removes its rows, and
any other statement is only noted. -/
def booksOutside (l : Ledger) (sql : String) (b : Books) : Books :=
  if sql = l.dropSql then { b with rows := [] }
  else { b with statements := b.statements ++ [sql] }

/-- The answer to a request of a store that takes any statement outside of transactions. -/
def performOpenly (l : Ledger) (request : Request) (s : Store) :
    Except ExecutionError (List Row) × Store :=
  match request, s.working with
  | .run sql parameters, none =>
    if sql = l.selectSql then perform l (.run sql parameters) s
    else
      s.answer { s with committed := booksOutside l sql s.committed, failures := s.failures.tail }
        { s with failures := s.failures.tail } []
  | request, _ => perform l request s

/-- The executor of such a store. -/
def openExecutor (l : Ledger) : Executor Store :=
  ⟨performOpenly l⟩

theorem atomic_openExecutor (l : Ledger) : (view l).Atomic (openExecutor l) where
  begin_ok h := (atomic l).begin_ok h
  begin_error h := (atomic l).begin_error h
  inside_ok h := (atomic l).inside_ok h
  inside_error h := (atomic l).inside_error h
  commit_ok h := (atomic l).commit_ok h
  commit_error h := (atomic l).commit_error h
  rollback h := (atomic l).rollback h

theorem performOpenly_selectSql (l : Ledger) (s : Store) :
    performOpenly l (.run l.selectSql []) s = perform l (.run l.selectSql []) s := by
  unfold performOpenly
  cases s.working with
  | none => exact if_pos rfl
  | some books => rfl

theorem keeps_openExecutor (l : Ledger) : (view l).Keeps (openExecutor l) l where
  select {s s' answer} h := by
    have hperform : performOpenly l (.run l.selectSql []) s = (answer, s') := h
    rw [performOpenly_selectSql] at hperform
    exact (keeps l).select hperform
  unique := (keeps l).unique
  inserted := (keeps l).inserted

/-- What a statement that is no selection does outside of transactions. -/
theorem of_performOpenly {l : Ledger} {sql : String} (hother : sql ≠ l.selectSql) {s s' : Store}
    {answer : Except ExecutionError (List Row)}
    (h : (openExecutor l).perform (.run sql []) s = (answer, s')) (hclosed : s.working = none) :
    s'.working = none ∧
      (∀ rows, answer = .ok rows → s'.committed = booksOutside l sql s.committed) := by
  obtain ⟨committed, working, failures⟩ := s
  obtain rfl : working = none := hclosed
  simp only [openExecutor, performOpenly, if_neg hother, answer_eq_iff] at h
  obtain ⟨_, rfl, rfl⟩ | ⟨_, rfl, rfl⟩ := h
  · exact ⟨rfl, nofun⟩
  · exact ⟨rfl, fun _ _ => rfl⟩

/-- The statements around a reset are told apart by their first letters. -/
theorem statements_apart (l : Ledger) : (∀ table, Sql.dropTableSql table ≠ l.selectSql) ∧
    l.createSql ≠ l.selectSql ∧ l.createSql ≠ l.dropSql := by
  have hdrop : ∀ table, (Sql.dropTableSql table).toList.head? = some 'D' := by
    intro table
    unfold Sql.dropTableSql
    simp only [String.toList_append, List.append_assoc]
    rfl
  have hcreate : l.createSql.toList.head? = some 'C' := by
    unfold Ledger.createSql
    simp only [String.toList_append, List.append_assoc]
    rfl
  have hselect : l.selectSql.toList.head? = some 'S' := by
    unfold Ledger.selectSql
    simp only [String.toList_append, List.append_assoc]
    rfl
  refine ⟨fun table heq => ?_, fun heq => ?_, fun heq => ?_⟩
  · have hhead := hdrop table
    rw [heq, hselect] at hhead
    cases hhead
  · rw [heq, hselect] at hcreate
    cases hcreate
  · rw [heq, Ledger.dropSql, hdrop] at hcreate
    cases hcreate

theorem recreates_openExecutor (l : Ledger) : (view l).Recreates (openExecutor l) l := by
  obtain ⟨hdropSelect, hcreateSelect, hcreateDrop⟩ := statements_apart l
  constructor
  case dropTable =>
    intro table s s' rows h hclosed
    exact (of_performOpenly (hdropSelect table) h hclosed).1
  case drop =>
    intro s s' rows h hclosed
    have hcommitted : s'.committed = booksOutside l l.dropSql s.committed :=
      (of_performOpenly (hdropSelect l.table) h hclosed).2 rows rfl
    change (↑s'.committed.rows : Multiset (List Value)) = 0
    rw [hcommitted, booksOutside, if_pos rfl]
    rfl
  case create =>
    intro s s' rows h hclosed
    obtain ⟨hstill, hcommitted⟩ := of_performOpenly hcreateSelect h hclosed
    refine ⟨hstill, ?_⟩
    change (↑s'.committed.rows : Multiset (List Value)) = ↑s.committed.rows
    rw [hcommitted rows rfl, booksOutside, if_neg hcreateDrop]
  case select =>
    intro s s' rows h hclosed
    refine ⟨s.committed.rows, rfl, ?_⟩
    have hperform : performOpenly l (.run l.selectSql []) s = (.ok rows, s') := h
    rw [performOpenly_selectSql] at hperform
    obtain ⟨committed, working, failures⟩ := s
    obtain rfl : working = none := hclosed
    simp only [perform, if_true, answer_eq_iff] at hperform
    obtain ⟨_, hnot, _⟩ | ⟨_, hrows, _⟩ := hperform
    · cases hnot
    · exact Except.ok.inj hrows

end Store

namespace Manager

/-- A manager of such a store. -/
def reopened : Manager Store :=
  ⟨Store.openExecutor ⟨"ledger"⟩, ⟨"ledger"⟩⟩

/-- A store whose ledger has a row for an edited migration and one for a migration that is gone. -/
def outdated : Store :=
  { committed := { rows := [staleRecord.values, { staleRecord with name := "0_gone" }.values] } }

/-- Two migrations. -/
def twoApplied : List Migration :=
  [Migration.ofScript 1 "a" "CREATE TABLE a (id);", Migration.ofScript 2 "b" "CREATE TABLE b (id);"]

end Manager

end SchemaMigration
