import SchemaMigration.Proofs.Execution.Mismatch

/-! # Dry runs

A dry run sends a selection from the ledger and nothing else, and a dry reset sends nothing at all.
What they report is what becomes of the migrations when they are applied from the same state and
every request is carried out.
-/

namespace SchemaMigration

open Calendar (Instant)

variable {State : Type}

/-! ## Runs without failures -/

section Success

variable {requests : List Request} {result : Except ExecutionError Unit}
  {exchanges : List Exchange}

theorem eq_ok_of_errorOf? (h : errorOf? result = none) : result = .ok () := by
  cases result with
  | ok _ => rfl
  | error error => cases h

/-- Requests that are all carried out were all sent. -/
theorem Performs.map_request (h : Performs requests (.ok ()) exchanges) :
    exchanges.map Exchange.request = requests := by
  generalize hresult : Except.ok () = result at h
  induction h with
  | done => rfl
  | next request rows h ih => rw [List.map_cons, ih hresult]
  | fails => cases hresult

theorem Transacts.map_request (h : Transacts requests (.ok ()) exchanges) :
    exchanges.map Exchange.request = .begin :: requests ++ [.commit] := by
  cases h with
  | committed rows h last =>
      rw [List.map_append, List.map_cons, h.map_request]
      rfl

theorem firstError?_flatMap_eq_none {α : Type} {items : List α} {f : α → List Exchange}
    (h : firstError? (items.flatMap f) = none) : ∀ item ∈ items, firstError? (f item) = none := by
  intro item hitem
  unfold firstError? at h ⊢
  rw [List.findSome?_eq_none_iff] at h ⊢
  exact fun exchange hexchange => h exchange (List.mem_flatMap.mpr ⟨item, hitem, hexchange⟩)

/-- A run without failures applies all pending migrations, each in its transaction. -/
theorem Protocol.of_success {l : Ledger} {now : Instant} {pending : List Migration}
    {attempts : List Attempt} (h : Protocol l now pending attempts)
    (hsuccess : firstError? (attempts.flatMap Attempt.exchanges) = none) :
    attempts.map Attempt.outcome = pending.map .applied ∧
      (attempts.flatMap Attempt.exchanges).map Exchange.request =
        pending.flatMap fun m => .begin :: l.application m now ++ [.commit] := by
  have hok : ∀ a ∈ attempts, Transacts (l.application a.migration now) (.ok ()) a.exchanges := by
    intro a ha
    obtain ⟨result, htransacts⟩ := h.transacts a ha
    have hnone := firstError?_flatMap_eq_none hsuccess a ha
    rw [htransacts.firstError?_eq] at hnone
    rwa [eq_ok_of_errorOf? hnone] at htransacts
  have hall : attempts.map Attempt.migration = pending := h.complete fun a ha =>
    ((hok a ha).hasCommitted_iff (l.commit_notMem_application _ _)).mpr rfl
  rw [← hall, List.map_map, List.flatMap_map, List.map_flatMap]
  constructor
  · exact List.map_congr_left fun a ha => Attempt.outcome_of_transacts (hok a ha)
  · exact List.flatMap_congr fun a ha => (hok a ha).map_request

end Success

theorem Ledger.records_eq_ok {l : Ledger} {executor : Executor State} {state after : State}
    {records : List Record} (h : l.records executor state = (.ok records, after)) :
    ∃ rows, executor.perform (.run l.selectSql []) state = (.ok rows, after) ∧
      rows.mapM Record.ofRow = .ok records := by
  unfold Ledger.records at h
  split at h
  next rows selected hselect =>
    obtain ⟨hrecords, rfl⟩ := Prod.mk.inj h
    exact ⟨rows, hselect, hrecords⟩
  next => cases h

/-- To read the records sends a selection from the ledger. -/
theorem Ledger.recorded_records {l : Ledger} {executor : Executor State} {state after : State}
    {result : Except MigrationError (List Record)}
    (h : l.records executor state = (result, after)) (log : List Exchange) :
    ∃ answer, executor.perform (.run l.selectSql []) state = (answer, after) ∧
      l.records executor.recorded (state, log) =
        (result, after, log ++ [⟨.run l.selectSql [], answer⟩]) := by
  cases hselect : executor.perform (.run l.selectSql []) state with
  | mk answer selected =>
      have hlogged := executor.recorded_perform hselect log
      unfold Ledger.records at h ⊢
      rw [hselect] at h
      rw [hlogged]
      cases answer with
      | error _ | ok _ =>
          obtain ⟨rfl, rfl⟩ := Prod.mk.inj h
          exact ⟨_, rfl, rfl⟩

theorem Executor.performAll_append (executor : Executor State) (requests more : List Request)
    (state : State) :
    executor.performAll (requests ++ more) state =
      match executor.performAll requests state with
      | (.ok (), state) => executor.performAll more state
      | (.error error, state) => (.error error, state) := by
  induction requests generalizing state with
  | nil => rfl
  | cons request requests ih =>
      rw [List.cons_append, performAll, performAll]
      rcases executor.perform request state with ⟨_ | _, after⟩
      · rfl
      · exact ih after

/-! ## What is foretold -/

/-- The report of a dry run tells what a run does at an instant, whose log this is: it applies the
migrations that the dry run names, in order; it reports the same mismatches; and behind the
selection from the ledger it sends a transaction for each of these migrations, of the statements in
the report and of one record. -/
structure ApplyReport.Foretells (l : Ledger) (now : Instant) (log : List Exchange)
    (dry real : ApplyReport) : Prop where
  applied : real.applied = dry.withStatus .dryRun
  mismatches : real.mismatches = dry.mismatches
  success : real.isSuccess = true
  sent : ∃ pending : List Migration,
    dry.outcomes.filter (fun o => o.status = .dryRun) = pending.map .dryRun ∧
    log.map Exchange.request = .run l.selectSql [] ::
      pending.flatMap fun m => .begin :: l.application m now ++ [.commit]

/-- A dry run that is refused tells that a run is refused too. -/
inductive Foretells (l : Ledger) (now : Instant) (log : List Exchange) :
    Except MigrationError ApplyReport → Except MigrationError ApplyReport → Prop
  | report {dry real : ApplyReport} (h : dry.Foretells l now log real) :
      Foretells l now log (.ok dry) (.ok real)
  | refusal (error : MigrationError) : Foretells l now log (.error error) (.error error)

/-- The report of a dry reset tells what a reset does at an instant, whose log behind the drop
statements this is: it drops the same tables by the same statements, creates the ledger, finds it
empty, and applies exactly the migrations of the dry reset, in order. -/
structure ResetReport.Foretells (l : Ledger) (now : Instant) (log : List Exchange)
    (dry real : ResetReport) : Prop where
  dropped : real.dropped = dry.dropped
  statements : real.statements = dry.statements
  applied : ∃ migrations : List Migration, dry.apply.outcomes = migrations.map .dryRun ∧
    real.apply.outcomes = migrations.map .applied ∧
    log.map Exchange.request = .run l.createSql [] :: .run l.selectSql [] ::
      migrations.flatMap fun m => .begin :: l.application m now ++ [.commit]

/-- The ledger is empty in some states: after its table was dropped, and still after it was created
again. An empty ledger gives no rows. -/
structure Empties (executor : Executor State) (l : Ledger) (isEmpty : State → Prop) : Prop where
  drop : ∀ {s s' rows}, executor.perform (.run l.dropSql []) s = (.ok rows, s') → isEmpty s'
  create : ∀ {s s' rows}, executor.perform (.run l.createSql []) s = (.ok rows, s') →
    isEmpty s → isEmpty s'
  select : ∀ {s s' rows}, executor.perform (.run l.selectSql []) s = (.ok rows, s') →
    isEmpty s → rows = []

namespace Manager

/-- An operation of a ready manager on a database, and the same one on the recorded database: its
result, the database after it, and what it sent. -/
def Logs {α : Type} (operation : Managed State → Except MigrationError α × Managed State)
    (recorded : Managed (State × List Exchange) →
      Except MigrationError α × Managed (State × List Exchange))
    (database : State) (result : Except MigrationError α) (final : State) (log : List Exchange) :
    Prop :=
  operation ⟨.ready, database⟩ = (result, ⟨.ready, final⟩) ∧
    recorded ⟨.ready, database, []⟩ = (result, ⟨.ready, final, log⟩)

variable {records : List Record} {migrations : List Migration}

/-- What passes the check of the checksums is reported as a mismatch. -/
theorem status_of_checkMismatches {isForced : Bool} {outcomes : List Outcome}
    (h : checkMismatches records isForced migrations = .ok outcomes) :
    ∀ o ∈ outcomes, o.status = .checksumMismatch := by
  induction migrations generalizing outcomes with
  | nil =>
      obtain rfl := Except.ok.inj h
      simp
  | cons m migrations ih =>
      unfold checkMismatches at h
      split at h
      next => exact ih h
      next record _ =>
        split at h
        next =>
          obtain ⟨rest, hrest, h⟩ := bind_eq_ok_iff.mp h
          obtain rfl := pure_eq_ok_iff.mp h
          exact List.forall_mem_cons.mpr ⟨rfl, ih hrest⟩
        next => cases h

/-- Behind mismatches, outcomes of one other status are told from them by it. -/
theorem filter_status {mismatches : List Outcome}
    (hmismatches : ∀ o ∈ mismatches, o.status = .checksumMismatch) (pending : List Migration)
    (outcome : Migration → Outcome) {status : OutcomeStatus}
    (houtcome : ∀ m, (outcome m).status = status) (hstatus : status ≠ .checksumMismatch) :
    (mismatches ++ pending.map outcome).filter (fun o => o.status = status) =
        pending.map outcome ∧
      (mismatches ++ pending.map outcome).filter (fun o => o.status = .checksumMismatch) =
        mismatches := by
  have houtcomes : ∀ o ∈ pending.map outcome, o.status = status := by
    intro o ho
    obtain ⟨m, _, rfl⟩ := List.mem_map.mp ho
    exact houtcome m
  rw [List.filter_append, List.filter_append]
  constructor
  · rw [List.filter_eq_nil_iff.mpr fun o ho => by simp [hmismatches o ho, hstatus.symm],
      List.filter_eq_self.mpr fun o ho => by simp [houtcomes o ho], List.nil_append]
  · rw [List.filter_eq_self.mpr fun o ho => by simp [hmismatches o ho],
      List.filter_eq_nil_iff.mpr fun o ho => by simp [houtcomes o ho, hstatus], List.append_nil]

theorem foretells_of_outcomes {l : Ledger} {now : Instant} {log : List Exchange}
    {mismatches : List Outcome} {pending : List Migration}
    (hmismatches : ∀ o ∈ mismatches, o.status = .checksumMismatch)
    (hsent : log.map Exchange.request = .run l.selectSql [] ::
      pending.flatMap fun m => .begin :: l.application m now ++ [.commit]) :
    ApplyReport.Foretells l now log ⟨mismatches ++ pending.map .dryRun, true⟩
      ⟨mismatches ++ pending.map .applied, false⟩ := by
  obtain ⟨hdry, hdryMismatches⟩ :=
    filter_status hmismatches pending .dryRun (fun _ => rfl) (by decide)
  obtain ⟨happlied, happliedMismatches⟩ :=
    filter_status hmismatches pending .applied (fun _ => rfl) (by decide)
  constructor
  case applied =>
    unfold ApplyReport.applied ApplyReport.withStatus
    rw [hdry, happlied, List.map_map, List.map_map]
    rfl
  case mismatches =>
    unfold ApplyReport.mismatches ApplyReport.withStatus
    rw [hdryMismatches, happliedMismatches]
  case success =>
    unfold ApplyReport.isSuccess ApplyReport.failure?
    rw [Option.isNone_iff_eq_none, List.find?_eq_none]
    intro o ho
    rcases List.mem_append.mp ho with ho | ho
    · simp [hmismatches o ho]
    · obtain ⟨m, _, rfl⟩ := List.mem_map.mp ho
      simp [Outcome.applied]
  case sent => exact ⟨pending, hdry, hsent⟩

variable (manager : Manager State)

/-- A run that cannot read the records has sent a selection from the ledger and nothing else. -/
theorem recorded_applyListed_of_unread (now : Instant) (options : ApplyOptions)
    (migrations : List Migration) {database selected : State} {error : MigrationError}
    (hunread : manager.ledger.records manager.executor database = (.error error, selected))
    (log : List Exchange) :
    ∃ answer,
      manager.executor.perform (.run manager.ledger.selectSql []) database = (answer, selected) ∧
      manager.applyListed now options migrations database = (.error error, selected) ∧
      manager.recorded.applyListed now options migrations (database, log) =
        (.error error, selected, log ++ [⟨.run manager.ledger.selectSql [], answer⟩]) := by
  obtain ⟨answer, hselect, hlogged⟩ := Ledger.recorded_records hunread log
  refine ⟨answer, hselect, ?_, ?_⟩
  · simp only [applyListed, hunread]
  · simp only [applyListed, recorded, hlogged]

/-- A dry run on listed migrations sends a selection from the ledger and foretells the run. -/
theorem applyListed_foretold (isForced : Bool) (dryAt now : Instant) (migrations : List Migration)
    (database : State) :
    ∃ foretold seen answer result final log,
      manager.applyListed dryAt ⟨true, isForced⟩ migrations database = (foretold, seen) ∧
      manager.recorded.applyListed dryAt ⟨true, isForced⟩ migrations (database, []) =
        (foretold, seen, [⟨.run manager.ledger.selectSql [], answer⟩]) ∧
      manager.applyListed now ⟨false, isForced⟩ migrations database = (result, final) ∧
      manager.recorded.applyListed now ⟨false, isForced⟩ migrations (database, []) =
        (result, final, log) ∧
      (firstError? log = none → Foretells manager.ledger now log foretold result) := by
  cases hread : manager.ledger.records manager.executor database with
  | mk read selected =>
      cases read with
      | error error =>
          obtain ⟨answer, _, hdry, hdryLogged⟩ :=
            manager.recorded_applyListed_of_unread dryAt ⟨true, isForced⟩ migrations hread []
          obtain ⟨_, _, hreal, hrealLogged⟩ :=
            manager.recorded_applyListed_of_unread now ⟨false, isForced⟩ migrations hread []
          exact ⟨_, _, answer, _, _, _, hdry, hdryLogged, hreal, hrealLogged,
            fun _ => .refusal error⟩
      | ok records =>
          obtain ⟨rows, hselect, hrecords⟩ := Ledger.records_eq_ok hread
          cases hpass : checkMismatches records isForced migrations with
          | error error =>
              have hfail : ∀ isDryRun, checkMismatches records
                  (ApplyOptions.mk isDryRun isForced).isForced migrations = .error error :=
                fun _ => hpass
              obtain ⟨hdry, hdryLogged⟩ :=
                manager.recorded_applyListed_of_error dryAt hselect hrecords (hfail true) []
              obtain ⟨hreal, hrealLogged⟩ :=
                manager.recorded_applyListed_of_error now hselect hrecords (hfail false) []
              exact ⟨_, _, _, _, _, _, hdry, hdryLogged, hreal, hrealLogged,
                fun _ => .refusal error⟩
          | ok mismatches =>
              have hisDry : ∀ isDryRun, (ApplyOptions.mk isDryRun isForced).isDryRun = isDryRun :=
                fun _ => rfl
              obtain ⟨hdry, hdryLogged⟩ := manager.recorded_applyListed_of_dry dryAt
                (hisDry true) hselect hrecords hpass []
              obtain ⟨attempts, final, hreal, hrealLogged, hprotocol⟩ :=
                manager.recorded_applyListed (hisDry false) hselect hrecords hpass []
              refine ⟨_, _, _, _, _, _, hdry, hdryLogged, hreal, hrealLogged, fun hsuccess => ?_⟩
              obtain ⟨houtcomes, hsent⟩ := hprotocol.of_success hsuccess
              rw [houtcomes]
              refine .report (foretells_of_outcomes (status_of_checkMismatches hpass) ?_)
              rw [List.nil_append, List.map_cons, hsent]

/-- A run on listed migrations begins with a selection from the ledger, and a recorded one does the
same. -/
theorem recorded_applyListed_eq (now : Instant) (options : ApplyOptions)
    (migrations : List Migration) (database : State) (log : List Exchange) :
    ∃ answer selected result final more,
      manager.executor.perform (.run manager.ledger.selectSql []) database = (answer, selected) ∧
      manager.applyListed now options migrations database = (result, final) ∧
      manager.recorded.applyListed now options migrations (database, log) =
        (result, final, log ++ ⟨.run manager.ledger.selectSql [], answer⟩ :: more) := by
  cases hread : manager.ledger.records manager.executor database with
  | mk read selected =>
      cases read with
      | error error =>
          obtain ⟨answer, hselect, hplain, hrecorded⟩ :=
            manager.recorded_applyListed_of_unread now options migrations hread log
          exact ⟨_, _, _, _, [], hselect, hplain, hrecorded⟩
      | ok records =>
          obtain ⟨rows, hselect, hrecords⟩ := Ledger.records_eq_ok hread
          cases hpass : checkMismatches records options.isForced migrations with
          | error error =>
              obtain ⟨hplain, hrecorded⟩ :=
                manager.recorded_applyListed_of_error now hselect hrecords hpass log
              exact ⟨_, _, _, _, [], hselect, hplain, hrecorded⟩
          | ok mismatches =>
              cases hdry : options.isDryRun with
              | true =>
                  obtain ⟨hplain, hrecorded⟩ :=
                    manager.recorded_applyListed_of_dry now hdry hselect hrecords hpass log
                  exact ⟨_, _, _, _, [], hselect, hplain, hrecorded⟩
              | false =>
                  obtain ⟨attempts, final, hplain, hrecorded, _⟩ :=
                    manager.recorded_applyListed hdry hselect hrecords hpass log
                  exact ⟨_, _, _, _, _, hselect, hplain, hrecorded⟩

/-- A dry run sends a selection from the ledger, once the migrations are listed, and nothing else.
It foretells what a run from the same state does that is forced like it, if nothing fails in it. -/
def AppliesAsForetold (isForced : Bool) (dryAt now : Instant) (listing : Listing)
    (database : State) : Prop :=
  ∃ foretold seen selection result final log,
    Logs (manager.apply dryAt ⟨true, isForced⟩ listing)
      (manager.recorded.apply dryAt ⟨true, isForced⟩ listing) database foretold seen selection ∧
    selection.map Exchange.request =
      (match listing with | .ok _ => [.run manager.ledger.selectSql []] | .error _ => []) ∧
    Logs (manager.apply now ⟨false, isForced⟩ listing)
      (manager.recorded.apply now ⟨false, isForced⟩ listing) database result final log ∧
    (firstError? log = none → Foretells manager.ledger now log foretold result)

theorem appliesAsForetold (isForced : Bool) (dryAt now : Instant) (listing : Listing)
    (database : State) : manager.AppliesAsForetold isForced dryAt now listing database := by
  cases listing with
  | error error =>
      exact ⟨_, _, _, _, _, _, ⟨rfl, rfl⟩, rfl, ⟨rfl, rfl⟩,
        fun _ => .refusal error⟩
  | ok migrations =>
      obtain ⟨foretold, seen, answer, result, final, log, hdry, hdryLogged, hreal, hrealLogged,
        hforetells⟩ := manager.applyListed_foretold isForced dryAt now migrations database
      refine ⟨foretold, seen, [⟨.run manager.ledger.selectSql [], answer⟩], result, final, log,
        ⟨?_, ?_⟩, rfl, ⟨?_, ?_⟩, hforetells⟩
      · simp only [apply, whenReady, withListing, hdry]
      · simp only [apply, whenReady, withListing, hdryLogged]
      · simp only [apply, whenReady, withListing, hreal]
      · simp only [apply, whenReady, withListing, hrealLogged]

/-! ## Resets -/

/-- Without records everything is pending. -/
theorem pending_nil (migrations : List Migration) : pending migrations [] = migrations :=
  List.filter_eq_self.mpr fun _ _ => rfl

theorem checkMismatches_nil (isForced : Bool) (migrations : List Migration) :
    checkMismatches [] isForced migrations = .ok [] :=
  checkMismatches_of_none fun _ _ => rfl

/-- The drop statements that are all carried out end with the one that drops the ledger. -/
theorem exists_drop_of_performAll {tables : List String} {database after : State}
    (h : manager.executor.performAll
      ((manager.dropStatements tables).map fun sql => .run sql []) database = (.ok (), after)) :
    ∃ between rows,
      manager.executor.performAll ((tables.map Sql.dropTableSql).map fun sql => .run sql [])
        database = (.ok (), between) ∧
      manager.executor.perform (.run manager.ledger.dropSql []) between = (.ok rows, after) := by
  unfold dropStatements at h
  rw [List.map_append, Executor.performAll_append] at h
  split at h
  next between htables =>
    simp only [List.map_cons, List.map_nil, Executor.performAll] at h
    split at h
    next rows last hdrop =>
      obtain ⟨_, rfl⟩ := Prod.mk.inj h
      exact ⟨between, rows, htables, hdrop⟩
    next => cases h
  next => cases h

/-- A run on an empty ledger without failures applies all migrations. -/
theorem applyListed_of_empty {isEmpty : State → Prop}
    (hempties : Empties manager.executor manager.ledger isEmpty) (now : Instant)
    {options : ApplyOptions} (hdry : options.isDryRun = false) {migrations : List Migration}
    {database final : State} (hempty : isEmpty database)
    {result : Except MigrationError ApplyReport} {log more : List Exchange}
    (hrun : manager.recorded.applyListed now options migrations (database, log) =
      (result, final, log ++ more))
    (hsuccess : firstError? more = none) :
    result = .ok ⟨migrations.map .applied, false⟩ ∧
      more.map Exchange.request = .run manager.ledger.selectSql [] ::
        migrations.flatMap fun m => .begin :: manager.ledger.application m now ++ [.commit] := by
  obtain ⟨answer, selected, _, _, rest, hselect, _, hlogged⟩ :=
    manager.recorded_applyListed_eq now options migrations database log
  obtain ⟨_, hlog⟩ := Prod.mk.inj (hrun.symm.trans hlogged)
  obtain rfl := List.append_cancel_left (Prod.mk.inj hlog).2
  cases answer with
  | error error => cases hsuccess
  | ok rows =>
      -- The selection gives no rows, so nothing is recorded and everything is pending.
      obtain rfl := hempties.select hselect hempty
      have hrecords : ([] : List Row).mapM Record.ofRow = .ok [] := rfl
      have hpass := checkMismatches_nil options.isForced migrations
      obtain ⟨attempts, _, _, hattempts, hprotocol⟩ :=
        manager.recorded_applyListed hdry hselect hrecords hpass log
      obtain ⟨hresult, hlog⟩ := Prod.mk.inj (hrun.symm.trans hattempts)
      have hmore := List.append_cancel_left (Prod.mk.inj hlog).2
      obtain rfl := (List.cons.inj hmore).2
      rw [pending_nil] at hprotocol
      obtain ⟨houtcomes, hsent⟩ := hprotocol.of_success hsuccess
      rw [hresult, houtcomes, List.map_cons, hsent]
      exact ⟨rfl, rfl⟩

section Rebuild

variable {now : Instant} {options : ApplyOptions} {database dropped created : State}

/-- A reset in which a table cannot be dropped. -/
theorem rebuild_of_drop_error {error : ExecutionError}
    (hdrops : manager.executor.performAll
      ((manager.dryReset migrations).statements.map fun sql => .run sql []) database =
        (.error error, dropped)) :
    manager.rebuild now options migrations database = (.error (.execution error), dropped) := by
  simp only [dryReset] at hdrops
  simp only [rebuild, executeAll, hdrops]

/-- A reset in which the ledger cannot be created. -/
theorem rebuild_of_create_error {error : ExecutionError}
    (hdrops : manager.executor.performAll
      ((manager.dryReset migrations).statements.map fun sql => .run sql []) database =
        (.ok (), dropped))
    (hcreate : manager.executor.perform (.run manager.ledger.createSql []) dropped =
      (.error error, created)) :
    manager.rebuild now options migrations database = (.error (.execution error), created) := by
  simp only [dryReset] at hdrops
  simp only [rebuild, executeAll, hdrops, Ledger.create, Ledger.execute, hcreate]

/-- A reset that comes to applying the migrations. -/
theorem rebuild_of_created {rows : List Row}
    (hdrops : manager.executor.performAll
      ((manager.dryReset migrations).statements.map fun sql => .run sql []) database =
        (.ok (), dropped))
    (hcreate : manager.executor.perform (.run manager.ledger.createSql []) dropped =
      (.ok rows, created))
    {result : Except MigrationError ApplyReport} {final : State}
    (hrun : manager.applyListed now options migrations created = (result, final)) :
    manager.rebuild now options migrations database =
      (result.map fun report => { manager.dryReset migrations with apply := report }, final) := by
  simp only [dryReset] at hdrops
  simp only [rebuild, executeAll, hdrops, Ledger.create, Ledger.execute, hcreate, hrun]
  cases result <;> rfl

end Rebuild

/-- A reset that comes to an empty ledger sends what the dry reset foretells behind the drop
statements, if nothing more fails. -/
theorem recorded_rebuild_of_created {isEmpty : State → Prop}
    (hempties : Empties manager.executor manager.ledger isEmpty) (isForced : Bool) (now : Instant)
    {database dropped created : State} {drops : List Exchange} {rows : List Row}
    (hdrops : manager.executor.performAll
      ((manager.dryReset migrations).statements.map fun sql => .run sql []) database =
        (.ok (), dropped))
    (hdropsLogged : manager.executor.recorded.performAll
      ((manager.dryReset migrations).statements.map fun sql => .run sql []) (database, []) =
        (.ok (), dropped, drops))
    (hcreate : manager.executor.perform (.run manager.ledger.createSql []) dropped =
      (.ok rows, created))
    (hempty : isEmpty created) :
    ∃ result final rest,
      manager.rebuild now ⟨false, isForced⟩ migrations database = (result, final) ∧
      manager.recorded.rebuild now ⟨false, isForced⟩ migrations (database, []) =
        (result, final, drops ++ rest) ∧
      (firstError? rest = none → ∃ report, result = .ok report ∧
        (manager.dryReset migrations).Foretells manager.ledger now rest report) := by
  have hcreateLogged := manager.executor.recorded_perform hcreate drops
  obtain ⟨answer, _, result, final, more, _, hplain, hlogged⟩ :=
    manager.recorded_applyListed_eq now ⟨false, isForced⟩ migrations created
      (drops ++ [⟨.run manager.ledger.createSql [], .ok rows⟩])
  refine ⟨_, final, ⟨.run manager.ledger.createSql [], .ok rows⟩ ::
    ⟨.run manager.ledger.selectSql [], answer⟩ :: more,
    manager.rebuild_of_created hdrops hcreate hplain, ?_, ?_⟩
  · rw [manager.recorded.rebuild_of_created hdropsLogged hcreateLogged hlogged,
      List.append_assoc]
    rfl
  · intro hsuccess
    obtain ⟨rfl, hsent⟩ :=
      manager.applyListed_of_empty hempties now rfl hempty hlogged hsuccess
    refine ⟨_, rfl, rfl, rfl, migrations, rfl, rfl, ?_⟩
    rw [List.map_cons, hsent]

/-- A reset first sends the drop statements in order, up to the first that fails. If none fails and
nothing after them does, it applies all migrations. -/
theorem rebuild_foretold {isEmpty : State → Prop}
    (hempties : Empties manager.executor manager.ledger isEmpty) (isForced : Bool) (now : Instant)
    (migrations : List Migration) (database : State) :
    ∃ dropping drops result final rest,
      manager.rebuild now ⟨false, isForced⟩ migrations database = (result, final) ∧
      manager.recorded.rebuild now ⟨false, isForced⟩ migrations (database, []) =
        (result, final, drops ++ rest) ∧
      Performs ((manager.dryReset migrations).statements.map fun sql => .run sql []) dropping
        drops ∧
      (dropping ≠ .ok () → rest = []) ∧
      (firstError? (drops ++ rest) = none → ∃ report, result = .ok report ∧
        (manager.dryReset migrations).Foretells manager.ledger now rest report) := by
  obtain ⟨drops, hdropsLogged, hperforms⟩ := manager.executor.recorded_performAll
    ((manager.dryReset migrations).statements.map fun sql => .run sql []) database []
  rw [List.nil_append] at hdropsLogged
  cases hdrops : manager.executor.performAll
      ((manager.dryReset migrations).statements.map fun sql => .run sql []) database with
  | mk dropping dropped =>
      rw [hdrops] at hdropsLogged hperforms
      have hfirst := hperforms.firstError?_eq
      cases dropping with
      | error error =>
          refine ⟨_, drops, .error (.execution error), dropped, [],
            manager.rebuild_of_drop_error hdrops, ?_, hperforms, fun _ => rfl, ?_⟩
          · rw [List.append_nil]
            exact manager.recorded.rebuild_of_drop_error hdropsLogged
          · intro hsuccess
            rw [List.append_nil, hfirst] at hsuccess
            cases hsuccess
      | ok _ =>
          obtain ⟨_, _, _, hdrop⟩ := manager.exists_drop_of_performAll hdrops
          cases hcreate : manager.executor.perform (.run manager.ledger.createSql []) dropped with
          | mk answer created =>
              cases answer with
              | error error =>
                  refine ⟨_, drops, .error (.execution error), created,
                    [⟨.run manager.ledger.createSql [], .error error⟩],
                    manager.rebuild_of_create_error hdrops hcreate,
                    manager.recorded.rebuild_of_create_error hdropsLogged
                      (manager.executor.recorded_perform hcreate drops),
                    hperforms, fun hnot => absurd rfl hnot, ?_⟩
                  intro hsuccess
                  rw [firstError?_append, hfirst] at hsuccess
                  cases hsuccess
              | ok rows =>
                  obtain ⟨result, final, rest, hplain, hlogged, hforetells⟩ :=
                    manager.recorded_rebuild_of_created hempties isForced now hdrops hdropsLogged
                      hcreate (hempties.create hcreate (hempties.drop hdrop))
                  refine ⟨_, drops, result, final, rest, hplain, hlogged, hperforms,
                    fun hnot => absurd rfl hnot, fun hsuccess => hforetells ?_⟩
                  rwa [firstError?_append, hfirst] at hsuccess

/-- A dry reset sends nothing and leaves the database as it is. A reset from the same state first
sends the drop statements of the dry reset in order, up to the first that fails, and the dry reset
foretells what it does if nothing fails in it. -/
def ResetsAsForetold (isForced : Bool) (dryAt now : Instant) (listing : Listing)
    (database : State) : Prop :=
  Logs (manager.reset dryAt ⟨true, isForced⟩ listing)
      (manager.recorded.reset dryAt ⟨true, isForced⟩ listing) database
      (listing.map manager.dryReset) database [] ∧
    ∃ result final drops rest,
      Logs (manager.reset now ⟨false, isForced⟩ listing)
        (manager.recorded.reset now ⟨false, isForced⟩ listing) database result final
        (drops ++ rest) ∧
      (∀ error, listing = .error error → result = .error error ∧ drops ++ rest = []) ∧
      ∀ dry, listing.map manager.dryReset = .ok dry →
        (∃ dropping, Performs (dry.statements.map fun sql => .run sql []) dropping drops ∧
          (dropping ≠ .ok () → rest = [])) ∧
        (firstError? (drops ++ rest) = none → ∃ report, result = .ok report ∧
          dry.Foretells manager.ledger now rest report)

theorem resetsAsForetold {isEmpty : State → Prop}
    (hempties : Empties manager.executor manager.ledger isEmpty) (isForced : Bool)
    (dryAt now : Instant) (listing : Listing) (database : State) :
    manager.ResetsAsForetold isForced dryAt now listing database := by
  refine ⟨?_, ?_⟩
  · cases listing <;> exact ⟨rfl, rfl⟩
  · cases listing with
    | error error =>
        refine ⟨.error error, database, [], [], ⟨rfl, rfl⟩, ?_, ?_⟩
        · intro _ h
          exact ⟨congrArg Except.error (Except.error.inj h), rfl⟩
        · intro _ h
          cases h
    | ok migrations =>
        obtain ⟨dropping, drops, result, final, rest, hplain, hlogged, hperforms, hhalts,
          hforetells⟩ := manager.rebuild_foretold hempties isForced now migrations database
        refine ⟨result, final, drops, rest, ⟨?_, ?_⟩, ?_, ?_⟩
        · simp only [reset, whenReady, withListing, Bool.false_eq_true, if_false, hplain]
        · simp only [reset, whenReady, withListing, Bool.false_eq_true, if_false, hlogged]
        · intro _ h
          cases h
        · intro dry hdry
          obtain rfl := Except.ok.inj hdry
          exact ⟨⟨dropping, hperforms, hhalts⟩, hforetells⟩

/-- A statement of a rehearsal without parameters leaves no rows where there were none, and to drop
the ledger leaves none in any case. -/
theorem rows_of_rehearsed {sql : String} {r after : Rehearsal} {rows : List Row}
    (h : rehearsed.executor.perform (.run sql []) r = (.ok rows, after))
    (hnone : r.rows = [] ∨ sql = rehearsed.ledger.dropSql) :
    after.rows = [] ∧ (r.rows = [] → rows = []) := by
  have hselection :
      Rehearsal.selection.toList.isPrefixOf rehearsed.ledger.dropSql.toList = false := by
    decide
  simp only [rehearsed, Rehearsal.executor, Rehearsal.perform, Rehearsal.run] at h
  split at h
  next => cases h
  next =>
    split at h
    next => cases h
    next =>
      obtain ⟨hrows, rfl⟩ := Prod.mk.inj h
      obtain rfl := Except.ok.inj hrows
      unfold Rehearsal.execute
      rw [if_neg (show ([] : List Value).length ≠ 4 by decide)]
      split
      next hprefix =>
        refine ⟨?_, fun hempty => hempty⟩
        rcases hnone with hempty | rfl
        · exact hempty
        · exact absurd hprefix (by simp [hselection])
      next =>
        split
        next => exact ⟨rfl, fun _ => rfl⟩
        next hother =>
          refine ⟨?_, fun _ => rfl⟩
          rcases hnone with hempty | rfl
          · exact hempty
          · exact absurd rfl hother

/-- In a rehearsal a dropped ledger is empty. -/
theorem rehearsed_empties :
    Empties rehearsed.executor rehearsed.ledger fun rehearsal => rehearsal.rows = [] where
  drop h := (rows_of_rehearsed h (.inr rfl)).1
  create h hempty := (rows_of_rehearsed h (.inl hempty)).1
  select h hempty := (rows_of_rehearsed h (.inl hempty)).2 hempty

end Manager

end SchemaMigration
