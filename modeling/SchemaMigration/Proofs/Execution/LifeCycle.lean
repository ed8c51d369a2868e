import Mathlib.Data.List.Induction
import SchemaMigration.Proofs.Execution.DryRun
import SchemaMigration.Proofs.Execution.Session

/-! # The life of a manager

A manager is started, does work and is closed, by operations in any order, while its executor
answers as it likes and the files change in between. Its phase only moves on; work is refused unless
it is ready; and the executor is closed once at most, after which it is sent nothing more.
-/

namespace SchemaMigration

open Calendar (Instant)

variable {State : Type}

/-! ## Operations that keep the database open -/

/-- A request in a transaction is one of those that are carried out in it, or begins or ends it. -/
theorem Transacts.mem_requests {requests : List Request} {result : Except ExecutionError Unit}
    {exchanges : List Exchange} (h : Transacts requests result exchanges) {exchange : Exchange}
    (hmem : exchange ∈ exchanges) :
    exchange.request ∈ requests ∨ exchange.request ∈ [.begin, .commit, .rollback] := by
  cases h with
  | notBegun error => simp [List.mem_singleton.mp hmem]
  | rolledBack rows h answer | notCommitted rows h error | committed rows h last =>
      rcases List.mem_cons.mp hmem with rfl | hmem
      · simp
      rcases List.mem_append.mp hmem with hmem | hmem
      · exact .inl (h.mem_requests hmem)
      · simp [List.mem_singleton.mp hmem]

theorem Ledger.execute_eq (executor : Executor State) (sql : String) :
    execute executor sql = fun database =>
      (((executor.perform (.run sql []) database).1.map fun _ => ()).mapError .execution,
        (executor.perform (.run sql []) database).2) := by
  funext database
  unfold execute
  rcases executor.perform (.run sql []) database with ⟨_ | _, _⟩ <;> rfl

namespace Manager

variable (manager : Manager State)

theorem executeAll_eq (statements : List String) :
    manager.executeAll statements = fun database =>
      ((manager.executor.performAll (statements.map fun sql => .run sql []) database).1.mapError
          .execution,
        (manager.executor.performAll (statements.map fun sql => .run sql []) database).2) := by
  funext database
  unfold executeAll
  rcases manager.executor.performAll (statements.map fun sql => .run sql []) database with
    ⟨_ | _, _⟩ <;> rfl

theorem rebuild_eq (now : Instant) (options : ApplyOptions) (migrations : List Migration) :
    manager.rebuild now options migrations =
      followedBy (manager.executeAll (manager.dropStatements (droppedTables migrations))) fun _ =>
        followedBy (manager.ledger.create manager.executor) fun _ =>
          followedBy (manager.applyListed now options migrations) fun report database =>
            (.ok { manager.dryReset migrations with apply := report }, database) := by
  funext database
  simp only [rebuild, followedBy, dryReset]
  rcases hdrop : manager.executeAll (manager.dropStatements (droppedTables migrations)) database
    with ⟨_ | _, dropped⟩
  · rfl
  rcases hcreate : manager.ledger.create manager.executor dropped with ⟨_ | _, created⟩
  · simp only [hcreate]
  rcases hrun : manager.applyListed now options migrations created with ⟨_ | _, final⟩
  · simp only [hcreate, hrun]
  · simp only [hcreate, hrun]

end Manager

/-- An operation sends no request to close the database. It does the same on a recorded database,
and adds what it sends to the log. -/
def StaysOpen {α : Type} (operation : State → α × State)
    (recorded : State × List Exchange → α × State × List Exchange) : Prop :=
  ∀ database log, ∃ sent,
    recorded (database, log) =
      ((operation database).1, (operation database).2, log ++ sent) ∧
    ∀ e ∈ sent, e.request ≠ .close

namespace StaysOpen

variable {α β : Type} {executor : Executor State}

theorem idle (result : α) :
    StaysOpen (fun database : State => (result, database)) (fun database => (result, database)) :=
  fun _ _ => ⟨[], by rw [List.append_nil], by simp⟩

theorem map {operation : State → α × State}
    {recorded : State × List Exchange → α × State × List Exchange}
    (h : StaysOpen operation recorded) (f : α → β) :
    StaysOpen (fun database => (f (operation database).1, (operation database).2))
      (fun database => (f (recorded database).1, (recorded database).2)) := by
  intro database log
  obtain ⟨sent, heq, hsent⟩ := h database log
  refine ⟨sent, ?_, hsent⟩
  simp only [heq]

theorem andThen {first : State → Except MigrationError α × State}
    {recordedFirst : State × List Exchange → Except MigrationError α × State × List Exchange}
    (hfirst : StaysOpen first recordedFirst)
    {next : α → State → Except MigrationError β × State}
    {recordedNext : α → State × List Exchange → Except MigrationError β × State × List Exchange}
    (hnext : ∀ a, StaysOpen (next a) (recordedNext a)) :
    StaysOpen (followedBy first next) (followedBy recordedFirst recordedNext) := by
  intro database log
  obtain ⟨sent, heq, hsent⟩ := hfirst database log
  cases hresult : first database with
  | mk result after =>
      rw [hresult] at heq
      cases result with
      | error error =>
          refine ⟨sent, ?_, hsent⟩
          simp only [followedBy, heq, hresult]
      | ok a =>
          obtain ⟨more, hrun, hmore⟩ := hnext a after (log ++ sent)
          refine ⟨sent ++ more, ?_, List.forall_mem_append.mpr ⟨hsent, hmore⟩⟩
          simp only [followedBy, heq, hresult, hrun, List.append_assoc]

theorem perform {request : Request} (hrequest : request ≠ .close) :
    StaysOpen (executor.perform request) (executor.recorded.perform request) := by
  intro database log
  refine ⟨[⟨request, (executor.perform request database).1⟩], ?_, by simpa using hrequest⟩
  exact executor.recorded_perform rfl log

theorem performAll {requests : List Request} (hrequests : .close ∉ requests) :
    StaysOpen (executor.performAll requests) (executor.recorded.performAll requests) := by
  intro database log
  obtain ⟨sent, heq, hperforms⟩ := executor.recorded_performAll requests database log
  refine ⟨sent, heq, fun e he hclose => ?_⟩
  exact hrequests (hclose ▸ hperforms.mem_requests he)

theorem execute (sql : String) :
    StaysOpen (Ledger.execute executor sql) (Ledger.execute executor.recorded sql) := by
  have hperform : StaysOpen (executor.perform (.run sql []))
      (executor.recorded.perform (.run sql [])) := perform (by simp)
  rw [Ledger.execute_eq, Ledger.execute_eq]
  exact hperform.map fun answer => (answer.map fun _ => ()).mapError MigrationError.execution

theorem readRecords (l : Ledger) :
    StaysOpen (l.records executor) (l.records executor.recorded) := by
  intro database log
  have hread : l.records executor database =
      ((l.records executor database).1, (l.records executor database).2) := rfl
  obtain ⟨answer, _, heq⟩ := Ledger.recorded_records hread log
  exact ⟨_, heq, by simp⟩

variable {manager : Manager State}

theorem executeAll (statements : List String) :
    StaysOpen (manager.executeAll statements) (manager.recorded.executeAll statements) := by
  have hperform : StaysOpen
      (manager.executor.performAll (statements.map fun sql => .run sql []))
      (manager.recorded.executor.performAll (statements.map fun sql => .run sql [])) :=
    performAll (by simp)
  rw [Manager.executeAll_eq, Manager.executeAll_eq]
  exact hperform.map fun result => result.mapError MigrationError.execution

theorem applyAll (now : Instant) (migrations : List Migration) :
    StaysOpen (manager.applyAll now migrations) (manager.recorded.applyAll now migrations) := by
  intro database log
  obtain ⟨attempts, final, hplain, hrecorded, hprotocol⟩ :=
    manager.recorded_applyAll now migrations database log
  refine ⟨attempts.flatMap Attempt.exchanges, by rw [hrecorded, hplain], ?_⟩
  intro e he hclose
  obtain ⟨a, ha, he⟩ := List.mem_flatMap.mp he
  obtain ⟨result, htransacts⟩ := hprotocol.transacts a ha
  rcases htransacts.mem_requests he with hmem | hmem
  · rw [hclose] at hmem
    simp [Ledger.application, Ledger.insertion] at hmem
  · simp [hclose] at hmem

theorem applyPending (now : Instant) (options : ApplyOptions) (migrations : List Migration)
    (records : List Record) :
    StaysOpen (manager.applyPending now options migrations records)
      (manager.recorded.applyPending now options migrations records) := by
  unfold Manager.applyPending
  cases Manager.checkMismatches records options.isForced migrations with
  | error error => exact idle _
  | ok mismatches =>
      cases options.isDryRun with
      | true => exact idle _
      | false => exact (applyAll now (Manager.pending migrations records)).map fun outcomes =>
          (.ok ⟨mismatches ++ outcomes, false⟩ : Except MigrationError ApplyReport)

theorem applyListed (now : Instant) (options : ApplyOptions) (migrations : List Migration) :
    StaysOpen (manager.applyListed now options migrations)
      (manager.recorded.applyListed now options migrations) := by
  rw [Manager.applyListed_eq, Manager.applyListed_eq]
  exact (readRecords _).andThen (applyPending now options migrations)

theorem rebuild (now : Instant) (options : ApplyOptions) (migrations : List Migration) :
    StaysOpen (manager.rebuild now options migrations)
      (manager.recorded.rebuild now options migrations) := by
  rw [Manager.rebuild_eq, Manager.rebuild_eq]
  refine (executeAll _).andThen fun _ => (execute _).andThen fun _ => ?_
  exact (applyListed now options migrations).andThen fun report => idle _

theorem withListing {listing : Listing}
    {operation : List Migration → State → Except MigrationError α × State}
    {recorded : List Migration → State × List Exchange →
      Except MigrationError α × State × List Exchange}
    (h : ∀ migrations, StaysOpen (operation migrations) (recorded migrations)) :
    StaysOpen (Manager.withListing listing operation) (Manager.withListing listing recorded) := by
  cases listing with
  | error error => exact idle _
  | ok migrations => exact h migrations

end StaysOpen

/-! ## Operations of a manager -/

/-- What a manager is asked to do. The files may be others each time. -/
inductive Operation
  | start
  | apply (now : Instant) (options : ApplyOptions) (listing : Listing)
  | reset (now : Instant) (options : ApplyOptions) (listing : Listing)
  | status (listing : Listing)
  | close

/-- Whether an operation is neither the start nor the end. -/
def Operation.isWork : Operation → Bool
  | .apply .. | .reset .. | .status _ => true
  | .start | .close => false

/-- A manager's state with a log of what was sent to its database. -/
def Managed.withLog (managed : Managed State) (log : List Exchange) :
    Managed (State × List Exchange) :=
  ⟨managed.phase, managed.database, log⟩

/-- Phases only move on. -/
inductive Phase.Moves : Phase → Phase → Prop
  | stays (phase : Phase) : Moves phase phase
  | readies : Moves .uninitialized .ready
  | closes (phase : Phase) : Moves phase .closed

/-- The phase after a start, by what came of it. -/
def Phase.afterStart (phase : Phase) : Except MigrationError Unit → Phase
  | .ok _ => .ready
  | .error _ => phase

namespace Manager

/-- Whether an operation succeeded, without what it gave. -/
def settled {α : Type} (outcome : Except MigrationError α × Managed State) :
    Except MigrationError Unit × Managed State :=
  (outcome.1.map fun _ => (), outcome.2)

variable (manager : Manager State)

/-- Carries out an operation. -/
def operate (operation : Operation) (managed : Managed State) :
    Except MigrationError Unit × Managed State :=
  match operation with
  | .start => manager.start managed
  | .apply now options listing => settled (manager.apply now options listing managed)
  | .reset now options listing => settled (manager.reset now options listing managed)
  | .status listing => settled (manager.status listing managed)
  | .close => manager.close managed

/-! ## What one operation does -/

/-- What an operation does to a manager's state, what comes of it and what it sends. -/
structure Obeys (operation : Operation) (before : Managed State)
    (result : Except MigrationError Unit) (after : Managed State) (sent : List Exchange) :
    Prop where
  moves : before.phase.Moves after.phase
  ready_iff : after.phase = .ready ↔
    before.phase = .ready ∧ operation ≠ .close ∨
      before.phase ≠ .closed ∧ operation = .start ∧
        ∃ created, manager.ledger.create manager.executor before.database = (.ok (), created)
  closed_iff : after.phase = .closed ↔ before.phase = .closed ∨ operation = .close
  notStarted : operation = .start → result ≠ .ok () → after.phase = before.phase
  work : operation.isWork = true → after.phase = before.phase
  refused : operation.isWork = true → before.phase ≠ .ready →
    result = .error (.invalidState .ready before.phase) ∧ after = before ∧ sent = []
  ended : before.phase = .closed →
    (∃ expected, result = .error (.invalidState expected .closed)) ∧ after = before ∧ sent = []
  closes : operation = .close → before.phase ≠ .closed → ∃ answer, sent = [⟨.close, answer⟩]
  staysOpen : operation ≠ .close → ∀ e ∈ sent, e.request ≠ .close

/-- An operation that is out of place is refused, and nothing is done. -/
theorem obeys_of_refused {operation : Operation} {before : Managed State} {expected : Phase}
    (hplace : before.phase = .closed ∨ operation.isWork = true ∧ before.phase ≠ .ready)
    (hexpected : operation.isWork = true → expected = .ready) :
    manager.Obeys operation before (.error (.invalidState expected before.phase)) before [] := by
  have hready : before.phase ≠ .ready := by
    rcases hplace with hclosed | ⟨_, hready⟩
    · simp [hclosed]
    · exact hready
  have hother : before.phase = .closed ∨ operation ≠ .start ∧ operation ≠ .close := by
    refine hplace.imp_right ?_
    rintro ⟨hwork, _⟩
    constructor <;> rintro rfl <;> cases hwork
  constructor
  case moves => exact .stays _
  case ready_iff =>
    refine iff_of_false hready ?_
    rintro (⟨hbefore, _⟩ | ⟨hopen, hstart, _⟩)
    · exact hready hbefore
    · exact hother.elim hopen fun h => h.1 hstart
  case closed_iff =>
    refine ⟨.inl, ?_⟩
    rintro (hclosed | hclose)
    · exact hclosed
    · exact hother.resolve_right fun h => h.2 hclose
  case notStarted => exact fun _ _ => rfl
  case work => exact fun _ => rfl
  case refused =>
    intro hwork _
    rw [hexpected hwork]
    exact ⟨rfl, rfl, rfl⟩
  case ended =>
    intro hclosed
    rw [hclosed]
    exact ⟨⟨_, rfl⟩, rfl, rfl⟩
  case closes => exact fun hclose hopen => (hother.elim hopen fun h => h.2 hclose).elim
  case staysOpen => simp

/-- A ready manager that works stays ready. -/
theorem obeys_of_work {operation : Operation} (hwork : operation.isWork = true)
    {database after : State} (result : Except MigrationError Unit) {sent : List Exchange}
    (hsent : ∀ e ∈ sent, e.request ≠ .close) :
    manager.Obeys operation ⟨.ready, database⟩ result ⟨.ready, after⟩ sent := by
  have hother : operation ≠ .start ∧ operation ≠ .close := by
    constructor <;> rintro rfl <;> cases hwork
  constructor
  case moves => exact .stays _
  case ready_iff => simp [hother.2]
  case closed_iff => simp [hother.2]
  case notStarted => exact fun _ _ => rfl
  case work => exact fun _ => rfl
  case refused => exact fun _ hready => absurd rfl hready
  case ended => exact fun hclosed => by cases hclosed
  case closes => exact fun hclose => absurd hclose hother.2
  case staysOpen => exact fun _ => hsent

section Open

variable {phase : Phase} {database after : State} (hphase : phase ≠ .closed)

include hphase

/-- A start makes a manager ready if it creates the ledger. -/
theorem start_of_open {result : Except MigrationError Unit}
    (hcreate : manager.ledger.create manager.executor database = (result, after)) :
    manager.start ⟨phase, database⟩ =
      (result, ⟨phase.afterStart result, after⟩) := by
  cases phase with
  | closed => exact absurd rfl hphase
  | uninitialized | ready =>
      simp only [start, hcreate]
      cases result <;> rfl

theorem obeys_start {result : Except MigrationError Unit}
    (hcreate : manager.ledger.create manager.executor database = (result, after))
    {sent : List Exchange} (hsent : ∀ e ∈ sent, e.request ≠ .close) :
    manager.Obeys .start ⟨phase, database⟩ result
      ⟨phase.afterStart result, after⟩ sent := by
  constructor
  case moves =>
    cases result with
    | error error => exact .stays _
    | ok _ =>
        cases phase with
        | uninitialized => exact .readies
        | ready => exact .stays _
        | closed => exact absurd rfl hphase
  case ready_iff => cases result <;> simp [Phase.afterStart, hcreate, hphase]
  case closed_iff => cases result <;> simp [Phase.afterStart, hphase]
  case notStarted =>
    intro _ hfailed
    cases result with
    | error error => rfl
    | ok _ => exact absurd rfl hfailed
  case work => exact fun hwork => by cases hwork
  case refused => exact fun hwork => by cases hwork
  case ended => exact fun hclosed => absurd hclosed hphase
  case closes => exact fun hclose => by cases hclose
  case staysOpen => exact fun _ => hsent

/-- A manager is closed even if its database cannot be. -/
theorem close_of_open {answer : Except ExecutionError (List Row)}
    (hclose : manager.executor.perform .close database = (answer, after)) :
    manager.close ⟨phase, database⟩ =
      ((answer.map fun _ => ()).mapError .execution, ⟨.closed, after⟩) := by
  cases phase with
  | closed => exact absurd rfl hphase
  | uninitialized | ready =>
      simp only [close, hclose]
      cases answer <;> rfl

theorem obeys_close (answer : Except ExecutionError (List Row))
    (result : Except MigrationError Unit) :
    manager.Obeys .close ⟨phase, database⟩ result ⟨.closed, after⟩ [⟨.close, answer⟩] := by
  constructor
  case moves => exact .closes _
  case ready_iff => simp
  case closed_iff => simp
  case notStarted => exact fun hstart => by cases hstart
  case work => exact fun hwork => by cases hwork
  case refused => exact fun hwork => by cases hwork
  case ended => exact fun hclosed => absurd hclosed hphase
  case closes => exact fun _ _ => ⟨answer, rfl⟩
  case staysOpen => exact fun hnot => absurd rfl hnot

end Open

/-- An operation obeys the law, and does the same on a recorded database, where it logs what it
sends. -/
def IsLawful (operation : Operation) (before : Managed State) : Prop :=
  ∀ log, ∃ result after sent, manager.operate operation before = (result, after) ∧
    manager.recorded.operate operation (before.withLog log) =
      (result, after.withLog (log ++ sent)) ∧
    manager.Obeys operation before result after sent

theorem isLawful_start (before : Managed State) : manager.IsLawful .start before := by
  intro log
  obtain ⟨phase, database⟩ := before
  by_cases hphase : phase = .closed
  · subst hphase
    refine ⟨_, _, [], rfl, by rw [List.append_nil]; rfl, ?_⟩
    exact manager.obeys_of_refused (.inl rfl) fun hwork => by cases hwork
  · have hopen : StaysOpen (Ledger.execute manager.executor manager.ledger.createSql)
        (Ledger.execute manager.executor.recorded manager.ledger.createSql) := .execute _
    obtain ⟨sent, hlogged, hsent⟩ := hopen database log
    rcases hcreate : manager.ledger.create manager.executor database with ⟨result, after⟩
    have hcreateLogged : manager.recorded.ledger.create manager.recorded.executor (database, log) =
        (result, after, log ++ sent) := by
      rw [Ledger.create] at hcreate ⊢
      rw [hcreate] at hlogged
      exact hlogged
    exact ⟨_, _, sent, manager.start_of_open hphase hcreate,
      manager.recorded.start_of_open hphase hcreateLogged,
      manager.obeys_start hphase hcreate hsent⟩

theorem isLawful_close (before : Managed State) : manager.IsLawful .close before := by
  intro log
  obtain ⟨phase, database⟩ := before
  by_cases hphase : phase = .closed
  · subst hphase
    refine ⟨_, _, [], rfl, by rw [List.append_nil]; rfl, ?_⟩
    exact manager.obeys_of_refused (.inl rfl) fun hwork => by cases hwork
  · cases hclose : manager.executor.perform .close database with
    | mk answer after =>
        exact ⟨_, _, _, manager.close_of_open hphase hclose,
          manager.recorded.close_of_open hphase (manager.executor.recorded_perform hclose log),
          manager.obeys_close hphase answer _⟩

/-- Work that keeps the database open is lawful. -/
theorem isLawful_work {operation : Operation} (hwork : operation.isWork = true) {α : Type}
    {work : State → Except MigrationError α × State}
    {recorded : State × List Exchange → Except MigrationError α × State × List Exchange}
    (hopen : StaysOpen work recorded)
    (hplain : ∀ managed, manager.operate operation managed = settled (whenReady work managed))
    (hrecorded : ∀ managed,
      manager.recorded.operate operation managed = settled (whenReady recorded managed))
    (before : Managed State) : manager.IsLawful operation before := by
  intro log
  rw [hplain, hrecorded]
  obtain ⟨phase, database⟩ := before
  by_cases hphase : phase = .ready
  · subst hphase
    obtain ⟨sent, hlogged, hsent⟩ := hopen database log
    refine ⟨_, ⟨.ready, (work database).2⟩, sent, rfl, ?_, manager.obeys_of_work hwork _ hsent⟩
    simp only [settled, whenReady, Managed.withLog, hlogged]
  · refine ⟨.error (.invalidState .ready phase), ⟨phase, database⟩, [], ?_, ?_,
      manager.obeys_of_refused (.inr ⟨hwork, hphase⟩) fun _ => rfl⟩
    · cases phase with
      | ready => exact absurd rfl hphase
      | uninitialized | closed => rfl
    · rw [List.append_nil]
      cases phase with
      | ready => exact absurd rfl hphase
      | uninitialized | closed => rfl

theorem isLawful (operation : Operation) (before : Managed State) :
    manager.IsLawful operation before := by
  cases operation with
  | start => exact manager.isLawful_start before
  | close => exact manager.isLawful_close before
  | apply now options listing =>
      exact manager.isLawful_work rfl (.withListing (.applyListed now options)) (fun _ => rfl)
        (fun _ => rfl) before
  | reset now options listing =>
      refine manager.isLawful_work rfl (.withListing fun migrations => ?_) (fun _ => rfl)
        (fun _ => rfl) before
      split
      next => exact .idle _
      next => exact .rebuild now options migrations
  | status listing =>
      have hopen : StaysOpen
          (withListing listing fun migrations =>
            followedBy (manager.ledger.records manager.executor) fun records database =>
              (.ok (StatusEntry.all migrations records), database))
          (withListing listing fun migrations =>
            followedBy (manager.ledger.records manager.executor.recorded) fun records database =>
              (.ok (StatusEntry.all migrations records), database)) :=
        .withListing fun migrations =>
          (StaysOpen.readRecords manager.ledger).andThen fun records => .idle _
      refine manager.isLawful_work rfl hopen (fun managed => ?_) (fun managed => ?_) before
      · rw [operate, status_eq]
      · rw [operate, status_eq]
        rfl

/-! ## Runs of operations -/

/-- The state of a new manager after some operations. -/
def stateAfter (operations : List Operation) (database : State) : Managed State :=
  operations.foldl (fun managed operation => (manager.operate operation managed).2)
    ⟨.uninitialized, database⟩

/-- What a new manager has sent after some operations. -/
def logAfter (operations : List Operation) (database : State) : List Exchange :=
  (manager.recorded.stateAfter operations (database, [])).database.2

theorem stateAfter_concat (operations : List Operation) (operation : Operation)
    (database : State) :
    manager.stateAfter (operations ++ [operation]) database =
      (manager.operate operation (manager.stateAfter operations database)).2 :=
  List.foldl_concat ..

/-- A recorded manager is in the state of the manager, beside its log. -/
theorem recorded_stateAfter (operations : List Operation) (database : State) :
    manager.recorded.stateAfter operations (database, []) =
      (manager.stateAfter operations database).withLog (manager.logAfter operations database) := by
  induction operations using List.reverseRecOn with
  | nil => rfl
  | append_singleton operations operation ih =>
      obtain ⟨result, after, sent, hplain, hrecorded, _⟩ :=
        manager.isLawful operation (manager.stateAfter operations database)
          (manager.logAfter operations database)
      rw [← ih] at hrecorded
      rw [logAfter, stateAfter_concat, stateAfter_concat, hplain, hrecorded]
      rfl

/-- Each operation of a run obeys the law. -/
theorem exists_obeys (operations : List Operation) (operation : Operation) (database : State) :
    ∃ result sent,
      manager.operate operation (manager.stateAfter operations database) =
        (result, manager.stateAfter (operations ++ [operation]) database) ∧
      manager.logAfter (operations ++ [operation]) database =
        manager.logAfter operations database ++ sent ∧
      manager.Obeys operation (manager.stateAfter operations database) result
        (manager.stateAfter (operations ++ [operation]) database) sent := by
  obtain ⟨result, after, sent, hplain, hrecorded, hobeys⟩ :=
    manager.isLawful operation (manager.stateAfter operations database)
      (manager.logAfter operations database)
  have hafter : manager.stateAfter (operations ++ [operation]) database = after := by
    rw [stateAfter_concat, hplain]
  rw [hafter]
  refine ⟨result, sent, hplain, ?_, hobeys⟩
  rw [← recorded_stateAfter] at hrecorded
  rw [logAfter, stateAfter_concat, hrecorded]
  rfl

variable {manager} {operations : List Operation} {database : State}

/-- A manager is closed once it was asked to be. -/
theorem phase_stateAfter_eq_closed_iff :
    (manager.stateAfter operations database).phase = .closed ↔ .close ∈ operations := by
  induction operations using List.reverseRecOn with
  | nil => simp [stateAfter]
  | append_singleton operations operation ih =>
      obtain ⟨_, _, _, _, hobeys⟩ := manager.exists_obeys operations operation database
      rw [hobeys.closed_iff, ih, List.mem_append, List.mem_singleton, eq_comm (a := operation)]

/-- Until then its database is kept open. -/
theorem request_ne_close_of_notMem (hclose : .close ∉ operations) :
    ∀ e ∈ manager.logAfter operations database, e.request ≠ .close := by
  induction operations using List.reverseRecOn with
  | nil => simp [logAfter, stateAfter]
  | append_singleton operations operation ih =>
      obtain ⟨_, sent, _, hlog, hobeys⟩ := manager.exists_obeys operations operation database
      rw [List.mem_append, List.mem_singleton, not_or] at hclose
      rw [hlog]
      exact List.forall_mem_append.mpr ⟨ih hclose.1, hobeys.staysOpen (Ne.symm hclose.2)⟩

/-- After that nothing is sent. -/
theorem logAfter_append_of_mem (hclose : .close ∈ operations) (more : List Operation) :
    manager.logAfter (operations ++ more) database = manager.logAfter operations database := by
  induction more using List.reverseRecOn with
  | nil => rw [List.append_nil]
  | append_singleton more operation ih =>
      obtain ⟨_, _, _, hlog, hobeys⟩ :=
        manager.exists_obeys (operations ++ more) operation database
      have hclosed : (manager.stateAfter (operations ++ more) database).phase = .closed :=
        phase_stateAfter_eq_closed_iff.mpr (List.mem_append_left _ hclose)
      obtain ⟨_, _, hsent⟩ := hobeys.ended hclosed
      rw [← List.append_assoc, hlog, hsent, List.append_nil, ih]

/-- What becomes of a new manager in a run of operations, whatever its executor answers. Every
operation obeys the law. A manager that is not asked to close has not closed its database. At the
first time that it is asked it does so, and is closed for good: nothing is sent behind that. The
recorded manager, whose log tells all this, is in the same state all along. -/
theorem lifeCycle (manager : Manager State) (database : State) (operations : List Operation) :
    manager.recorded.stateAfter operations (database, []) =
        (manager.stateAfter operations database).withLog (manager.logAfter operations database) ∧
    (∀ earlier operation later, operations = earlier ++ operation :: later →
      ∃ result sent,
        manager.operate operation (manager.stateAfter earlier database) =
          (result, manager.stateAfter (earlier ++ [operation]) database) ∧
        manager.logAfter (earlier ++ [operation]) database =
          manager.logAfter earlier database ++ sent ∧
        manager.Obeys operation (manager.stateAfter earlier database) result
          (manager.stateAfter (earlier ++ [operation]) database) sent) ∧
    (.close ∉ operations → (manager.stateAfter operations database).phase ≠ .closed ∧
      ∀ e ∈ manager.logAfter operations database, e.request ≠ .close) ∧
    ∀ earlier later, operations = earlier ++ .close :: later → .close ∉ earlier →
      (manager.stateAfter operations database).phase = .closed ∧
      (∀ e ∈ manager.logAfter earlier database, e.request ≠ .close) ∧
      ∃ answer, manager.logAfter operations database =
        manager.logAfter earlier database ++ [⟨.close, answer⟩] := by
  refine ⟨manager.recorded_stateAfter operations database, ?_, ?_, ?_⟩
  · intro earlier operation later _
    exact manager.exists_obeys earlier operation database
  · intro hclose
    exact ⟨mt phase_stateAfter_eq_closed_iff.mp hclose, request_ne_close_of_notMem hclose⟩
  · intro earlier later heq hfirst
    obtain ⟨_, sent, _, hlog, hobeys⟩ := manager.exists_obeys earlier .close database
    obtain ⟨answer, hsent⟩ := hobeys.closes rfl (mt phase_stateAfter_eq_closed_iff.mp hfirst)
    have hclose : Operation.close ∈ earlier ++ [.close] := by simp
    refine ⟨phase_stateAfter_eq_closed_iff.mpr (heq ▸ by simp),
      request_ne_close_of_notMem hfirst, answer, ?_⟩
    rw [heq, List.append_cons, logAfter_append_of_mem hclose, hlog, hsent]

/-- A manager of a database that carries out requests or not as it was told for each. -/
def moody : Manager (List Bool) :=
  ⟨⟨fun _ answers => (if answers.headD true then .ok [] else .error .closed, answers.tail)⟩,
    ⟨"ledger"⟩⟩

/-- Two of three starts fail, one before and one behind the other, and so does the first of two
attempts to close. -/
example :
    let operations : List Operation := [.start, .status (.ok []), .start, .start, .status (.ok []),
      .close, .close, .start]
    let answers := [false, true, false, true, false]
    operations.inits.map (fun run => (moody.stateAfter run answers).phase) =
        [.uninitialized, .uninitialized, .uninitialized, .ready, .ready, .ready, .closed, .closed,
          .closed] ∧
      (moody.logAfter operations answers).map Exchange.request =
        [.run moody.ledger.createSql [], .run moody.ledger.createSql [],
          .run moody.ledger.createSql [], .run moody.ledger.selectSql [], .close] := by
  decide +kernel

end Manager

end SchemaMigration
