import Mathlib.Data.List.Induction
import SchemaMigration.Proofs.Execution.Atomicity
import SchemaMigration.Proofs.Execution.Protocol
import SchemaMigration.Proofs.Execution.Store

/-! # Sessions

In a session the files change in any way, and between the changes the status is asked for and
migrations are applied, with any options. Some requests are carried out and others fail.

With atomic transactions, a ledger that takes a name once and migrations that spare it, the ledger
is coherent at all times: its rows are the migrations that were committed, each under a name of its
own and in a transaction of its statements and its record, and nothing else was committed.
-/

namespace SchemaMigration

open Calendar (Instant)
open Files (Tree)

variable {State Content : Type}

/-- A migration that was applied at an instant. -/
structure Application where
  migration : Migration
  appliedAt : Instant
  deriving DecidableEq, Repr

namespace Application

def name (a : Application) : String :=
  a.migration.name

/-- The row that records an application. -/
def row (a : Application) : List Value :=
  (Record.ofMigration a.migration a.appliedAt).values

/-- The transaction of an application. -/
def requests (l : Ledger) (a : Application) : List Request :=
  l.application a.migration a.appliedAt

/-- A run makes applications at its instant, of the migrations it is given, unless it is dry. -/
def MadeBy (now : Instant) (options : ApplyOptions) (migrations : List Migration)
    (a : Application) : Prop :=
  options.isDryRun = false ∧ a.appliedAt = now ∧ a.migration ∈ migrations

theorem head?_row (a : Application) : a.row.head? = some (.text a.name) :=
  rfl

end Application

/-! ## Coherence -/

/-- The ledger of a database agrees with the migrations that were applied to it, and with the log of
what it was sent, since its content was the original one. -/
structure Coherent (view : DatabaseView State Content) (l : Ledger) (original : Content)
    (applied : List Application) (database : State) (log : List Exchange) : Prop where
  closed : view.working database = none
  names : (applied.map Application.name).Nodup
  rows : view.rows (view.committed database) = ↑(applied.map Application.row)
  transactions : transactions log = { committed := applied.map (Application.requests l) }
  evolves : view.Evolves (applied.flatMap (Application.requests l)) original
    (view.committed database)

namespace Coherent

variable {view : DatabaseView State Content} {executor : Executor State} {l : Ledger}
  {original : Content} {applied : List Application} {database after : State}
  {log exchanges : List Exchange} {m : Migration} {now : Instant}

theorem initial (hclosed : view.working database = none)
    (hempty : view.rows (view.committed database) = 0) :
    Coherent view l (view.committed database) [] database [] where
  closed := hclosed
  names := .nil
  rows := hempty
  transactions := rfl
  evolves := .done _

/-- What is seen of the database stays as it is while nothing is committed. -/
theorem unchanged (h : Coherent view l original applied database log)
    (hclosed : view.working after = none)
    (hsame : view.committed after = view.committed database) {more : List Exchange}
    (hmore : ∀ t : Transactions, t.current = [] → more.foldl Transactions.next t = t) :
    Coherent view l original applied after (log ++ more) where
  closed := hclosed
  names := h.names
  rows := hsame ▸ h.rows
  transactions := by rw [transactions_append, h.transactions, hmore _ rfl]
  evolves := hsame ▸ h.evolves

/-- A transaction that fails leaves the ledger coherent. -/
theorem undone (h : Coherent view l original applied database log) (hatomic : view.Atomic executor)
    {error : ExecutionError}
    (htransact : executor.transact (l.application m now) database = (.error error, after))
    (hlog : Transacts (l.application m now) (.error error) exchanges) :
    Coherent view l original applied after (log ++ exchanges) := by
  have hinside := l.isInside_application m now
  obtain ⟨hclosed, hsame⟩ := hatomic.transact_error hinside htransact h.closed
  refine h.unchanged hclosed hsame fun t ht => ?_
  rw [Transactions.foldl_of_transacts_error hlog hinside, ← ht]

/-- A transaction that is committed adds an application. The ledger did not have its name. -/
theorem committed (h : Coherent view l original applied database log)
    (hatomic : view.Atomic executor) (hkeeps : view.Keeps executor l)
    (hspared : ∀ sql ∈ m.statements, view.Spares sql)
    (htransact : executor.transact (l.application m now) database = (.ok (), after))
    (hlog : Transacts (l.application m now) (.ok ()) exchanges) :
    Coherent view l original (applied ++ [⟨m, now⟩]) after (log ++ exchanges) := by
  have hinside := l.isInside_application m now
  obtain ⟨hclosed, hevolves⟩ := hatomic.transact_ok hinside htransact h.closed
  obtain ⟨hfresh, hrows⟩ := hkeeps.rows_of_application hspared hevolves
  constructor
  case closed => exact hclosed
  case names =>
    -- an earlier application of the name would be a row with it
    have hnew : m.name ∉ applied.map Application.name := by
      intro hmem
      obtain ⟨a, ha, hname⟩ := List.mem_map.mp hmem
      have hrow : a.row ∈ view.rows (view.committed database) := by
        rw [h.rows]
        exact List.mem_map_of_mem ha
      exact hfresh _ hrow (hname ▸ a.head?_row)
    rw [List.map_append]
    refine List.nodup_append.mpr ⟨h.names, List.nodup_singleton _, ?_⟩
    intro name hmem last hlast heq
    rw [heq, List.mem_singleton.mp hlast] at hmem
    exact hnew hmem
  case rows =>
    rw [hrows, h.rows, List.map_append, Multiset.cons_coe]
    exact Multiset.coe_eq_coe.mpr (List.perm_append_singleton _ _).symm
  case transactions =>
    rw [transactions_append, h.transactions, Transactions.foldl_of_transacts_ok hlog hinside,
      List.map_append]
    rfl
  case evolves =>
    rw [List.flatMap_append, List.flatMap_singleton]
    exact h.evolves.append hevolves

end Coherent

/-! ## Operations -/

/-- An operation keeps the ledger coherent, whatever was applied before. It does the same on a
recorded database, and what it applies is allowed. -/
def Preserves {α : Type} (view : DatabaseView State Content) (l : Ledger) (original : Content)
    (allowed : Application → Prop) (operation : State → α × State)
    (recorded : State × List Exchange → α × State × List Exchange) : Prop :=
  ∀ ⦃applied database log⦄, Coherent view l original applied database log →
    ∃ done log', recorded (database, log) =
        ((operation database).1, (operation database).2, log') ∧
      Coherent view l original (applied ++ done) (operation database).2 log' ∧
      ∀ a ∈ done, allowed a

/-- No migration among the files touches the ledger. -/
def DatabaseView.SparesAll (view : DatabaseView State Content) (folder : Folder) (tree : Tree) :
    Prop :=
  ∀ migrations, folder.list tree = .ok migrations →
    ∀ m ∈ migrations, ∀ sql ∈ m.statements, view.Spares sql

/-- An operation, and then another one on its result unless it fails. -/
def followedBy {Database α β : Type} (first : Database → Except MigrationError α × Database)
    (next : α → Database → Except MigrationError β × Database) (database : Database) :
    Except MigrationError β × Database :=
  match first database with
  | (.error error, database) => (.error error, database)
  | (.ok a, database) => next a database

theorem Manager.applyListed_eq (manager : Manager State) (now : Instant) (options : ApplyOptions)
    (migrations : List Migration) :
    manager.applyListed now options migrations =
      followedBy (manager.ledger.records manager.executor)
        (manager.applyPending now options migrations) := by
  funext database
  unfold applyListed followedBy
  rcases manager.ledger.records manager.executor database with ⟨_ | _, _⟩ <;> rfl

theorem Manager.status_eq (manager : Manager State) (listing : Listing) :
    manager.status listing = whenReady (withListing listing fun migrations =>
      followedBy (manager.ledger.records manager.executor) fun records database =>
        (.ok (StatusEntry.all migrations records), database)) := by
  unfold status
  congr
  funext migrations database
  unfold followedBy
  rcases manager.ledger.records manager.executor database with ⟨_ | _, _⟩ <;> rfl

namespace Preserves

variable {view : DatabaseView State Content} {l : Ledger} {original : Content}
  {allowed : Application → Prop}

theorem idle {α : Type} (result : α) :
    Preserves view l original allowed (fun database => (result, database))
      (fun database => (result, database)) :=
  fun _ _ log h => ⟨[], log, rfl, by rwa [List.append_nil], by simp⟩

theorem records {executor : Executor State} (hkeeps : view.Keeps executor l) :
    Preserves view l original allowed (l.records executor) (l.records executor.recorded) := by
  intro applied database log h
  cases hselect : executor.perform (.run l.selectSql []) database with
  | mk answer selected =>
      have hrecorded := executor.recorded_perform hselect log
      obtain ⟨hclosed, hsame⟩ := hkeeps.select hselect h.closed
      refine ⟨[], log ++ [⟨.run l.selectSql [], answer⟩], ?_, ?_, by simp⟩
      · cases answer <;> simp only [Ledger.records, hselect, hrecorded]
      · have hafter : (l.records executor database).2 = selected := by
          cases answer <;> simp only [Ledger.records, hselect]
        rw [List.append_nil, hafter]
        exact h.unchanged hclosed hsame fun _ _ => rfl

theorem map {α β : Type} {operation : State → α × State}
    {recorded : State × List Exchange → α × State × List Exchange}
    (h : Preserves view l original allowed operation recorded) (f : α → β) :
    Preserves view l original allowed
      (fun database => (f (operation database).1, (operation database).2))
      (fun database => (f (recorded database).1, (recorded database).2)) := by
  intro applied database log hcoherent
  obtain ⟨done, log', heq, hafter⟩ := h hcoherent
  refine ⟨done, log', ?_, hafter⟩
  simp only [heq]

theorem mono {α : Type} {operation : State → α × State}
    {recorded : State × List Exchange → α × State × List Exchange}
    (h : Preserves view l original allowed operation recorded) {allowed' : Application → Prop}
    (hallowed : ∀ a, allowed a → allowed' a) :
    Preserves view l original allowed' operation recorded := by
  intro applied database log hcoherent
  obtain ⟨done, log', heq, hafter, hdone⟩ := h hcoherent
  exact ⟨done, log', heq, hafter, fun a ha => hallowed a (hdone a ha)⟩

theorem andThen {α β : Type} {first : State → Except MigrationError α × State}
    {recordedFirst : State × List Exchange → Except MigrationError α × State × List Exchange}
    (hfirst : Preserves view l original (fun _ => False) first recordedFirst)
    {next : α → State → Except MigrationError β × State}
    {recordedNext : α → State × List Exchange → Except MigrationError β × State × List Exchange}
    (hnext : ∀ a, Preserves view l original allowed (next a) (recordedNext a)) :
    Preserves view l original allowed (followedBy first next)
      (followedBy recordedFirst recordedNext) := by
  intro applied database log h
  obtain ⟨done, log', heq, hafter, hdone⟩ := hfirst h
  have hnone : done = [] := List.eq_nil_iff_forall_not_mem.mpr hdone
  rw [hnone, List.append_nil] at hafter
  cases hresult : first database with
  | mk result after =>
      rw [hresult] at heq hafter
      cases result with
      | error error =>
          refine ⟨[], log', ?_, ?_, by simp⟩
          · simp only [followedBy, heq, hresult]
          · simpa only [followedBy, hresult, List.append_nil] using hafter
      | ok a =>
          obtain ⟨done, log'', hrun, hrest⟩ := hnext a hafter
          refine ⟨done, log'', ?_, ?_⟩
          · simp only [followedBy, heq, hresult, hrun]
          · simpa only [followedBy, hresult] using hrest

variable {manager : Manager State}

/-- A run applies migrations in order. Those that are committed before the first failure are added,
and no other. -/
theorem applyAll (hatomic : view.Atomic manager.executor)
    (hkeeps : view.Keeps manager.executor manager.ledger) (now : Instant)
    {migrations : List Migration}
    (hspared : ∀ m ∈ migrations, ∀ sql ∈ m.statements, view.Spares sql) :
    Preserves view manager.ledger original
      (fun a => a.appliedAt = now ∧ a.migration ∈ migrations)
      (manager.applyAll now migrations) (manager.recorded.applyAll now migrations) := by
  intro applied database log h
  induction migrations generalizing applied database log with
  | nil => exact ⟨[], log, rfl, by rwa [List.append_nil], by simp⟩
  | cons m migrations ih =>
      obtain ⟨hm, hrest⟩ := List.forall_mem_cons.mp hspared
      obtain ⟨exchanges, heq, hlog⟩ :=
        manager.executor.recorded_transact (manager.ledger.application m now) database log
      cases htransact : manager.executor.transact (manager.ledger.application m now) database with
      | mk result after =>
          rw [htransact] at heq hlog
          cases result with
          | error error =>
              refine ⟨[], log ++ exchanges, ?_, ?_, by simp⟩
              · simp only [Manager.applyAll, Manager.recorded, heq, htransact]
              · simp only [Manager.applyAll, htransact, List.append_nil]
                exact h.undone hatomic htransact hlog
          | ok _ =>
              obtain ⟨done, log', hrun, hafter, hdone⟩ :=
                ih hrest (h.committed hatomic hkeeps hm htransact hlog)
              simp only [Manager.recorded] at hrun
              refine ⟨⟨m, now⟩ :: done, log', ?_, ?_, ?_⟩
              · simp only [Manager.applyAll, Manager.recorded, heq, htransact, hrun]
              · simp only [Manager.applyAll, htransact]
                rwa [List.append_cons]
              · refine List.forall_mem_cons.mpr ⟨⟨rfl, List.mem_cons_self⟩, fun a ha => ?_⟩
                exact (hdone a ha).imp_right (List.mem_cons_of_mem m)

theorem applyPending (hatomic : view.Atomic manager.executor)
    (hkeeps : view.Keeps manager.executor manager.ledger) (now : Instant) (options : ApplyOptions)
    {migrations : List Migration}
    (hspared : ∀ m ∈ migrations, ∀ sql ∈ m.statements, view.Spares sql) (records : List Record) :
    Preserves view manager.ledger original
      (Application.MadeBy now options migrations)
      (manager.applyPending now options migrations records)
      (manager.recorded.applyPending now options migrations records) := by
  have hpending {m : Migration} (hm : m ∈ Manager.pending migrations records) : m ∈ migrations :=
    List.mem_of_mem_filter hm
  unfold Manager.applyPending
  -- A mismatch and a dry run send nothing more, so the ledger is left as it is.
  cases Manager.checkMismatches records options.isForced migrations with
  | error error => exact idle _
  | ok mismatches =>
      cases hdry : options.isDryRun with
      | true => exact idle _
      | false =>
          have hrun : Preserves view manager.ledger original _
              (manager.applyAll now (Manager.pending migrations records)) _ :=
            applyAll hatomic hkeeps now fun m hm => hspared m (hpending hm)
          have hreport := hrun.map fun outcomes =>
            (.ok ⟨mismatches ++ outcomes, false⟩ : Except MigrationError ApplyReport)
          exact hreport.mono fun a ha => ⟨hdry, ha.1, hpending ha.2⟩

theorem applyListed (hatomic : view.Atomic manager.executor)
    (hkeeps : view.Keeps manager.executor manager.ledger) (now : Instant) (options : ApplyOptions)
    {migrations : List Migration}
    (hspared : ∀ m ∈ migrations, ∀ sql ∈ m.statements, view.Spares sql) :
    Preserves view manager.ledger original
      (Application.MadeBy now options migrations)
      (manager.applyListed now options migrations)
      (manager.recorded.applyListed now options migrations) := by
  rw [Manager.applyListed_eq, Manager.applyListed_eq]
  exact (records hkeeps).andThen (applyPending hatomic hkeeps now options hspared)

theorem withListing {α : Type} {listing : Listing}
    {operation : List Migration → State → Except MigrationError α × State}
    {recorded : List Migration → State × List Exchange →
      Except MigrationError α × State × List Exchange}
    (h : ∀ migrations, listing = .ok migrations →
      Preserves view l original allowed (operation migrations) (recorded migrations)) :
    Preserves view l original allowed (Manager.withListing listing operation)
      (Manager.withListing listing recorded) := by
  cases listing with
  | error error => exact idle _
  | ok migrations => exact h migrations rfl

theorem status (hkeeps : view.Keeps manager.executor manager.ledger) {listing : Listing} :
    Preserves view manager.ledger original (fun _ => False)
      (Manager.withListing listing fun migrations =>
        followedBy (manager.ledger.records manager.executor) fun records database =>
          (.ok (StatusEntry.all migrations records), database))
      (Manager.withListing listing fun migrations =>
        followedBy (manager.ledger.records manager.executor.recorded) fun records database =>
          (.ok (StatusEntry.all migrations records), database)) :=
  withListing fun _ _ => (records hkeeps).andThen fun _ => idle _

theorem apply (hatomic : view.Atomic manager.executor)
    (hkeeps : view.Keeps manager.executor manager.ledger) (now : Instant) (options : ApplyOptions)
    {folder : Folder} {tree : Tree} (hspared : view.SparesAll folder tree) :
    Preserves view manager.ledger original
      (fun a => ∃ migrations, folder.list tree = .ok migrations ∧ a.MadeBy now options migrations)
      (Manager.withListing (folder.list tree) (manager.applyListed now options))
      (Manager.withListing (folder.list tree) (manager.recorded.applyListed now options)) :=
  withListing fun migrations hlist =>
    (applyListed hatomic hkeeps now options (hspared migrations hlist)).mono
      fun _ ha => ⟨migrations, hlist, ha⟩

theorem whenReady {α : Type} {operation : State → Except MigrationError α × State}
    {recorded : State × List Exchange → Except MigrationError α × State × List Exchange}
    (h : Preserves view l original allowed operation recorded) {managed : Managed State}
    {applied : List Application} {log : List Exchange}
    (hcoherent : Coherent view l original applied managed.database log) :
    ∃ done log', (Manager.whenReady recorded ⟨managed.phase, managed.database, log⟩).2 =
        ⟨(Manager.whenReady operation managed).2.phase,
          (Manager.whenReady operation managed).2.database, log'⟩ ∧
      Coherent view l original (applied ++ done) (Manager.whenReady operation managed).2.database
        log' ∧ ∀ a ∈ done, allowed a := by
  obtain ⟨phase, database⟩ := managed
  cases phase with
  | ready =>
      obtain ⟨done, log', heq, hafter⟩ := h hcoherent
      refine ⟨done, log', ?_, hafter⟩
      simp only [Manager.whenReady, heq]
  | uninitialized => exact ⟨[], log, rfl, by rwa [List.append_nil], by simp⟩
  | closed => exact ⟨[], log, rfl, by rwa [List.append_nil], by simp⟩

end Preserves

/-! ## Sessions -/

/-- What happens in a session. An edit puts any files in the place of those that are there. -/
inductive SessionStep
  | edit (tree : Tree)
  | status
  | apply (now : Instant) (options : ApplyOptions)

/-- The files of a session and the state of its manager. -/
structure Session (State : Type) where
  tree : Tree
  managed : Managed State

/-- A session with a log of what was sent to its database. -/
def Session.withLog (s : Session State) (log : List Exchange) : Session (State × List Exchange) :=
  ⟨s.tree, s.managed.phase, s.managed.database, log⟩

namespace Manager

variable (manager : Manager State) (folder : Folder)

/-- A session after one more step. -/
def advance (s : Session State) : SessionStep → Session State
  | .edit tree => { s with tree }
  | .status => { s with managed := (manager.status (folder.list s.tree) s.managed).2 }
  | .apply now options =>
    { s with managed := (manager.apply now options (folder.list s.tree) s.managed).2 }

/-- A session after some steps. -/
def session (steps : List SessionStep) (s : Session State) : Session State :=
  steps.foldl (manager.advance folder) s

/-- The files of a session are those it started with or those of an edit. -/
theorem tree_session (start : Session State) (steps : List SessionStep) :
    (manager.session folder steps start).tree = start.tree ∨
      .edit (manager.session folder steps start).tree ∈ steps := by
  induction steps using List.reverseRecOn with
  | nil => exact .inl rfl
  | append_singleton steps step ih =>
      simp only [session, List.foldl_append, List.foldl_cons, List.foldl_nil] at ih ⊢
      cases step with
      | edit tree => exact .inr (by simp [advance])
      | status => exact ih.imp_right (List.mem_append_left _)
      | apply now options => exact ih.imp_right (List.mem_append_left _)

/-- One of the steps applied a migration, which was among the files at that time. -/
def Applies (start : Session State) (steps : List SessionStep) (a : Application) : Prop :=
  ∃ earlier now options later migrations, steps = earlier ++ .apply now options :: later ∧
    folder.list (manager.session folder earlier start).tree = .ok migrations ∧
    a.MadeBy now options migrations

variable {manager folder} {view : DatabaseView State Content} {original : Content}

theorem Applies.append {start : Session State} {steps : List SessionStep} {a : Application}
    (h : manager.Applies folder start steps a) (more : List SessionStep) :
    manager.Applies folder start (steps ++ more) a := by
  obtain ⟨earlier, now, options, later, migrations, rfl, hrest⟩ := h
  exact ⟨earlier, now, options, later ++ more, migrations, by simp, hrest⟩

/-- A step keeps the ledger coherent, and what is applied in it is among the files. -/
theorem coherent_advance (hatomic : view.Atomic manager.executor)
    (hkeeps : view.Keeps manager.executor manager.ledger) {s : Session State}
    (hspared : view.SparesAll folder s.tree) {applied : List Application} {log : List Exchange}
    (h : Coherent view manager.ledger original applied s.managed.database log)
    (step : SessionStep) :
    ∃ done log', manager.recorded.advance folder (s.withLog log) step =
        (manager.advance folder s step).withLog log' ∧
      Coherent view manager.ledger original (applied ++ done)
        (manager.advance folder s step).managed.database log' ∧
      ∀ a ∈ done, ∃ now options migrations, step = .apply now options ∧
        folder.list s.tree = .ok migrations ∧ a.MadeBy now options migrations := by
  cases step with
  | edit tree => exact ⟨[], log, rfl, by rwa [List.append_nil], by simp⟩
  | status =>
      obtain ⟨done, log', heq, hafter, hdone⟩ := (Preserves.status hkeeps).whenReady h
      refine ⟨done, log', ?_, ?_, fun a ha => (hdone a ha).elim⟩
      · simp only [advance, status_eq, Session.withLog]
        exact congrArg (Session.mk s.tree) heq
      · simp only [advance, status_eq]
        exact hafter
  | apply now options =>
      obtain ⟨done, log', heq, hafter, hdone⟩ :=
        (Preserves.apply hatomic hkeeps now options hspared).whenReady h
      refine ⟨done, log', ?_, hafter, fun a ha => ?_⟩
      · exact congrArg (Session.mk s.tree) heq
      · obtain ⟨migrations, hlist, hmade⟩ := hdone a ha
        exact ⟨now, options, migrations, rfl, hlist, hmade⟩

/-- A manager of a store. -/
def stored : Manager Store :=
  ⟨Store.executor ⟨"ledger"⟩, ⟨"ledger"⟩⟩

/-- A migration, before it is edited. -/
def draft : Tree :=
  ⟨[(["m"], .directory), (["m", "1_a.sql"], .file (.text "CREATE TABLE a (id);"))]⟩

/-- The edited migration, and another one. -/
def revised : Tree :=
  ⟨[(["m"], .directory), (["m", "1_a.sql"], .file (.text "CREATE TABLE a (id, n);")),
    (["m", "2_b.sql"], .file (.text "CREATE TABLE b (id);"))]⟩

/-- A ready manager whose store fails at the first insertion and at the second commit. -/
def refused : Session Store :=
  ⟨draft, .ready, { failures := [false, false, false, true, false] ++ [false] ++
    [false, false, false, false, false, false, false, false, true] }⟩

/-- An attempt, an edit and another attempt. -/
def retrial : List SessionStep :=
  [.apply ⟨0, 0⟩ {}, .edit revised, .status, .apply ⟨1, 0⟩ { isForced := true }]

end Manager

end SchemaMigration
