import SchemaMigration.Execution.Rehearsal
import SchemaMigration.Proofs.Execution.Recording
import SchemaMigration.Proofs.Migration.Order

/-! # The protocol of a run

A run sends one transaction for each pending migration, in order, and stops after the first that is
not committed. What it reports of a migration is what became of its transaction.
-/

namespace SchemaMigration

open Calendar (Instant)
open Files (Tree)

variable {State : Type}

/-- An attempt to apply a migration: what passed between the manager and its database. -/
structure Attempt where
  migration : Migration
  exchanges : List Exchange

/-- What is reported of an attempt: the first failure if there was one. -/
def Attempt.outcome (a : Attempt) : Outcome :=
  match firstError? a.exchanges with
  | none => .applied a.migration
  | some error => .failed a.migration error

/-- The attempts of a run at pending migrations. They are made in order; each is one transaction of
the statements and the record of its migration; all but the last are committed, and if all are, no
migration is left. What is reported of each follows its transaction. -/
structure Protocol (l : Ledger) (now : Instant) (pending : List Migration)
    (attempts : List Attempt) : Prop where
  leading : attempts.map Attempt.migration <+: pending
  transacts : ∀ a ∈ attempts, ∃ result,
    Transacts (l.application a.migration now) result a.exchanges
  committed : ∀ a ∈ attempts.dropLast, HasCommitted a.exchanges
  complete : (∀ a ∈ attempts, HasCommitted a.exchanges) →
    attempts.map Attempt.migration = pending
  applied_iff : ∀ a ∈ attempts, a.outcome.status = .applied ↔ HasCommitted a.exchanges
  failed_iff : ∀ a ∈ attempts, a.outcome.status = .failed ↔ ¬ HasCommitted a.exchanges
  error : ∀ a ∈ attempts,
    a.outcome.error = (firstError? a.exchanges).map ExecutionError.message

theorem Ledger.commit_notMem_application (l : Ledger) (m : Migration) (now : Instant) :
    .commit ∉ l.application m now := by
  simp [application, insertion]

namespace Attempt

variable {a : Attempt} {requests : List Request} {result : Except ExecutionError Unit}

theorem outcome_of_transacts (h : Transacts requests result a.exchanges) :
    a.outcome = match result with
      | .ok _ => .applied a.migration
      | .error error => .failed a.migration error := by
  rw [outcome, h.firstError?_eq]
  cases result <;> rfl

theorem error_outcome (a : Attempt) :
    a.outcome.error = (firstError? a.exchanges).map ExecutionError.message := by
  unfold outcome
  cases firstError? a.exchanges <;> rfl

/-- An attempt is reported as applied when its commit is carried out, and as failed otherwise. -/
theorem status_outcome (h : Transacts requests result a.exchanges)
    (hrequests : .commit ∉ requests) :
    (a.outcome.status = .applied ↔ HasCommitted a.exchanges) ∧
      (a.outcome.status = .failed ↔ ¬ HasCommitted a.exchanges) := by
  rw [h.hasCommitted_iff hrequests, outcome_of_transacts h]
  cases result <;> simp [Outcome.applied, Outcome.failed]

end Attempt

namespace Protocol

variable {l : Ledger} {now : Instant} {m : Migration} {pending : List Migration}
  {attempts : List Attempt} {exchanges : List Exchange}

theorem nil : Protocol l now [] [] := by
  constructor <;> simp

/-- A run that is halted by a migration has attempted nothing behind it. -/
theorem halted {error : ExecutionError}
    (h : Transacts (l.application m now) (.error error) exchanges) :
    Protocol l now (m :: pending) [⟨m, exchanges⟩] := by
  have hcommit := l.commit_notMem_application m now
  have hnot : ¬ HasCommitted exchanges := by simp [h.hasCommitted_iff hcommit]
  have hstatus := Attempt.status_outcome (a := ⟨m, exchanges⟩) h hcommit
  constructor
  · simp
  · rintro a ha
    rw [List.mem_singleton.mp ha]
    exact ⟨_, h⟩
  · simp
  · exact fun hall => absurd (hall _ List.mem_cons_self) hnot
  · intro a ha
    rw [List.mem_singleton.mp ha]
    exact hstatus.1
  · intro a ha
    rw [List.mem_singleton.mp ha]
    exact hstatus.2
  · exact fun a _ => a.error_outcome

/-- A run goes on behind a migration that is committed. -/
theorem cons (h : Transacts (l.application m now) (.ok ()) exchanges)
    (hrest : Protocol l now pending attempts) :
    Protocol l now (m :: pending) (⟨m, exchanges⟩ :: attempts) := by
  have hcommit := l.commit_notMem_application m now
  have hcommitted : HasCommitted exchanges := (h.hasCommitted_iff hcommit).mpr rfl
  have hstatus := Attempt.status_outcome (a := ⟨m, exchanges⟩) h hcommit
  constructor
  · exact List.cons_prefix_cons.mpr ⟨rfl, hrest.leading⟩
  · exact List.forall_mem_cons.mpr ⟨⟨_, h⟩, hrest.transacts⟩
  · cases attempts with
    -- The attempt in front is not the last one if there are others.
    | nil => simp
    | cons a attempts =>
        rw [List.dropLast_cons_cons]
        exact List.forall_mem_cons.mpr ⟨hcommitted, hrest.committed⟩
  · intro hall
    rw [List.map_cons, hrest.complete fun a ha => hall a (List.mem_cons_of_mem _ ha)]
  · exact List.forall_mem_cons.mpr ⟨hstatus.1, hrest.applied_iff⟩
  · exact List.forall_mem_cons.mpr ⟨hstatus.2, hrest.failed_iff⟩
  · exact fun a _ => a.error_outcome

end Protocol

namespace Manager

variable (manager : Manager State)

/-- A manager whose executor is recorded. -/
def recorded : Manager (State × List Exchange) :=
  ⟨manager.executor.recorded, manager.ledger⟩

/-- What a recorded run at migrations sends and reports follows the protocol, and it reports what
the manager reports without the record. -/
theorem recorded_applyAll (now : Instant) (migrations : List Migration) (state : State)
    (log : List Exchange) :
    ∃ attempts final,
      manager.applyAll now migrations state = (attempts.map Attempt.outcome, final) ∧
      manager.recorded.applyAll now migrations (state, log) =
        (attempts.map Attempt.outcome, final, log ++ attempts.flatMap Attempt.exchanges) ∧
      Protocol manager.ledger now migrations attempts := by
  induction migrations generalizing state log with
  | nil => exact ⟨[], state, rfl, by simp [applyAll], .nil⟩
  | cons m migrations ih =>
      obtain ⟨exchanges, heq, htransacts⟩ :=
        manager.executor.recorded_transact (manager.ledger.application m now) state log
      cases htransact : manager.executor.transact (manager.ledger.application m now) state with
      | mk result after =>
          rw [htransact] at heq htransacts
          have houtcome := Attempt.outcome_of_transacts (a := ⟨m, exchanges⟩) htransacts
          cases result with
          | error error =>
              -- The run is halted, and nothing is sent for the migrations behind.
              refine ⟨[⟨m, exchanges⟩], after, ?_, ?_, .halted htransacts⟩
              · simp only [applyAll, htransact, List.map_cons, List.map_nil, houtcome]
              · simp only [applyAll, recorded, heq, List.map_cons, List.map_nil, houtcome,
                  List.flatMap_cons, List.flatMap_nil, List.append_nil]
          | ok _ =>
              obtain ⟨attempts, final, hrest, hrecorded, hprotocol⟩ := ih after (log ++ exchanges)
              refine ⟨⟨m, exchanges⟩ :: attempts, final, ?_, ?_, .cons htransacts hprotocol⟩
              · simp only [applyAll, htransact, hrest, List.map_cons, houtcome]
              · simp only [recorded] at hrecorded
                simp only [applyAll, recorded, heq, hrecorded, List.map_cons, houtcome,
                  List.flatMap_cons, List.append_assoc]

/-- A run that looks up the records and passes the check of the checksums reports the mismatches and
then its attempts at the pending migrations. -/
theorem recorded_applyListed {now : Instant} {options : ApplyOptions}
    (hdry : options.isDryRun = false) {migrations : List Migration} {database selected : State}
    {rows : List Row} {records : List Record} {mismatches : List Outcome}
    (hselect : manager.executor.perform (.run manager.ledger.selectSql []) database =
      (.ok rows, selected))
    (hrecords : rows.mapM Record.ofRow = .ok records)
    (hpass : checkMismatches records options.isForced migrations = .ok mismatches)
    (log : List Exchange) :
    ∃ attempts final,
      manager.applyListed now options migrations database =
        (.ok ⟨mismatches ++ attempts.map Attempt.outcome, false⟩, final) ∧
      manager.recorded.applyListed now options migrations (database, log) =
        (.ok ⟨mismatches ++ attempts.map Attempt.outcome, false⟩, final,
          log ++ ⟨.run manager.ledger.selectSql [], .ok rows⟩
            :: attempts.flatMap Attempt.exchanges) ∧
      Protocol manager.ledger now (pending migrations records) attempts := by
  have hlogged := manager.executor.recorded_perform hselect log
  obtain ⟨attempts, final, hplain, hrecorded, hprotocol⟩ := manager.recorded_applyAll now
    (pending migrations records) selected
    (log ++ [⟨.run manager.ledger.selectSql [], .ok rows⟩])
  refine ⟨attempts, final, ?_, ?_, hprotocol⟩
  · simp [applyListed, Ledger.records, hselect, hrecords, applyPending, hpass, hdry, hplain]
  · simp only [recorded] at hrecorded
    simp [applyListed, recorded, Ledger.records, hlogged, hrecords, applyPending, hpass, hdry,
      hrecorded]

/-- A folder of two migrations. -/
def twoMigrations : Tree :=
  ⟨[(["m"], .directory), (["m", "1_a.sql"], .file (.text "CREATE TABLE a (id);")),
    (["m", "2_b.sql"], .file (.text "CREATE TABLE b (id);"))]⟩

/-- A manager of rehearsals. -/
def rehearsed : Manager Rehearsal :=
  ⟨Rehearsal.executor ⟨"ledger"⟩, ⟨"ledger"⟩⟩

/-- A database that fails to create one table and to roll back. -/
def failing : Rehearsal :=
  { failures := ["TABLE b", "<ROLLBACK>"] }

end Manager

end SchemaMigration
