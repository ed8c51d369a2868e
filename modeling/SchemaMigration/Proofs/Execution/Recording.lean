import SchemaMigration.Execution.Manager

/-! # Recorded executors

A recorded executor does what the executor does and notes what passes between it and its user. A
user cannot tell the two apart, so what the log shows of any run is what the executor was sent.

Requests in a transaction follow one of four courses. The transaction may not begin, one of the
requests may fail, the commit may fail, or it is committed. It is rolled back in the second case and
in no other.
-/

namespace SchemaMigration

variable {State : Type}

/-- A request and the answer to it. -/
structure Exchange where
  request : Request
  answer : Except ExecutionError (List Row)

/-- The error that a result is. -/
def errorOf? {α : Type} : Except ExecutionError α → Option ExecutionError
  | .ok _ => none
  | .error error => some error

/-- The error of the first request that failed. -/
def firstError? (exchanges : List Exchange) : Option ExecutionError :=
  exchanges.findSome? fun exchange => errorOf? exchange.answer

/-- The exchanges of requests in order, up to the first that fails. -/
inductive Performs : List Request → Except ExecutionError Unit → List Exchange → Prop
  | done : Performs [] (.ok ()) []
  | next {requests : List Request} {result : Except ExecutionError Unit}
      {exchanges : List Exchange} (request : Request) (rows : List Row)
      (h : Performs requests result exchanges) :
      Performs (request :: requests) result (⟨request, .ok rows⟩ :: exchanges)
  | fails (request : Request) (requests : List Request) (error : ExecutionError) :
      Performs (request :: requests) (.error error) [⟨request, .error error⟩]

/-- The exchanges of requests in a transaction. -/
inductive Transacts (requests : List Request) :
    Except ExecutionError Unit → List Exchange → Prop
  | notBegun (error : ExecutionError) :
      Transacts requests (.error error) [⟨.begin, .error error⟩]
  | rolledBack {error : ExecutionError} {exchanges : List Exchange} (rows : List Row)
      (h : Performs requests (.error error) exchanges)
      (answer : Except ExecutionError (List Row)) :
      Transacts requests (.error error) (⟨.begin, .ok rows⟩ :: exchanges ++ [⟨.rollback, answer⟩])
  | notCommitted {exchanges : List Exchange} (rows : List Row)
      (h : Performs requests (.ok ()) exchanges) (error : ExecutionError) :
      Transacts requests (.error error)
        (⟨.begin, .ok rows⟩ :: exchanges ++ [⟨.commit, .error error⟩])
  | committed {exchanges : List Exchange} (rows : List Row)
      (h : Performs requests (.ok ()) exchanges) (last : List Row) :
      Transacts requests (.ok ()) (⟨.begin, .ok rows⟩ :: exchanges ++ [⟨.commit, .ok last⟩])

namespace Executor

variable (executor : Executor State)

/-- An executor with a log of its exchanges. -/
def recorded : Executor (State × List Exchange) where
  perform request
    | (state, log) =>
      match executor.perform request state with
      | (answer, state) => (answer, state, log ++ [⟨request, answer⟩])

theorem recorded_perform {request : Request} {state after : State}
    {answer : Except ExecutionError (List Row)}
    (h : executor.perform request state = (answer, after)) (log : List Exchange) :
    executor.recorded.perform request (state, log) =
      (answer, after, log ++ [⟨request, answer⟩]) := by
  simp only [recorded, h]

/-- A recorded executor carries out requests as the executor does, and notes them up to the first
that fails. -/
theorem recorded_performAll (requests : List Request) (state : State) (log : List Exchange) :
    ∃ exchanges, executor.recorded.performAll requests (state, log) =
        ((executor.performAll requests state).1, (executor.performAll requests state).2,
          log ++ exchanges) ∧
      Performs requests (executor.performAll requests state).1 exchanges := by
  induction requests generalizing state log with
  | nil => exact ⟨[], by simp [performAll], .done⟩
  | cons request requests ih =>
      cases hperform : executor.perform request state with
      | mk answer after =>
          have hrecorded := executor.recorded_perform hperform log
          cases answer with
          | error error =>
              simp only [performAll, hperform, hrecorded]
              exact ⟨_, rfl, .fails request requests error⟩
          | ok rows =>
              obtain ⟨exchanges, heq, hperforms⟩ := ih after (log ++ [⟨request, .ok rows⟩])
              simp only [performAll, hperform, hrecorded, heq, List.append_assoc]
              exact ⟨_, rfl, .next request rows hperforms⟩

/-- So it does with a transaction. -/
theorem recorded_transact (requests : List Request) (state : State) (log : List Exchange) :
    ∃ exchanges, executor.recorded.transact requests (state, log) =
        ((executor.transact requests state).1, (executor.transact requests state).2,
          log ++ exchanges) ∧
      Transacts requests (executor.transact requests state).1 exchanges := by
  -- Each way through the transaction is one of the four courses.
  cases hbegin : executor.perform .begin state with
  | mk answer begun =>
      have hrecorded := executor.recorded_perform hbegin log
      cases answer with
      | error error =>
          simp only [transact, hbegin, hrecorded]
          exact ⟨_, rfl, .notBegun error⟩
      | ok rows =>
          obtain ⟨exchanges, heq, hperforms⟩ :=
            executor.recorded_performAll requests begun (log ++ [⟨.begin, .ok rows⟩])
          cases hrun : executor.performAll requests begun with
          | mk result run =>
              rw [hrun] at heq hperforms
              cases result with
              | error error =>
                  cases hrollback : executor.perform .rollback run with
                  | mk answer after =>
                      have hlast := executor.recorded_perform hrollback
                        (log ++ [⟨.begin, .ok rows⟩] ++ exchanges)
                      simp only [transact, hbegin, hrecorded, hrun, heq, hrollback, hlast]
                      simp only [List.append_assoc]
                      exact ⟨_, rfl, .rolledBack rows hperforms answer⟩
              | ok _ =>
                  cases hcommit : executor.perform .commit run with
                  | mk answer after =>
                      have hlast := executor.recorded_perform hcommit
                        (log ++ [⟨.begin, .ok rows⟩] ++ exchanges)
                      simp only [transact, hbegin, hrecorded, hrun, heq, hcommit, hlast]
                      simp only [List.append_assoc]
                      cases answer with
                      | error error => exact ⟨_, rfl, .notCommitted rows hperforms error⟩
                      | ok last => exact ⟨_, rfl, .committed rows hperforms last⟩

end Executor

/-! ## What the log of a transaction shows -/

variable {requests : List Request} {result : Except ExecutionError Unit}
  {exchanges : List Exchange}

theorem firstError?_append (first second : List Exchange) :
    firstError? (first ++ second) = (firstError? first).or (firstError? second) :=
  List.findSome?_append

theorem firstError?_begun (rows : List Row) (exchanges : List Exchange) :
    firstError? (⟨.begin, .ok rows⟩ :: exchanges) = firstError? exchanges :=
  rfl

theorem Performs.firstError?_eq (h : Performs requests result exchanges) :
    firstError? exchanges = errorOf? result := by
  induction h with
  | done => rfl
  | next request rows h ih => exact ih
  | fails request requests error => rfl

theorem Performs.mem_requests (h : Performs requests result exchanges) {exchange : Exchange}
    (hmem : exchange ∈ exchanges) : exchange.request ∈ requests := by
  induction h with
  | done => simp at hmem
  | next request rows h ih =>
      rcases List.mem_cons.mp hmem with rfl | hmem
      · exact List.mem_cons_self
      · exact List.mem_cons_of_mem _ (ih hmem)
  | fails request requests error =>
      rw [List.mem_singleton.mp hmem]
      exact List.mem_cons_self

/-- The result of a transaction is the first failure, even if the rollback after it fails. -/
theorem Transacts.firstError?_eq (h : Transacts requests result exchanges) :
    firstError? exchanges = errorOf? result := by
  cases h with
  | notBegun error => rfl
  | rolledBack rows h answer =>
      rw [firstError?_append, firstError?_begun, h.firstError?_eq]
      rfl
  | notCommitted rows h error =>
      rw [firstError?_append, firstError?_begun, h.firstError?_eq]
      rfl
  | committed rows h last =>
      rw [firstError?_append, firstError?_begun, h.firstError?_eq]
      rfl

/-- Some request to commit was carried out. -/
def HasCommitted (exchanges : List Exchange) : Prop :=
  ∃ rows, ⟨.commit, .ok rows⟩ ∈ exchanges

/-- A transaction succeeds exactly when its commit is carried out. -/
theorem Transacts.hasCommitted_iff (h : Transacts requests result exchanges)
    (hrequests : .commit ∉ requests) : HasCommitted exchanges ↔ result = .ok () := by
  have hperforms {result' : Except ExecutionError Unit} {exchanges' : List Exchange}
      (h : Performs requests result' exchanges') (rows : List Row) :
      ⟨.commit, .ok rows⟩ ∉ exchanges' := fun hmem => hrequests (h.mem_requests hmem)
  unfold HasCommitted
  cases h with
  | notBegun error => simp
  | rolledBack rows h answer => simp [hperforms h]
  | notCommitted rows h error => simp [hperforms h]
  | committed rows h last => simp

end SchemaMigration
