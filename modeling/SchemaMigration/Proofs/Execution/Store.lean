import SchemaMigration.Proofs.Execution.Atomicity

/-! # A store with atomic transactions

The least that a database must do for its ledger to be trusted. A transaction works on a copy of the
content, and its commit puts the copy in place. The ledger refuses a name it has, and any other
statement is only noted. Any request may be told to fail.
-/

namespace SchemaMigration

/-- The content of a store: the statements that were run, and the rows of its ledger. -/
structure Books where
  statements : List String := []
  rows : List (List Value) := []
  deriving DecidableEq, Repr

/-- The content after a statement, unless it inserts a row under a name that is taken. -/
def Books.run? (l : Ledger) (sql : String) (parameters : List Value) (b : Books) : Option Books :=
  if sql = l.insertSql then
    if b.rows.any fun row => row.head? == parameters.head? then none
    else some { b with rows := b.rows ++ [parameters] }
  else some { b with statements := b.statements ++ [sql] }

/-- The state of a store. The failures tell of the next requests, in order, whether they fail. -/
structure Store where
  committed : Books := {}
  working : Option Books := none
  failures : List Bool := []
  deriving DecidableEq, Repr

namespace Store

/-- The answer to a request that is carried out, with the state after it, or to one that fails. -/
def answer (s : Store) (done failed : Store) (rows : List Row) :
    Except ExecutionError (List Row) × Store :=
  if s.failures.headD false then (.error (.transaction "refused"), failed) else (.ok rows, done)

/-- The answer to a request. One that does not belong where it is made is not carried out. -/
def perform (l : Ledger) (request : Request) (s : Store) :
    Except ExecutionError (List Row) × Store :=
  let s' := { s with failures := s.failures.tail }
  match request, s.working with
  | .run sql _, _ =>
    if sql = l.selectSql then s.answer s' s' (s.committed.rows.map (Row.mk Ledger.columns))
    else (.error (.statement sql "refused"), s')
  | .begin, none => s.answer { s' with working := some s.committed } s' []
  | .runInside sql parameters, some books =>
    match books.run? l sql parameters with
    | some books => s.answer { s' with working := some books } s' []
    | none => (.error (.statement sql "taken"), s')
  | .commit, some books =>
    s.answer { s' with committed := books, working := none } { s' with working := none } []
  | .rollback, some _ => s.answer { s' with working := none } { s' with working := none } []
  | _, _ => (.error .closed, s')

/-- The executor of a store with a ledger. -/
def executor (l : Ledger) : Executor Store :=
  ⟨perform l⟩

/-- What counts of a store. -/
def view (l : Ledger) : DatabaseView Store Books where
  committed := Store.committed
  working := Store.working
  rows books := books.rows
  effect request books books' :=
    ∃ sql parameters, request = .runInside sql parameters ∧
      books.run? l sql parameters = some books'

/-- The answer to a request tells which of two states is the one after it. -/
theorem answer_eq_iff {s done failed after : Store} {rows : List Row}
    {answer : Except ExecutionError (List Row)} :
    s.answer done failed rows = (answer, after) ↔
      s.failures.headD false = true ∧ answer = .error (.transaction "refused") ∧ after = failed ∨
        s.failures.headD false = false ∧ answer = .ok rows ∧ after = done := by
  unfold Store.answer
  cases s.failures.headD false <;> simp [eq_comm]

/-- The transactions of a store are atomic. -/
theorem atomic (l : Ledger) : (view l).Atomic (executor l) := by
  constructor
  case begin_ok =>
    rintro ⟨committed, working, failures⟩ s' rows h (rfl : working = none)
    simp only [executor, perform, answer_eq_iff] at h
    obtain ⟨_, hnot, _⟩ | ⟨_, _, rfl⟩ := h
    · cases hnot
    · exact ⟨rfl, rfl⟩
  case begin_error =>
    rintro ⟨committed, working, failures⟩ s' error h (rfl : working = none)
    simp only [executor, perform, answer_eq_iff] at h
    obtain ⟨_, _, rfl⟩ | ⟨_, hnot, _⟩ := h
    · exact ⟨rfl, rfl⟩
    · cases hnot
  case inside_ok =>
    rintro sql parameters ⟨committed, working, failures⟩ s' rows c h (rfl : working = some c)
    simp only [executor, perform] at h
    split at h
    next c' hrun =>
      obtain ⟨_, hnot, _⟩ | ⟨_, _, rfl⟩ := answer_eq_iff.mp h
      · cases hnot
      · exact ⟨rfl, c', rfl, sql, parameters, rfl, hrun⟩
    next => cases h
  case inside_error =>
    rintro sql parameters ⟨committed, working, failures⟩ s' error c h (rfl : working = some c)
    simp only [executor, perform] at h
    split at h
    next c' hrun =>
      obtain ⟨_, _, rfl⟩ | ⟨_, hnot, _⟩ := answer_eq_iff.mp h
      · exact ⟨rfl, c, rfl⟩
      · cases hnot
    next =>
      cases h
      exact ⟨rfl, c, rfl⟩
  case commit_ok =>
    rintro ⟨committed, working, failures⟩ s' rows c h (rfl : working = some c)
    simp only [executor, perform, answer_eq_iff] at h
    obtain ⟨_, hnot, _⟩ | ⟨_, _, rfl⟩ := h
    · cases hnot
    · exact ⟨rfl, rfl⟩
  case commit_error =>
    rintro ⟨committed, working, failures⟩ s' error c h (rfl : working = some c)
    simp only [executor, perform, answer_eq_iff] at h
    obtain ⟨_, _, rfl⟩ | ⟨_, hnot, _⟩ := h
    · exact ⟨rfl, rfl⟩
    · cases hnot
  case rollback =>
    rintro ⟨committed, working, failures⟩ s' answer c h (rfl : working = some c)
    simp only [executor, perform, answer_eq_iff] at h
    obtain ⟨_, _, rfl⟩ | ⟨_, _, rfl⟩ := h <;> exact ⟨rfl, rfl⟩

theorem effect_insertion {l : Ledger} {record : Record} {c c' : Books}
    (h : (view l).effect (l.insertion record) c c') :
    (∀ row ∈ c.rows, row.head? ≠ some (.text record.name)) ∧
      c' = { c with rows := c.rows ++ [record.values] } := by
  obtain ⟨sql, parameters, hrequest, hrun⟩ := h
  obtain ⟨rfl, rfl⟩ : l.insertSql = sql ∧ record.values = parameters := by
    simpa only [Ledger.insertion, Request.runInside.injEq] using hrequest
  simp only [Books.run?, if_true] at hrun
  split at hrun
  next => cases hrun
  next hfree =>
    refine ⟨fun row hrow hname => hfree ?_, (Option.some.inj hrun).symm⟩
    exact List.any_eq_true.mpr ⟨row, hrow, by simp [hname, Record.values]⟩

/-- A store keeps the ledger and takes each name once. -/
theorem keeps (l : Ledger) : (view l).Keeps (executor l) l where
  select := by
    rintro ⟨committed, working, failures⟩ s' answer h (rfl : working = none)
    simp only [executor, perform, if_true, answer_eq_iff] at h
    obtain ⟨_, _, rfl⟩ | ⟨_, _, rfl⟩ := h <;> exact ⟨rfl, rfl⟩
  unique h row hrow := (effect_insertion h).1 row hrow
  inserted h := by
    rw [(effect_insertion h).2]
    exact Multiset.coe_eq_coe.mpr (List.perm_append_singleton _ _)

/-- No statement but an insertion touches the ledger. -/
theorem spares {l : Ledger} {sql : String} (hother : sql ≠ l.insertSql) : (view l).Spares sql := by
  rintro c c' ⟨other, parameters, hrequest, hrun⟩
  obtain ⟨rfl, rfl⟩ : sql = other ∧ [] = parameters := by
    simpa only [Request.runInside.injEq] using hrequest
  simp only [Books.run?, if_neg hother, Option.some.injEq] at hrun
  rw [← hrun]
  rfl

end Store

end SchemaMigration
