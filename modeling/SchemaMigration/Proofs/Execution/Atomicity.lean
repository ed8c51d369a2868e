import Mathlib.Data.Multiset.AddSub
import SchemaMigration.Proofs.Execution.Recording

/-! # Atomic transactions

Nothing is known of a database but how it answers. A view says what of its states counts: the
content that is committed, the content of the transaction that is open, and the rows of the ledger
in a content. With transactions that are atomic under a view, what is committed changes by whole
transactions.
-/

namespace SchemaMigration

variable {State Content : Type}

/-- Whether a request is a statement in the open transaction. -/
def Request.IsInside (request : Request) : Prop :=
  ∃ sql parameters, request = .runInside sql parameters

theorem Ledger.isInside_application (l : Ledger) (m : Migration) (now : Calendar.Instant) :
    ∀ request ∈ l.application m now, request.IsInside := by
  intro request hmem
  rcases List.mem_append.mp hmem with hmem | hmem
  · obtain ⟨sql, _, rfl⟩ := List.mem_map.mp hmem
    exact ⟨sql, [], rfl⟩
  · rw [List.mem_singleton.mp hmem]
    exact ⟨l.insertSql, _, rfl⟩

/-- What counts of the states of a database. There is a working content while a transaction is open.
The effect of a statement relates the working contents before and after it. -/
structure DatabaseView (State Content : Type) where
  committed : State → Content
  working : State → Option Content
  rows : Content → Multiset (List Value)
  effect : Request → Content → Content → Prop

namespace DatabaseView

variable (view : DatabaseView State Content)

/-- The requests that are carried out one after the other take one content to another. -/
inductive Evolves : List Request → Content → Content → Prop
  | done (c : Content) : Evolves [] c c
  | next {request : Request} {requests : List Request} {c d e : Content}
      (hstep : view.effect request c d) (hrest : Evolves requests d e) :
      Evolves (request :: requests) c e

/-- Transactions are atomic. What a transaction does is committed at once with its commit; a
transaction that does not begin, is rolled back or fails to commit leaves what is committed. -/
structure Atomic (executor : Executor State) : Prop where
  begin_ok : ∀ {s s' rows}, executor.perform .begin s = (.ok rows, s') → view.working s = none →
    view.working s' = some (view.committed s) ∧ view.committed s' = view.committed s
  begin_error : ∀ {s s' error}, executor.perform .begin s = (.error error, s') →
    view.working s = none → view.working s' = none ∧ view.committed s' = view.committed s
  inside_ok : ∀ {sql parameters s s' rows c},
    executor.perform (.runInside sql parameters) s = (.ok rows, s') → view.working s = some c →
    view.committed s' = view.committed s ∧
      ∃ c', view.working s' = some c' ∧ view.effect (.runInside sql parameters) c c'
  inside_error : ∀ {sql parameters s s' error c},
    executor.perform (.runInside sql parameters) s = (.error error, s') → view.working s = some c →
    view.committed s' = view.committed s ∧ ∃ c', view.working s' = some c'
  commit_ok : ∀ {s s' rows c}, executor.perform .commit s = (.ok rows, s') →
    view.working s = some c → view.working s' = none ∧ view.committed s' = c
  commit_error : ∀ {s s' error c}, executor.perform .commit s = (.error error, s') →
    view.working s = some c → view.working s' = none ∧ view.committed s' = view.committed s
  rollback : ∀ {s s' answer c}, executor.perform .rollback s = (answer, s') →
    view.working s = some c → view.working s' = none ∧ view.committed s' = view.committed s

/-- The rows are those of a ledger. To select them changes nothing. A record is inserted only if no
row has its name, and it adds one row. -/
structure Keeps (executor : Executor State) (l : Ledger) : Prop where
  select : ∀ {s s' answer}, executor.perform (.run l.selectSql []) s = (answer, s') →
    view.working s = none → view.working s' = none ∧ view.committed s' = view.committed s
  unique : ∀ {record : Record} {c c'}, view.effect (l.insertion record) c c' →
    ∀ row ∈ view.rows c, row.head? ≠ some (.text record.name)
  inserted : ∀ {record : Record} {c c'}, view.effect (l.insertion record) c c' →
    view.rows c' = record.values ::ₘ view.rows c

/-- A statement does not touch the ledger. -/
def Spares (sql : String) : Prop :=
  ∀ ⦃c c'⦄, view.effect (.runInside sql []) c c' → view.rows c' = view.rows c

variable {view} {executor : Executor State} {requests : List Request} {state after : State}
  {c d e : Content}

/-! ## What transactions do -/

theorem Evolves.append {more : List Request} (h : view.Evolves requests c d)
    (hmore : view.Evolves more d e) : view.Evolves (requests ++ more) c e := by
  induction h with
  | done c => exact hmore
  | next hstep _ ih => exact .next hstep (ih hmore)

theorem evolves_append_iff {more : List Request} :
    view.Evolves (requests ++ more) c e ↔
      ∃ d, view.Evolves requests c d ∧ view.Evolves more d e := by
  constructor
  · intro h
    induction requests generalizing c with
    | nil => exact ⟨c, .done c, h⟩
    | cons request requests ih =>
        cases h with
        | next hstep hrest =>
            obtain ⟨d, hfirst, hsecond⟩ := ih hrest
            exact ⟨d, .next hstep hfirst, hsecond⟩
  · rintro ⟨d, hfirst, hsecond⟩
    exact hfirst.append hsecond

/-- Statements in a transaction that are all carried out have their effects in it. -/
theorem Atomic.performAll_ok (h : view.Atomic executor)
    (hinside : ∀ request ∈ requests, request.IsInside)
    (hperform : executor.performAll requests state = (.ok (), after))
    (hopen : view.working state = some c) :
    view.committed after = view.committed state ∧
      ∃ d, view.working after = some d ∧ view.Evolves requests c d := by
  induction requests generalizing state c with
  | nil =>
      simp only [Executor.performAll, Prod.mk.injEq, true_and] at hperform
      subst hperform
      exact ⟨rfl, c, hopen, .done c⟩
  | cons request requests ih =>
      obtain ⟨sql, parameters, rfl⟩ := hinside request List.mem_cons_self
      cases hfirst : executor.perform (.runInside sql parameters) state with
      | mk answer middle =>
          cases answer with
          | error error => simp [Executor.performAll, hfirst] at hperform
          | ok rows =>
              simp only [Executor.performAll, hfirst] at hperform
              obtain ⟨hsame, d, hworking, heffect⟩ := h.inside_ok hfirst hopen
              obtain ⟨hrest, e, hlast, hevolves⟩ :=
                ih (List.forall_mem_cons.mp hinside).2 hperform hworking
              exact ⟨hrest.trans hsame, e, hlast, .next heffect hevolves⟩

/-- When a statement fails, the transaction is still open and nothing is committed. -/
theorem Atomic.performAll_error (h : view.Atomic executor) {error : ExecutionError}
    (hinside : ∀ request ∈ requests, request.IsInside)
    (hperform : executor.performAll requests state = (.error error, after))
    (hopen : view.working state = some c) :
    view.committed after = view.committed state ∧ ∃ d, view.working after = some d := by
  induction requests generalizing state c with
  | nil => simp [Executor.performAll] at hperform
  | cons request requests ih =>
      obtain ⟨sql, parameters, rfl⟩ := hinside request List.mem_cons_self
      cases hfirst : executor.perform (.runInside sql parameters) state with
      | mk answer middle =>
          simp only [Executor.performAll, hfirst] at hperform
          cases answer with
          | error first =>
              simp only [Prod.mk.injEq] at hperform
              obtain ⟨_, rfl⟩ := hperform
              exact h.inside_error hfirst hopen
          | ok rows =>
              obtain ⟨hsame, d, hworking, _⟩ := h.inside_ok hfirst hopen
              obtain ⟨hrest, hlast⟩ := ih (List.forall_mem_cons.mp hinside).2 hperform hworking
              exact ⟨hrest.trans hsame, hlast⟩

/-- A transaction that succeeds commits the effects of its statements. -/
theorem Atomic.transact_ok (h : view.Atomic executor)
    (hinside : ∀ request ∈ requests, request.IsInside)
    (htransact : executor.transact requests state = (.ok (), after))
    (hclosed : view.working state = none) :
    view.working after = none ∧
      view.Evolves requests (view.committed state) (view.committed after) := by
  unfold Executor.transact at htransact
  split at htransact
  next => simp at htransact
  next rows begun hbegin =>
    obtain ⟨hworking, hbegun⟩ := h.begin_ok hbegin hclosed
    split at htransact
    next => simp at htransact
    next run hrun =>
      obtain ⟨hsame, d, hopen, hevolves⟩ := h.performAll_ok hinside hrun hworking
      split at htransact
      next => simp at htransact
      next last final hcommit =>
        obtain ⟨_, rfl⟩ := Prod.mk.inj htransact
        obtain ⟨hdone, hcommitted⟩ := h.commit_ok hcommit hopen
        exact ⟨hdone, hcommitted ▸ hevolves⟩

/-- A transaction that fails, in whatever way, commits nothing. -/
theorem Atomic.transact_error (h : view.Atomic executor) {error : ExecutionError}
    (hinside : ∀ request ∈ requests, request.IsInside)
    (htransact : executor.transact requests state = (.error error, after))
    (hclosed : view.working state = none) :
    view.working after = none ∧ view.committed after = view.committed state := by
  unfold Executor.transact at htransact
  split at htransact
  -- The transaction does not begin.
  next first begun hbegin =>
    obtain ⟨_, rfl⟩ := Prod.mk.inj htransact
    exact h.begin_error hbegin hclosed
  next rows begun hbegin =>
    obtain ⟨hworking, hbegun⟩ := h.begin_ok hbegin hclosed
    split at htransact
    -- A statement fails, and the transaction is rolled back.
    next first run hrun =>
      obtain ⟨_, rfl⟩ := Prod.mk.inj htransact
      obtain ⟨hsame, d, hopen⟩ := h.performAll_error hinside hrun hworking
      obtain ⟨hdone, hcommitted⟩ := h.rollback rfl hopen
      exact ⟨hdone, hcommitted.trans (hsame.trans hbegun)⟩
    next run hrun =>
      obtain ⟨hsame, d, hopen, _⟩ := h.performAll_ok hinside hrun hworking
      split at htransact
      -- All statements are carried out, but the commit fails.
      next first final hcommit =>
        obtain ⟨_, rfl⟩ := Prod.mk.inj htransact
        obtain ⟨hdone, hcommitted⟩ := h.commit_error hcommit hopen
        exact ⟨hdone, hcommitted.trans (hsame.trans hbegun)⟩
      next => simp at htransact

/-! ## What migrations do to the ledger -/

theorem rows_of_evolves {statements : List String} (hspared : ∀ sql ∈ statements, view.Spares sql)
    (h : view.Evolves (statements.map fun sql => .runInside sql []) c d) :
    view.rows d = view.rows c := by
  induction statements generalizing c with
  | nil =>
      cases h
      rfl
  | cons sql statements ih =>
      obtain ⟨hsql, hrest⟩ := List.forall_mem_cons.mp hspared
      cases h with
      | next hstep h => rw [ih hrest h, hsql hstep]

/-- A migration whose statements spare the ledger adds its record, under a name that is new. -/
theorem Keeps.rows_of_application {l : Ledger} (hkeeps : view.Keeps executor l) {m : Migration}
    {now : Calendar.Instant} (hspared : ∀ sql ∈ m.statements, view.Spares sql)
    (h : view.Evolves (l.application m now) c e) :
    (∀ row ∈ view.rows c, row.head? ≠ some (.text m.name)) ∧
      view.rows e = (Record.ofMigration m now).values ::ₘ view.rows c := by
  obtain ⟨d, hstatements, hinsertion⟩ := evolves_append_iff.mp h
  have hsame := rows_of_evolves hspared hstatements
  cases hinsertion with
  | next heffect hdone =>
      cases hdone
      rw [← hsame]
      exact ⟨hkeeps.unique heffect, hkeeps.inserted heffect⟩

end DatabaseView

/-! ## What a log shows of transactions -/

/-- The transactions in a log, as what was carried out in them: those that were committed, and the
one that is open. -/
structure Transactions where
  committed : List (List Request) := []
  current : List Request := []

/-- The transactions after one more exchange. -/
def Transactions.next (t : Transactions) (exchange : Exchange) : Transactions :=
  match exchange.request, exchange.answer with
  | .runInside sql parameters, .ok _ =>
    { t with current := t.current ++ [.runInside sql parameters] }
  | .commit, .ok _ => { committed := t.committed ++ [t.current] }
  | .commit, .error _ | .begin, _ | .rollback, _ => { committed := t.committed }
  | _, _ => t

/-- The transactions in a log. -/
def transactions (log : List Exchange) : Transactions :=
  log.foldl Transactions.next {}

theorem transactions_append (log more : List Exchange) :
    transactions (log ++ more) = more.foldl Transactions.next (transactions log) :=
  List.foldl_append

namespace Transactions

variable {requests : List Request} {exchanges : List Exchange}

theorem foldl_of_performs_ok (h : Performs requests (.ok ()) exchanges)
    (hinside : ∀ request ∈ requests, request.IsInside) (t : Transactions) :
    exchanges.foldl next t = { t with current := t.current ++ requests } := by
  generalize hresult : Except.ok () = result at h
  induction h generalizing t with
  | done => simp
  | next request rows h ih =>
      obtain ⟨⟨sql, parameters, rfl⟩, hrest⟩ := List.forall_mem_cons.mp hinside
      rw [List.foldl_cons, ih hrest _ hresult]
      simp [next]
  | fails => contradiction

theorem foldl_of_performs {result : Except ExecutionError Unit}
    (h : Performs requests result exchanges)
    (hinside : ∀ request ∈ requests, request.IsInside) (t : Transactions) :
    (exchanges.foldl next t).committed = t.committed := by
  induction h generalizing t with
  | done => rfl
  | next request rows h ih =>
      obtain ⟨⟨sql, parameters, rfl⟩, hrest⟩ := List.forall_mem_cons.mp hinside
      rw [List.foldl_cons, ih hrest]
      rfl
  | fails request requests error =>
      obtain ⟨sql, parameters, rfl⟩ := hinside _ List.mem_cons_self
      rfl

/-- A transaction that succeeds is seen as committed with all its statements. -/
theorem foldl_of_transacts_ok (h : Transacts requests (.ok ()) exchanges)
    (hinside : ∀ request ∈ requests, request.IsInside) (t : Transactions) :
    exchanges.foldl next t = { committed := t.committed ++ [requests] } := by
  cases h with
  | committed rows h last =>
      simp only [List.foldl_append, List.foldl_cons, List.foldl_nil,
        foldl_of_performs_ok h hinside]
      simp [next]

theorem foldl_of_undone {result : Except ExecutionError Unit}
    (h : Performs requests result exchanges)
    (hinside : ∀ request ∈ requests, request.IsInside) (rows : List Row) {last : Exchange}
    (hlast : ∀ t, next t last = { committed := t.committed }) (t : Transactions) :
    (⟨.begin, .ok rows⟩ :: exchanges ++ [last]).foldl next t = { committed := t.committed } := by
  simp only [List.foldl_append, List.foldl_cons, List.foldl_nil, hlast,
    foldl_of_performs h hinside]
  rfl

/-- One that fails is not. -/
theorem foldl_of_transacts_error {error : ExecutionError}
    (h : Transacts requests (.error error) exchanges)
    (hinside : ∀ request ∈ requests, request.IsInside) (t : Transactions) :
    exchanges.foldl next t = { committed := t.committed } := by
  cases h with
  | notBegun error => rfl
  | rolledBack rows h answer => exact foldl_of_undone h hinside rows (fun _ => rfl) t
  | notCommitted rows h error => exact foldl_of_undone h hinside rows (fun _ => rfl) t

end Transactions

end SchemaMigration
