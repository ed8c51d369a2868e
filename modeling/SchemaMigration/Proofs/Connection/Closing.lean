import SchemaMigration.Proofs.Connection.Registry

/-! # Closing all connections

When all connections of a registry are to be closed, it is empty afterwards, whatever comes of it.
The connections are taken out in some order and closed one after another, each once, up to the first
that fails. Those behind it are no longer in the registry and were not closed. So every connection
is closed exactly when none fails but the last of the order.
-/

namespace SchemaMigration.Registry

variable {Connection World : Type}

/-- The connections that contacts closed, the first one first. The contacts themselves are kept the
other way round. -/
def closings (contacts : List (Contact Connection)) : List Connection :=
  contacts.reverse.filterMap fun
    | .close connection _ => some connection
    | .connect _ _ => none

/-- What closing comes to when it is tried with each of the connections in turn, also behind one that
fails. -/
def closeResults (close : Close Connection World) :
    List Connection → World → List (Except ExecutionError Unit)
  | [], _ => []
  | connection :: rest, world =>
    (close connection world).1 :: closeResults close rest (close connection world).2

/-- The first failure among results, if there is one. -/
def firstFailure (results : List (Except ExecutionError Unit)) : Except ExecutionError Unit :=
  (results.find? (· != .ok ())).getD (.ok ())

section Closings

variable {close : Close Connection World} {connections : List Connection} {world : World}
  {contacts : List (Contact Connection)}

@[simp] theorem closings_close (connection : Connection) (result : Except ExecutionError Unit) :
    closings (.close connection result :: contacts) = closings contacts ++ [connection] := by
  simp [closings]

theorem length_closeResults :
    (closeResults close connections world).length = connections.length := by
  induction connections generalizing world with
  | nil => rfl
  | cons connection rest ih => rw [closeResults, List.length_cons, List.length_cons, ih]

/-- Connections are closed in order, up to the first failure. -/
theorem closings_closeEach :
    closings (closeEach (noted .close close) connections (world, contacts)).2.2 =
      closings contacts ++ connections.take
        (((closeResults close connections world).takeWhile (· == .ok ())).length + 1) := by
  induction connections generalizing world contacts with
  | nil => simp [closeEach]
  | cons connection rest ih =>
      rcases hclose : close connection world with ⟨error | _, after⟩
      · simp [closeEach, noted, closeResults, hclose]
      · simp [closeEach, noted, closeResults, hclose, ih]

theorem closeEach_result :
    (closeEach (noted .close close) connections (world, contacts)).1 =
      firstFailure (closeResults close connections world) := by
  induction connections generalizing world contacts with
  | nil => rfl
  | cons connection rest ih =>
      rcases hclose : close connection world with ⟨error | _, after⟩
      · simp [closeEach, noted, closeResults, firstFailure, hclose]
      · simp [closeEach, noted, closeResults, firstFailure, hclose, ih]

end Closings

/-- A list goes at most one beyond its longest beginning of a kind exactly when all of it but the
last is of the kind. -/
theorem length_le_succ_takeWhile_iff {α : Type} {p : α → Bool} {as : List α} :
    as.length ≤ (as.takeWhile p).length + 1 ↔ ∀ a ∈ as.dropLast, p a = true := by
  induction as with
  | nil => simp
  | cons a as ih =>
      cases as with
      | nil => simp
      | cons b as =>
          rw [List.dropLast_cons_cons, List.forall_mem_cons, ← ih]
          by_cases ha : p a = true
          · simp [List.takeWhile_cons_of_pos ha, ha]
          · simp [List.takeWhile_cons_of_neg ha, ha]

/-- A registry of two connections. -/
def pairKept : Registry Nat :=
  ⟨[(({ url := "a.db" } : ConnectionOptions).key, 1),
    (({ url := "b.db" } : ConnectionOptions).key, 2)]⟩

end SchemaMigration.Registry
