import Mathlib.Data.List.Nodup
import SchemaMigration.Connection.Rehearsal
import SchemaMigration.Proofs.Connection.Options

/-! # A registry in use

A registry is asked for connections, to close one, or to close them all, in any order, and
connecting and closing succeed or fail as they like. What it keeps at any time is told by the
answers it has given: the connection last given for the options, unless it was closed since. It
connects exactly where these tell of none, and what it keeps belongs to options that all differ.
-/

namespace SchemaMigration.Registry

variable {Connection World : Type}

/-- A way to connect for options, which may fail. -/
abbrev Connect (Connection World : Type) :=
  ConnectionOptions → World → Except ExecutionError Connection × World

/-- A way to close a connection, which may fail. -/
abbrev Close (Connection World : Type) :=
  Connection → World → Except ExecutionError Unit × World

/-- What was asked of the world outside, with the answer. -/
inductive Contact (Connection : Type)
  | connect (options : ConnectionOptions) (result : Except ExecutionError Connection)
  | close (connection : Connection) (result : Except ExecutionError Unit)
  deriving DecidableEq, Repr

/-- An action on a world that remembers the contacts, the latest first. -/
def noted {α β : Type} (note : α → β → Contact Connection) (act : α → World → β × World) :
    α → World × List (Contact Connection) → β × World × List (Contact Connection) :=
  fun a state => ((act a state.1).1, (act a state.1).2, note a (act a state.1).1 :: state.2)

/-- A call of a registry. Connections are closed in any order. -/
inductive Call (Connection World : Type)
  | get (options : ConnectionOptions) (connect : Connect Connection World)
  | remove (options : ConnectionOptions)
  | closeAll (arrange : List (String × Connection) → List (String × Connection))
      (perm : ∀ entries, (arrange entries).Perm entries)

/-- A call that was answered. -/
inductive Event (Connection : Type)
  | got (options : ConnectionOptions) (result : Except ExecutionError Connection)
  | removed (options : ConnectionOptions) (result : Except ExecutionError Bool)
  | closedAll (result : Except ExecutionError Unit)
  deriving DecidableEq, Repr

/-- The connection for options that a history tells of, the latest event first. -/
def cached (options : ConnectionOptions) : List (Event Connection) → Option Connection
  | [] => none
  | .got other (.ok connection) :: earlier =>
    if other = options then some connection else cached options earlier
  | .got _ (.error _) :: earlier => cached options earlier
  | .removed other _ :: earlier => if other = options then none else cached options earlier
  | .closedAll _ :: _ => none

/-- A registry in use: what it keeps, the world with the contacts, and the calls answered so far,
the latest first. -/
structure Usage (Connection World : Type) where
  registry : Registry Connection := {}
  world : World
  contacts : List (Contact Connection) := []
  history : List (Event Connection) := []

namespace Usage

/-- The use after one more call. -/
def call (close : Close Connection World) (u : Usage Connection World) :
    Call Connection World → Usage Connection World
  | .get options connect =>
    match u.registry.getOrConnect options (noted .connect connect) (u.world, u.contacts) with
    | (result, registry, world, contacts) =>
      ⟨registry, world, contacts, .got options result :: u.history⟩
  | .remove options =>
    match u.registry.remove options (noted .close close) (u.world, u.contacts) with
    | (result, registry, world, contacts) =>
      ⟨registry, world, contacts, .removed options result :: u.history⟩
  | .closeAll arrange _ =>
    match Registry.closeAll ⟨arrange u.registry.entries⟩ (noted .close close)
      (u.world, u.contacts) with
    | (result, registry, world, contacts) =>
      ⟨registry, world, contacts, .closedAll result :: u.history⟩

/-- The use of a new registry after calls. -/
def after (close : Close Connection World) (world : World) (calls : List (Call Connection World)) :
    Usage Connection World :=
  calls.foldl (call close) { world }

end Usage

/-! ## Looking up -/

section Lookup

variable {r : Registry Connection} {options other : ConnectionOptions} {connection : Connection}

@[simp] theorem get?_empty (options : ConnectionOptions) :
    ({} : Registry Connection).get? options = none :=
  rfl

/-- An entry that is added behind the others counts if there was none for its options. -/
theorem get?_append (r : Registry Connection) (options other : ConnectionOptions)
    (connection : Connection) :
    Registry.get? ⟨r.entries ++ [(other.key, connection)]⟩ options =
      (r.get? options).or (if other = options then some connection else none) := by
  rw [get?, List.lookup_append, List.lookup_cons, List.lookup_nil]
  by_cases h : other = options
  · subst h
    simp [get?]
  · have hkey : (options.key == other.key) = false :=
      beq_eq_false_iff_ne.mpr fun heq => h (ConnectionOptions.key_eq_key_iff.mp heq).symm
    simp [get?, h, hkey]

theorem lookup_filter_ne {β : Type} (entries : List (String × β)) (k k' : String) :
    (entries.filter fun entry => entry.1 != k').lookup k =
      if k = k' then none else entries.lookup k := by
  induction entries with
  | nil => simp
  | cons entry entries ih =>
      obtain ⟨k'', b⟩ := entry
      by_cases hdropped : k'' = k'
      · subst hdropped
        rw [List.filter_cons_of_neg (by simp), ih, List.lookup_cons]
        split
        · rfl
        next hk => rw [beq_eq_false_iff_ne.mpr hk]
      · rw [List.filter_cons_of_pos (by simpa using hdropped), List.lookup_cons, List.lookup_cons,
          ih]
        by_cases hk : k = k''
        · simp [hk, hdropped]
        · rw [beq_eq_false_iff_ne.mpr hk]

/-- Taking out the entry for options leaves those for other options. -/
theorem get?_without (r : Registry Connection) (options other : ConnectionOptions) :
    Registry.get? ⟨r.entries.filter fun entry => entry.1 != other.key⟩ options =
      if other = options then none else r.get? options := by
  rw [get?, lookup_filter_ne, get?]
  by_cases h : other = options
  · rw [if_pos (congrArg _ h.symm), if_pos h]
  · rw [if_neg (mt ConnectionOptions.key_eq_key_iff.mp (Ne.symm h)), if_neg h]

end Lookup

/-! ## Owners of entries -/

/-- Every entry belongs to options, and no two entries to the same. -/
def Owned (r : Registry Connection) : Prop :=
  ∃ owners : List ConnectionOptions,
    owners.Nodup ∧ r.entries.map Prod.fst = owners.map ConnectionOptions.key

namespace Owned

variable {r : Registry Connection}

theorem empty : Owned ({} : Registry Connection) :=
  ⟨[], List.nodup_nil, rfl⟩

theorem append (h : r.Owned) {options : ConnectionOptions} (hnew : r.get? options = none)
    (connection : Connection) : Owned ⟨r.entries ++ [(options.key, connection)]⟩ := by
  obtain ⟨owners, hnodup, hkeys⟩ := h
  refine ⟨owners ++ [options], List.nodup_append.mpr ⟨hnodup, List.nodup_singleton _, ?_⟩, ?_⟩
  · rintro owner howner _ hmem rfl
    rw [List.mem_singleton] at hmem
    subst hmem
    obtain ⟨entry, hentry, hkey⟩ := List.mem_map.mp (hkeys ▸ List.mem_map_of_mem howner)
    simpa [hkey] using List.lookup_eq_none_iff.mp hnew entry hentry
  · simp [hkeys]

theorem without (h : r.Owned) (options : ConnectionOptions) :
    Owned ⟨r.entries.filter fun entry => entry.1 != options.key⟩ := by
  obtain ⟨owners, hnodup, hkeys⟩ := h
  refine ⟨owners.filter fun owner => owner.key != options.key, hnodup.filter _, ?_⟩
  calc
    (r.entries.filter fun entry => entry.1 != options.key).map Prod.fst =
        (r.entries.map Prod.fst).filter (· != options.key) := by
      simp only [List.filter_map, Function.comp_def]
    _ = (owners.map ConnectionOptions.key).filter (· != options.key) := by rw [hkeys]
    _ = (owners.filter fun owner => owner.key != options.key).map ConnectionOptions.key := by
      simp only [List.filter_map, Function.comp_def]

variable {World : Type}

theorem getOrConnect (h : r.Owned) (options : ConnectionOptions)
    (connect : Connect Connection World) (world : World) :
    (r.getOrConnect options connect world).2.1.Owned := by
  unfold Registry.getOrConnect
  split
  · exact h
  next hnone =>
    split
    · exact h.append hnone _
    · exact h

theorem remove (h : r.Owned) (options : ConnectionOptions) (close : Close Connection World)
    (world : World) : (r.remove options close world).2.1.Owned := by
  unfold Registry.remove
  split
  · exact h
  · dsimp only
    split <;> exact h.without options

end Owned

/-! ## The courses of a call -/

namespace Usage

variable {close : Close Connection World} {u : Usage Connection World}
  {options : ConnectionOptions} {connection : Connection}

/-- How a call may go, told by the history before it: there is one course for each way in which
connecting or closing can turn out. -/
inductive Course (close : Close Connection World) (u : Usage Connection World) :
    Call Connection World → Usage Connection World → Prop
  | found {options : ConnectionOptions} {connection : Connection}
      (connect : Connect Connection World) (hcached : cached options u.history = some connection) :
      Course close u (.get options connect)
        { u with history := .got options (.ok connection) :: u.history }
  | connected {options : ConnectionOptions} {connect : Connect Connection World}
      {connection : Connection} {registry : Registry Connection} {world : World}
      (hcached : cached options u.history = none)
      (hconnect : connect options u.world = (.ok connection, world))
      (hregistry : ∀ other, registry.get? other =
        if options = other then some connection else u.registry.get? other) :
      Course close u (.get options connect)
        ⟨registry, world, .connect options (.ok connection) :: u.contacts,
          .got options (.ok connection) :: u.history⟩
  | refused {options : ConnectionOptions} {connect : Connect Connection World}
      {error : ExecutionError} {world : World} (hcached : cached options u.history = none)
      (hconnect : connect options u.world = (.error error, world)) :
      Course close u (.get options connect)
        ⟨u.registry, world, .connect options (.error error) :: u.contacts,
          .got options (.error error) :: u.history⟩
  | absent {options : ConnectionOptions} (hcached : cached options u.history = none) :
      Course close u (.remove options)
        { u with history := .removed options (.ok false) :: u.history }
  | removed {options : ConnectionOptions} {connection : Connection}
      {result : Except ExecutionError Unit} {registry : Registry Connection} {world : World}
      (hcached : cached options u.history = some connection)
      (hclose : close connection u.world = (result, world))
      (hregistry : ∀ other, registry.get? other =
        if options = other then none else u.registry.get? other) :
      Course close u (.remove options)
        ⟨registry, world, .close connection result :: u.contacts,
          .removed options (result.map fun _ => true) :: u.history⟩
  | closedAll {result : Except ExecutionError Unit} {world : World}
      {contacts : List (Contact Connection)}
      (arrange : List (String × Connection) → List (String × Connection))
      (perm : ∀ entries, (arrange entries).Perm entries) :
      Course close u (.closeAll arrange perm) ⟨{}, world, contacts, .closedAll result :: u.history⟩

/-- The history of a use tells what its registry keeps. -/
def IsTold (u : Usage Connection World) : Prop :=
  ∀ options, u.registry.get? options = cached options u.history

theorem IsTold.course (h : u.IsTold) (call : Call Connection World) :
    Course close u call (u.call close call) := by
  cases call with
  | get options connect =>
      have hget := h options
      rw [Usage.call, getOrConnect]
      cases hcached : cached options u.history with
      | some connection =>
          rw [hcached] at hget
          simp only [hget]
          exact .found connect hcached
      | none =>
          rw [hcached] at hget
          rcases hconnect : connect options u.world with ⟨error | connection, world⟩
          · simp only [hget, noted, hconnect]
            exact .refused hcached hconnect
          · simp only [hget, noted, hconnect]
            refine .connected hcached hconnect fun other => ?_
            rw [get?_append]
            split
            next heq => rw [← heq, hget, Option.none_or]
            next => rw [Option.or_none]
  | remove options =>
      have hget := h options
      rw [Usage.call, Registry.remove]
      cases hcached : cached options u.history with
      | none =>
          rw [hcached] at hget
          simp only [hget]
          exact .absent hcached
      | some connection =>
          rw [hcached] at hget
          have hrest := fun other => get?_without u.registry other options
          rcases hclose : close connection u.world with ⟨error | _, world⟩
          · simp only [hget, noted, hclose]
            exact .removed hcached hclose hrest
          · simp only [hget, noted, hclose]
            exact .removed hcached hclose hrest
  | closeAll arrange perm => exact .closedAll arrange perm

/-- Whatever course a call takes, the history goes on to tell what is kept. -/
theorem Course.isTold {call : Call Connection World} {v : Usage Connection World}
    (hcourse : Course close u call v) (h : u.IsTold) : v.IsTold := by
  intro other
  cases hcourse with
  | found connect hcached =>
      rw [h other, cached]
      split
      next heq => rw [← heq, hcached]
      next => rfl
  | connected hcached hconnect hregistry => rw [hregistry, cached, h other]
  | refused hcached hconnect => exact h other
  | absent hcached =>
      rw [h other, cached]
      split
      next heq => rw [← heq, hcached]
      next => rfl
  | removed hcached hclose hregistry => rw [hregistry, cached, h other]
  | closedAll arrange perm => rfl

theorem isTold_after (close : Close Connection World) (world : World)
    (calls : List (Call Connection World)) : (after close world calls).IsTold := by
  have hnew : Usage.IsTold { world : Usage Connection World } := fun _ => rfl
  unfold after
  generalize ({ world } : Usage Connection World) = u at hnew
  induction calls generalizing u with
  | nil => exact hnew
  | cons call calls ih => exact ih _ ((hnew.course call).isTold hnew)

theorem owned_call (h : u.registry.Owned) (call : Call Connection World) :
    (u.call close call).registry.Owned := by
  cases call with
  | get options connect => exact h.getOrConnect options _ _
  | remove options => exact h.remove options _ _
  | closeAll arrange perm => exact .empty

theorem owned_after (close : Close Connection World) (world : World)
    (calls : List (Call Connection World)) : (after close world calls).registry.Owned := by
  have hnew : Owned ({ world : Usage Connection World }).registry := .empty
  unfold after
  generalize ({ world } : Usage Connection World) = u at hnew
  induction calls generalizing u with
  | nil => exact hnew
  | cons call calls ih => exact ih _ (owned_call hnew call)

end Usage

/-- A registry keeps one connection for each of the options it knows. Whatever calls were made and
however the world answered, what is kept is what the history tells of and belongs to options that
all differ; and the next call, whichever it is, takes one of the courses. Options and their text
determine each other. -/
theorem keeps_one_for_each (close : Close Connection World) (world : World)
    (calls : List (Call Connection World)) :
    (Usage.after close world calls).registry.Owned ∧
    (∀ options, (Usage.after close world calls).registry.get? options =
      cached options (Usage.after close world calls).history) ∧
    (∀ call, Usage.Course close (Usage.after close world calls) call
      (Usage.after close world (calls ++ [call]))) ∧
    ∀ options other : ConnectionOptions, options.key = other.key ↔ options = other := by
  have htold := Usage.isTold_after close world calls
  refine ⟨Usage.owned_after close world calls, htold, fun call => ?_, fun _ _ =>
    ConnectionOptions.key_eq_key_iff⟩
  have hnext : Usage.after close world (calls ++ [call]) =
      (Usage.after close world calls).call close call := List.foldl_append ..
  rw [hnext]
  exact htold.course call

/-- Options that differ in one setting have connections of their own. The first attempt to make one
of them fails, and so is made again. -/
example :
    let plain : ConnectionOptions := { url := "a.db" }
    let loose : ConnectionOptions := { url := "a.db", foreignKeys := false }
    let refusal : ExecutionError := .connection "refused"
    let u := Usage.after RehearsedConnections.close {}
      [.get plain (RehearsedConnections.connect none),
        .get loose (RehearsedConnections.connect (some "refused")),
        .get plain (RehearsedConnections.connect none),
        .get loose (RehearsedConnections.connect none), .remove plain, .remove plain]
    u.history = [.removed plain (.ok false), .removed plain (.ok true), .got loose (.ok 3),
        .got plain (.ok 1), .got loose (.error refusal), .got plain (.ok 1)] ∧
      u.contacts = [.close 1 (.ok ()), .connect loose (.ok 3), .connect loose (.error refusal),
        .connect plain (.ok 1)] ∧
      u.registry.entries.map Prod.snd = [3] := by
  decide +kernel

end SchemaMigration.Registry
