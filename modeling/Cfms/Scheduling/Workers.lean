import Cfms.Scheduling.Slot
import Cfms.Lib.Run

/-!
# Workers

Local worker threads and broker deliveries claim executions, run the task and report the outcome.
A worker is known by its lease owner, a random token that a local thread keeps for all its claims
and a delivery draws for its own.  A worker has at most one claim at a time: it claims again only
after the run of its claim has ended, with an outcome, an exception or a crash.  Its heartbeat
renews the lease while the run lasts.

The pool records what has happened to each execution.  An execution is a row with its birth, the
number of rows that were stored under its key so far, since a key can be stored again once its row
is purged.
-/

namespace Cfms.Scheduling

open Lib Lib.Run

/-- A claim in the hands of a worker. -/
structure Holding where
  claim : ClaimedExecution
  birth : ℕ
  /-- The task callable was entered. -/
  entered : Bool := false
  /-- The row stopped running under the lease of this claim. -/
  lost : Bool := false

structure Stamp where
  key : ExecutionId
  birth : ℕ
  attempt : ℕ
  deriving DecidableEq

inductive Event
  /-- A claim was handed out. -/
  | claimed (stamp : Stamp)
  /-- The task callable was entered, under a registration with these attempts. -/
  | entered (stamp : Stamp) (maxAttempts : ℕ)
  /-- `complete_execution` or a terminal `fail_execution` returned true. -/
  | ended (stamp : Stamp)
  deriving DecidableEq

def Holding.stamp (holding : Holding) : Stamp :=
  ⟨holding.claim.id, holding.birth, holding.claim.attempt⟩

structure Pool where
  db : Database
  births : ExecutionId → ℕ
  holding : LeaseOwner → Option Holding
  /-- What happened, the latest first. -/
  log : List Event

def Pool.initial : Pool := ⟨.empty, fun _ => 0, fun _ => none, []⟩

instance : Inhabited Pool := ⟨.initial⟩

/-- The row runs under a lease of the owner. -/
def Database.leasedTo (db : Database) (key : ExecutionId) (owner : LeaseOwner) : Bool :=
  (db.executions.lookup key).any fun e => e.state == .running && e.leaseOwner == some owner

/-- The pool after a transaction: a row under a free key is a birth, and a claim is lost when its
row stops running under its lease. -/
def Pool.settle (pool : Pool) (db : Database) : Pool :=
  { pool with
    db := db
    births := fun key =>
      if (pool.db.executions.lookup key).isNone && (db.executions.lookup key).isSome then
        pool.births key + 1
      else pool.births key
    holding := fun owner => (pool.holding owner).map fun held =>
      { held with
        lost := held.lost || (pool.db.leasedTo held.claim.id owner &&
          !db.leasedTo held.claim.id owner) } }

/-- What a worker holds from now on. -/
def Pool.hold (pool : Pool) (owner : LeaseOwner) (held : Option Holding) : Pool :=
  { pool with holding := Function.update pool.holding owner held }

def Pool.record (pool : Pool) (event : Event) : Pool := { pool with log := event :: pool.log }

/-- The transactions that no worker makes. -/
def Action.isBackground : Action → Bool
  | .claim _ _ _ _ _ | .claimById _ _ _ _ _ | .refreshLease _ _ _ _ | .complete _ _ _
  | .fail _ _ _ _ _ _ => false
  | _ => true

/-- The checks of `run_claimed_execution` before the task callable: the attempts of the
registration, when it is entered. -/
def entryAttempts (registry : Registry) (claim : ClaimedExecution) : Option ℕ :=
  match registry.get claim.task.taskName with
  | none => none
  | some registration =>
    if registration.contractVersion ≠ claim.task.contractVersion then none
    else if registration.maxAttempts < claim.attempt then none
    else
      match registry.validatePayload claim.task.taskName claim.task.contractVersion
        claim.task.payload with
      | .error _ => none
      | .ok _ => some registration.maxAttempts

inductive PoolAction
  /-- Schedules change, occurrences are queued and dispatched, providers switch. -/
  | background (action : Action)
  /-- `claim_execution` by a local worker. -/
  | claim (owner : LeaseOwner) (policy : SchedulingPolicy) (generation : ℕ)
      (candidateTime now : Instant)
  /-- `claim_execution_by_id` by the worker of a delivery. -/
  | deliver (owner : LeaseOwner) (policy : SchedulingPolicy) (id : ExecutionId) (generation : ℕ)
      (now : Instant)
  /-- The worker passes the checks and enters the task callable. -/
  | enter (owner : LeaseOwner) (registry : Registry)
  /-- The heartbeat of a claim of the worker.  It may outlast the run of its claim, which waits
  only some seconds for it. -/
  | refresh (owner : LeaseOwner) (id : ExecutionId) (policy : SchedulingPolicy) (now : Instant)
  | complete (owner : LeaseOwner) (generation : ℕ) (now : Instant)
  | fail (owner : LeaseOwner)
      (generation maxAttempts initialBackoffSeconds maximumBackoffSeconds : ℕ) (now : Instant)
  /-- A crash, or an exception that ends the run. -/
  | abandon (owner : LeaseOwner)

/-- A worker takes what a claim returned. -/
def Pool.take (pool : Pool) (owner : LeaseOwner) (result : Option ClaimedExecution × Database) :
    Pool :=
  let settled := pool.settle result.2
  match result.1 with
  | none => settled
  | some claim =>
    let held : Holding := { claim := claim, birth := settled.births claim.id }
    (settled.hold owner (some held)).record (.claimed held.stamp)

/-- A failure of the claim is put up for another attempt. -/
def Database.retried (db : Database) (claim : ClaimedExecution) (maxAttempts : ℕ) : Bool :=
  (db.schedules.lookup claim.scheduleId).any fun schedule => retries claim schedule maxAttempts

/-- A worker ends its run with an outcome that was persisted or refused. -/
def Pool.finish (pool : Pool) (owner : LeaseOwner) (held : Holding) (terminal : Bool)
    (db : Database) : Pool :=
  let settled := (pool.settle db).hold owner none
  if terminal then settled.record (.ended held.stamp) else settled

def poolStep (env : Environment) (pool : Pool) : PoolAction → Option Pool
  | .background action =>
    if action.isBackground then some (pool.settle (commit env pool.db action)) else none
  | .claim owner policy generation candidateTime now =>
    match pool.holding owner with
    | some _ => none
    | none =>
      some (pool.take owner (claimExecution pool.db generation owner policy candidateTime now))
  | .deliver owner policy id generation now =>
    match pool.holding owner with
    | some _ => none
    | none => some (pool.take owner (claimExecutionById pool.db id generation owner policy now))
  | .enter owner registry =>
    match pool.holding owner with
    | none => none
    | some held =>
      if held.entered then none
      else
        match entryAttempts registry held.claim with
        | none => none
        | some maxAttempts =>
          some ((pool.hold owner (some { held with entered := true })).record
            (.entered held.stamp maxAttempts))
  | .refresh owner id policy now =>
    some (pool.settle (refreshExecutionLease pool.db id owner policy now).2)
  | .complete owner generation now =>
    match pool.holding owner with
    | none => none
    | some held =>
      if held.entered then
        match completeExecution env pool.db held.claim generation now with
        -- the exception leads to `fail_execution` in the same run
        | .error _ => some pool
        | .ok (completed, db) => some (pool.finish owner held completed db)
      else none
  | .fail owner generation maxAttempts initialBackoffSeconds maximumBackoffSeconds now =>
    match pool.holding owner with
    | none => none
    | some held =>
      match failExecution env pool.db held.claim generation maxAttempts initialBackoffSeconds
        maximumBackoffSeconds now with
      | .error _ => some pool
      | .ok (failed, db) =>
        some (pool.finish owner held (failed && !pool.db.retried held.claim maxAttempts) db)
  | .abandon owner => some (pool.hold owner none)

end Cfms.Scheduling
