import Cfms.Lib.Table
import Cfms.Scheduling.Triggers
import Mathlib.Data.List.Sort

/-!
# Schedules and executions

The tables of `include/database/models/scheduling.py` and the transactions of
`include/scheduling/` on them.  A transaction either commits, and then its function returns the
database afterwards, or raises, and then nothing of it stays.  Columns that only record who wrote
a row or what a task returned are left out.

`next_run_at` is only ever written from the fire time of a trigger, so it is a whole number of
microseconds; `pending_scheduled_for` may also be an instant of the database clock.
-/

namespace Cfms.Scheduling

open Lib

/-! ### Rows -/

abbrev ScheduleId := String

/-- A SHA-256 digest.  Hexadecimal texts of one length are ordered as the numbers they write. -/
abbrev ExecutionId := ℕ

/-- A random token. -/
abbrev LeaseOwner := ℕ

/-- A payload, as its model dumps it. -/
abbrev Payload := Json

inductive ScheduleStatus
  | active
  | completed
  | failed
  | deleted
  deriving DecidableEq

inductive ExecutionState
  | pending
  | running
  | retryWait
  | succeeded
  | failed
  | cancelled
  deriving DecidableEq

/-- `state IN ('pending', 'running', 'retry_wait')`. -/
def ExecutionState.isActive : ExecutionState → Bool
  | .pending | .running | .retryWait => true
  | .succeeded | .failed | .cancelled => false

/-- `state IN ('pending', 'retry_wait')`. -/
def ExecutionState.isUnstarted : ExecutionState → Bool
  | .pending | .retryWait => true
  | _ => false

inductive DispatchState
  | pending
  | sent
  deriving DecidableEq

/-- The columns that an execution copies from its schedule. -/
structure TaskSnapshot where
  taskName : String
  contractVersion : ℕ
  payload : Payload

structure Schedule where
  task : TaskSnapshot
  triggerType : TriggerType
  triggerData : TriggerData
  timezone : String
  systemManaged : Bool := false
  enabled : Bool := true
  status : ScheduleStatus := .active
  revision : ℕ := 1
  nextRunAt : Option ℤ
  activeExecutionId : Option ExecutionId := none
  pendingScheduledFor : Option Instant := none

structure Execution where
  scheduleId : ScheduleId
  task : TaskSnapshot
  providerGeneration : ℕ
  scheduledFor : Instant
  state : ExecutionState := .pending
  dispatchState : DispatchState := .pending
  attempt : ℕ := 0
  retryAt : Option Instant := none
  dispatchedAt : Option Instant := none
  leaseOwner : Option LeaseOwner := none
  leaseExpiresAt : Option Instant := none
  completedAt : Option Instant := none
  createdAt : Instant

inductive Provider
  | localProvider
  | redisProvider
  deriving DecidableEq

/-- `SchedulingRuntimeState`, the row with id 1. -/
structure RuntimeState where
  provider : Provider
  redisNamespace : Option String
  generation : ℕ
  deriving DecidableEq

structure Database where
  schedules : Table ScheduleId Schedule
  executions : Table ExecutionId Execution
  runtime : Option RuntimeState

/-- No schedule was ever stored. -/
def Database.empty : Database := ⟨∅, ∅, none⟩

instance : Inhabited Database := ⟨.empty⟩

def Database.setSchedule (db : Database) (id : ScheduleId) (schedule : Schedule) : Database :=
  { db with schedules := db.schedules.insert id schedule }

def Database.setExecution (db : Database) (id : ExecutionId) (execution : Execution) : Database :=
  { db with executions := db.executions.insert id execution }

/-! ### Registrations -/

structure SystemScheduleDefinition where
  id : ScheduleId
  payload : Payload
  triggerType : TriggerType
  triggerData : TriggerData
  timezone : String := "UTC"
  runImmediately : Bool := true

/-- `ScheduledTaskRegistration`.  `validatePayload` is the payload model and `systemSchedule` what
the factory returns, `none` also when there is no factory. -/
structure Registration where
  name : String
  contractVersion : ℕ
  validatePayload : Payload → Option Payload
  maxAttempts : ℕ := 5
  initialBackoffSeconds : ℕ := 5
  maximumBackoffSeconds : ℕ := 300
  userSchedulable : Bool := true
  systemSchedule : Option SystemScheduleDefinition := none

abbrev Registry := List Registration

/-- What raises inside a transaction. -/
inductive Failure
  | scheduleNotFound
  | systemManaged
  | staleRevision
  | activeExecution
  | occurrenceRecorded
  | taskNotRegistered
  | taskNotUserSchedulable
  | contractUnavailable
  | invalidPayload
  | invalidTrigger
  | tooManyOccurrences
  | scheduleIdTaken
  | duplicateDefinition
  | userManaged
  | missingNamespace
  | leaseActive
  /-- `create_execution` violates the primary key. -/
  | duplicateOccurrence (scheduleId : ScheduleId) (scheduledFor : Instant)
  deriving DecidableEq

def Registry.get (registry : Registry) (name : String) : Option Registration :=
  registry.find? fun registration => registration.name == name

def Registry.validatePayload (registry : Registry) (name : String) (contractVersion : ℕ)
    (payload : Payload) : Except Failure Payload :=
  match registry.get name with
  | none => .error .taskNotRegistered
  | some registration =>
    if registration.contractVersion ≠ contractVersion then .error .contractUnavailable
    else
      match registration.validatePayload payload with
      | none => .error .invalidPayload
      | some validated => .ok validated

/-- `SchedulingPolicy`, as far as the transactions use it. -/
structure SchedulingPolicy where
  executionLeaseSeconds : ℕ := 60
  misfireGraceSeconds : ℕ := 300
  historyRetentionDays : ℕ := 90
  claimBatchSize : ℕ := 100
  deriving DecidableEq

/-- The code outside the repository: triggers, and the SHA-256 digest of
`"schedule_id:occurrence"`. -/
structure Environment where
  library : TriggerLibrary
  digest : ScheduleId → ℤ → ExecutionId

section

variable (env : Environment)

/-! ### Occurrences -/

def executionId (scheduleId : ScheduleId) (scheduledFor : Instant) : ExecutionId :=
  env.digest scheduleId (micros scheduledFor)

/-- The row that `create_execution` adds. -/
def newExecution (scheduleId : ScheduleId) (schedule : Schedule) (scheduledFor : Instant)
    (generation : ℕ) (now : Instant) : Execution :=
  { scheduleId := scheduleId
    task := schedule.task
    providerGeneration := generation
    scheduledFor := scheduledFor
    createdAt := now }

variable (db : Database)

/-- `create_execution`; the insert fails when the flush finds the key taken. -/
def createExecution (scheduleId : ScheduleId) (schedule : Schedule) (scheduledFor : Instant)
    (generation : ℕ) (now : Instant) : Except Failure Database :=
  let id := executionId env scheduleId scheduledFor
  match db.executions.insertNew id (newExecution scheduleId schedule scheduledFor generation now) with
  | none => .error (.duplicateOccurrence scheduleId scheduledFor)
  | some executions =>
    .ok { db with
      executions := executions
      schedules := db.schedules.insert scheduleId { schedule with activeExecutionId := some id } }

/-! ### Commands for user-managed schedules -/

structure ScheduleRequest where
  taskName : String
  payload : Payload
  triggerType : TriggerType
  triggerData : TriggerData
  timezone : String
  enabled : Bool

/-- The registration, payload and trigger checks that creation and update share. -/
def checkRequest (registry : Registry) (request : ScheduleRequest) :
    Except Failure (TaskSnapshot × Trigger) :=
  match registry.get request.taskName with
  | none => .error .taskNotRegistered
  | some registration =>
    if !registration.userSchedulable then .error .taskNotUserSchedulable
    else
      match registry.validatePayload request.taskName registration.contractVersion
        request.payload with
      | .error failure => .error failure
      | .ok payload =>
        match buildTrigger env.library request.triggerType request.triggerData request.timezone with
        | none => .error .invalidTrigger
        | some trigger => .ok (⟨request.taskName, registration.contractVersion, payload⟩, trigger)

/-- `create_schedule`, with the identifier that the row draws. -/
def createSchedule (registry : Registry) (id : ScheduleId) (request : ScheduleRequest)
    (now : Instant) : Except Failure Database :=
  match checkRequest env registry request with
  | .error failure => .error failure
  | .ok (task, trigger) =>
    match db.schedules.insertNew id
      { task := task
        triggerType := request.triggerType
        triggerData := request.triggerData
        timezone := request.timezone
        enabled := request.enabled
        nextRunAt := firstRunAt trigger now } with
    | none => .error .scheduleIdTaken
    | some schedules => .ok { db with schedules := schedules }

/-- The `changes` of an update; a missing key keeps the stored value. -/
structure ScheduleChanges where
  taskName : Option String := none
  payload : Option Payload := none
  triggerType : Option TriggerType := none
  triggerData : Option TriggerData := none
  timezone : Option String := none
  enabled : Option Bool := none

def ScheduleChanges.request (changes : ScheduleChanges) (schedule : Schedule) : ScheduleRequest :=
  { taskName := changes.taskName.getD schedule.task.taskName
    payload := changes.payload.getD schedule.task.payload
    triggerType := changes.triggerType.getD schedule.triggerType
    triggerData := changes.triggerData.getD schedule.triggerData
    timezone := changes.timezone.getD schedule.timezone
    enabled := changes.enabled.getD schedule.enabled }

/-- The query of `update_schedule` for a recorded occurrence. -/
def Database.recorded (scheduleId : ScheduleId) (scheduledFor : Instant) : Bool :=
  db.executions.any fun _ execution =>
    execution.scheduleId == scheduleId && execution.scheduledFor == scheduledFor

/-- `update_schedule`.  The condition of the final update repeats the tests before it. -/
def updateSchedule (registry : Registry) (id : ScheduleId) (expectedRevision : ℕ)
    (changes : ScheduleChanges) (now : Instant) : Except Failure Database :=
  match db.schedules.lookup id with
  | none => .error .scheduleNotFound
  | some schedule =>
    if schedule.status = .deleted then .error .scheduleNotFound
    else if schedule.systemManaged then .error .systemManaged
    else if schedule.revision ≠ expectedRevision then .error .staleRevision
    else if schedule.activeExecutionId.isSome then .error .activeExecution
    else
      let request := changes.request schedule
      match checkRequest env registry request with
      | .error failure => .error failure
      | .ok (task, trigger) =>
        let nextRunAt := firstRunAt trigger now
        if nextRunAt.any fun fire => db.recorded id fire then .error .occurrenceRecorded
        else
          .ok (db.setSchedule id
            { schedule with
              task := task
              triggerType := request.triggerType
              triggerData := request.triggerData
              timezone := request.timezone
              enabled := request.enabled
              status := .active
              nextRunAt := nextRunAt
              pendingScheduledFor := none
              revision := expectedRevision + 1 })

def Execution.cancel (execution : Execution) (now : Instant) : Execution :=
  { execution with
    state := .cancelled, retryAt := none, leaseOwner := none, leaseExpiresAt := none
    completedAt := some now }

/-- `cancel_unstarted_schedule_execution`, with the schedule as the session holds it. -/
def cancelUnstartedScheduleExecution (id : ScheduleId) (schedule : Schedule) (now : Instant) :
    Database :=
  match schedule.activeExecutionId with
  | none => db.setSchedule id schedule
  | some activeExecutionId =>
    match db.executions.lookup activeExecutionId with
    | none => db.setSchedule id { schedule with activeExecutionId := none }
    | some execution =>
      if execution.state.isUnstarted then
        (db.setExecution activeExecutionId (execution.cancel now)).setSchedule id
          { schedule with activeExecutionId := none }
      else if execution.state.isActive then db.setSchedule id schedule
      else db.setSchedule id { schedule with activeExecutionId := none }

/-- The columns that deletion and retirement write. -/
def Schedule.retired (schedule : Schedule) : Schedule :=
  { schedule with
    enabled := false, status := .deleted, nextRunAt := none, pendingScheduledFor := none
    revision := schedule.revision + 1 }

def deleteSchedule (id : ScheduleId) (expectedRevision : ℕ) (now : Instant) :
    Except Failure Database :=
  match db.schedules.lookup id with
  | none => .error .scheduleNotFound
  | some schedule =>
    if schedule.status = .deleted then .error .scheduleNotFound
    else if schedule.systemManaged then .error .systemManaged
    else if schedule.revision ≠ expectedRevision then .error .staleRevision
    else .ok (cancelUnstartedScheduleExecution db id schedule.retired now)

/-! ### Reconciliation of system schedules -/

/-- A definition with its registration and validated payload. -/
structure DesiredSchedule where
  task : TaskSnapshot
  definition : SystemScheduleDefinition

def DesiredSchedule.id (desired : DesiredSchedule) : ScheduleId := desired.definition.id

/-- The loop of `synchronize_system_schedules` that collects `desired`. -/
def desiredSchedules (registry : Registry) :
    List Registration → List DesiredSchedule → Except Failure (List DesiredSchedule)
  | [], desired => .ok desired
  | registration :: rest, desired =>
    match registration.systemSchedule with
    | none => desiredSchedules registry rest desired
    | some definition =>
      if desired.any fun item => item.id == definition.id then .error .duplicateDefinition
      else
        match registry.validatePayload registration.name registration.contractVersion
          definition.payload with
        | .error failure => .error failure
        | .ok payload =>
          desiredSchedules registry rest
            (desired ++ [⟨⟨registration.name, registration.contractVersion, payload⟩, definition⟩])

/-- The anchor of an interval that comes without one: the anchor of the row, or else the current
time. -/
def intervalAnchor (schedule : Option Schedule) (now : Instant) : Json :=
  let kept := schedule.bind fun row =>
    if row.triggerType = .interval then row.triggerData.lookup "start_at" else none
  kept.getD (.string (env.library.isoformat (micros now)))

/-- The trigger data that a definition comes to. -/
def storedTriggerData (definition : SystemScheduleDefinition) (schedule : Option Schedule)
    (now : Instant) : TriggerData :=
  let data := definition.triggerData
  if definition.triggerType = .interval ∧ data.lookup "start_at" = none then
    data ++ [("start_at", intervalAnchor env schedule now)]
  else data

/-- What `_system_schedule_values` calculates. -/
structure SystemScheduleValues where
  triggerData : TriggerData
  nextRunAt : Option ℤ
  pendingScheduledFor : Option Instant

def systemScheduleValues (desired : DesiredSchedule) (schedule : Option Schedule) (now : Instant) :
    Except Failure SystemScheduleValues :=
  let definition := desired.definition
  let data := storedTriggerData env definition schedule now
  match buildTrigger env.library definition.triggerType data definition.timezone with
  | none => .error .invalidTrigger
  | some trigger =>
    .ok
      { triggerData := data
        nextRunAt := firstRunAt trigger now
        pendingScheduledFor := if definition.runImmediately then some now else none }

/-- `==` on the columns of a task. -/
def TaskSnapshot.equal (first second : TaskSnapshot) : Bool :=
  first.taskName == second.taskName && first.contractVersion == second.contractVersion &&
    first.payload.equal second.payload

def matchesSystemSchedule (schedule : Schedule) (desired : DesiredSchedule)
    (values : SystemScheduleValues) : Bool :=
  schedule.task.equal desired.task && schedule.triggerType == desired.definition.triggerType &&
    (Json.object schedule.triggerData).equal (.object values.triggerData) &&
    schedule.timezone == desired.definition.timezone &&
    schedule.enabled && schedule.status == .active

/-- The row that reconciliation stores, new or rewritten.  The JSON columns are written as text. -/
def systemSchedule (schedule : Option Schedule) (desired : DesiredSchedule)
    (values : SystemScheduleValues) : Schedule :=
  { task := { desired.task with payload := desired.task.payload.dumped }
    triggerType := desired.definition.triggerType
    triggerData := Json.dumpedMembers values.triggerData
    timezone := desired.definition.timezone
    systemManaged := true
    enabled := true
    status := .active
    revision := (schedule.map Schedule.revision).getD 0 + 1
    nextRunAt := values.nextRunAt
    activeExecutionId := schedule.bind Schedule.activeExecutionId
    pendingScheduledFor := values.pendingScheduledFor }

/-- The second loop of `synchronize_system_schedules`, for one definition. -/
def reconcileSystemSchedule (now : Instant) (db : Database) (desired : DesiredSchedule) :
    Except Failure Database :=
  let schedule := db.schedules.lookup desired.id
  if schedule.any fun row => !row.systemManaged then .error .userManaged
  else
    match systemScheduleValues env desired schedule now with
    | .error failure => .error failure
    | .ok values =>
      if schedule.any fun row => matchesSystemSchedule row desired values then .ok db
      else .ok (db.setSchedule desired.id (systemSchedule schedule desired values))

/-- The schedule is stored by an earlier registration that is missing now. -/
def Schedule.isOrphaned (schedule : Schedule) (id : ScheduleId) (desired : List DesiredSchedule) :
    Bool :=
  schedule.systemManaged && !(desired.any fun item => item.id == id) &&
    (schedule.enabled || schedule.status != .deleted)

/-- The first loop of `synchronize_system_schedules`, for one candidate. -/
def retireSystemSchedule (desired : List DesiredSchedule) (now : Instant) (db : Database)
    (id : ScheduleId) : Database :=
  match db.schedules.lookup id with
  | none => db
  | some schedule =>
    if schedule.isOrphaned id desired then
      cancelUnstartedScheduleExecution db id schedule.retired now
    else db

def synchronizeSystemSchedules (registry : Registry) (now : Instant) : Except Failure Database :=
  match desiredSchedules registry registry [] with
  | .error failure => .error failure
  | .ok desired =>
    let orphaned := db.schedules.entries.filter fun row => row.2.isOrphaned row.1 desired
    desired.foldlM (reconcileSystemSchedule env now)
      ((orphaned.map Sigma.fst).foldl (retireSystemSchedule desired now) db)

/-! ### Due occurrences -/

/-- `next_run_at`, when it is due. -/
def Schedule.dueRunAt (schedule : Schedule) (now : Instant) : Option ℤ :=
  schedule.nextRunAt.filter fun fire => (fire : Instant) ≤ now

/-- `pending_scheduled_for`, when it is due. -/
def Schedule.pendingDue (schedule : Schedule) (now : Instant) : Option Instant :=
  schedule.pendingScheduledFor.filter fun pending => pending ≤ now

/-- The later of a pending occurrence and the latest due fire time. -/
def laterOccurrence : Option Instant → Option ℤ → Option Instant
  | pending, none => pending
  | none, some latest => some latest
  | some pending, some latest => if pending < latest then some (latest : Instant) else some pending

variable (policy : SchedulingPolicy)

/-- `latest_due_at` and `next_run_at` of `enqueue_due_schedules`. -/
def dueOccurrence (schedule : Schedule) (now : Instant) :
    Except Failure (Option Instant × Option ℤ) :=
  match schedule.dueRunAt now with
  | none => .ok (schedule.pendingDue now, schedule.nextRunAt)
  | some runAt =>
    match buildTrigger env.library schedule.triggerType schedule.triggerData schedule.timezone with
    | none => .error .invalidTrigger
    | some trigger =>
      match advanceTrigger trigger runAt now policy.misfireGraceSeconds with
      | none => .error .tooManyOccurrences
      | some advance =>
        .ok (laterOccurrence (schedule.pendingDue now) advance.latestDueAt, advance.nextRunAt)

/-- The transaction of `enqueue_due_schedules` for one candidate of the shortlist.  The shortlist
is advisory, so a candidate may be any schedule.  The compare-and-update repeats what the locked
row holds. -/
def enqueueSchedule (generation : ℕ) (id : ScheduleId) (now : Instant) : Except Failure Database :=
  match db.schedules.lookup id with
  | none => .ok db
  | some schedule =>
    if !schedule.enabled || schedule.status != .active then .ok db
    else if (schedule.dueRunAt now).isNone && (schedule.pendingDue now).isNone then .ok db
    else
      match dueOccurrence env policy schedule now with
      | .error failure => .error failure
      | .ok (none, nextRunAt) =>
        .ok (db.setSchedule id
          { schedule with
            nextRunAt := nextRunAt
            status := if nextRunAt.isNone && schedule.activeExecutionId.isNone then .completed
              else schedule.status })
      | .ok (some due, nextRunAt) =>
        if schedule.activeExecutionId.isSome then
          .ok (db.setSchedule id
            { schedule with nextRunAt := nextRunAt, pendingScheduledFor := some due })
        else
          createExecution env db id
            { schedule with nextRunAt := nextRunAt, pendingScheduledFor := none } due generation now

/-! ### Claims, dispatch and leases -/

structure ClaimedExecution where
  id : ExecutionId
  scheduleId : ScheduleId
  task : TaskSnapshot
  scheduledFor : Instant
  attempt : ℕ
  leaseOwner : LeaseOwner

/-- The condition of the claiming update. -/
def Execution.isClaimable (execution : Execution) (generation : ℕ) (now : Instant) : Bool :=
  execution.providerGeneration == generation && execution.state.isActive &&
    execution.retryAt.all (· ≤ now) && execution.leaseExpiresAt.all (· ≤ now)

/-- The values of the claiming update. -/
def Execution.claimedBy (execution : Execution) (policy : SchedulingPolicy) (owner : LeaseOwner)
    (now : Instant) : Execution :=
  { execution with
    state := .running
    dispatchState := .sent
    dispatchedAt := some now
    attempt := execution.attempt + 1
    retryAt := none
    leaseOwner := some owner
    leaseExpiresAt := some (now + seconds policy.executionLeaseSeconds) }

/-- `_claim_execution`. -/
def claimCandidate (id : ExecutionId) (scheduleId : ScheduleId) (generation : ℕ)
    (owner : LeaseOwner) (policy : SchedulingPolicy) (now : Instant) :
    Option ClaimedExecution × Database :=
  match db.schedules.lookup scheduleId, db.executions.lookup id with
  | some schedule, some execution =>
    if schedule.status ≠ .deleted ∧ schedule.activeExecutionId = some id ∧
        execution.scheduleId = scheduleId ∧ execution.isClaimable generation now = true then
      (some
        { id := id
          scheduleId := scheduleId
          task := execution.task
          scheduledFor := execution.scheduledFor
          attempt := execution.attempt + 1
          leaseOwner := owner },
        db.setExecution id (execution.claimedBy policy owner now))
    else (none, db)
  | _, _ => (none, db)

/-- `ORDER BY instant, id`. -/
def orderedBy (instant : Execution → Instant) (rows : List (Σ _ : ExecutionId, Execution)) :
    List (Σ _ : ExecutionId, Execution) :=
  rows.insertionSort fun a b => instant a.2 < instant b.2 ∨ instant a.2 = instant b.2 ∧ a.1 ≤ b.1

/-- `schedule_id IN (SELECT id FROM schedules WHERE status != 'deleted')`. -/
def Database.isKept (id : ScheduleId) : Bool :=
  (db.schedules.lookup id).any fun schedule => schedule.status != .deleted

/-- `claim_execution`.  The clock is read for the candidate and again once the schedule is
locked. -/
def claimExecution (generation : ℕ) (owner : LeaseOwner) (policy : SchedulingPolicy)
    (candidateTime now : Instant) : Option ClaimedExecution × Database :=
  let candidates := db.executions.entries.filter fun row =>
    row.2.isClaimable generation candidateTime && db.isKept row.2.scheduleId
  match (orderedBy Execution.createdAt candidates).head? with
  | none => (none, db)
  | some candidate => claimCandidate db candidate.1 candidate.2.scheduleId generation owner policy now

def claimExecutionById (id : ExecutionId) (generation : ℕ) (owner : LeaseOwner)
    (policy : SchedulingPolicy) (now : Instant) : Option ClaimedExecution × Database :=
  match db.executions.lookup id with
  | none => (none, db)
  | some execution => claimCandidate db id execution.scheduleId generation owner policy now

structure PendingDispatch where
  id : ExecutionId
  attempt : ℕ
  deriving DecidableEq

/-- The values that put an execution back into the queue. -/
def Execution.requeued (execution : Execution) : Execution :=
  { execution with
    state := .pending, dispatchState := .pending, dispatchedAt := none, retryAt := none
    leaseOwner := none, leaseExpiresAt := none }

/-- The first update of `pending_dispatches`: a message that no worker took is sent again. -/
def Execution.resend (execution : Execution) (generation dispatchTimeoutSeconds : ℕ)
    (now : Instant) : Execution :=
  if execution.providerGeneration = generation ∧ execution.state.isUnstarted = true ∧
      execution.dispatchState = .sent ∧
      execution.dispatchedAt.all (· ≤ now - seconds dispatchTimeoutSeconds) = true then
    { execution with dispatchState := .pending, dispatchedAt := none }
  else execution

/-- The second update of `pending_dispatches`: an expired lease is taken back. -/
def Execution.recover (execution : Execution) (db : Database) (generation : ℕ) (now : Instant) :
    Execution :=
  if execution.providerGeneration = generation ∧ execution.state = .running ∧
      execution.leaseExpiresAt.any (· ≤ now) = true ∧ db.isKept execution.scheduleId = true then
    execution.requeued
  else execution

/-- The last transaction of `pending_dispatches`. -/
def pendingDispatches (generation batchSize dispatchTimeoutSeconds : ℕ) (now : Instant) :
    List PendingDispatch × Database :=
  let executions := db.executions.update fun _ execution =>
    (execution.resend generation dispatchTimeoutSeconds now).recover db generation now
  let ready := executions.entries.filter fun row =>
    row.2.providerGeneration == generation && row.2.state.isUnstarted &&
      row.2.dispatchState == .pending && row.2.retryAt.all (· ≤ now)
  (((orderedBy Execution.createdAt ready).take batchSize).map fun row => ⟨row.1, row.2.attempt⟩,
    { db with executions := executions })

def markDispatched (id : ExecutionId) (generation expectedAttempt : ℕ) (now : Instant) :
    Bool × Database :=
  match db.executions.lookup id with
  | none => (false, db)
  | some execution =>
    if execution.providerGeneration = generation ∧ execution.attempt = expectedAttempt ∧
        execution.dispatchState = .pending ∧ execution.state.isUnstarted = true then
      (true, db.setExecution id { execution with dispatchState := .sent, dispatchedAt := some now })
    else (false, db)

def refreshExecutionLease (id : ExecutionId) (owner : LeaseOwner) (policy : SchedulingPolicy)
    (now : Instant) : Bool × Database :=
  match db.executions.lookup id with
  | none => (false, db)
  | some execution =>
    if execution.state = .running ∧ execution.leaseOwner = some owner then
      (true, db.setExecution id
        { execution with leaseExpiresAt := some (now + seconds policy.executionLeaseSeconds) })
    else (false, db)

/-! ### Outcomes -/

def releaseScheduleExecution (id : ScheduleId) (schedule : Schedule) (generation : ℕ)
    (terminalStatus : ScheduleStatus) (now : Instant) : Except Failure Database :=
  let released := { schedule with activeExecutionId := none }
  if schedule.status = .deleted then .ok (db.setSchedule id released)
  else
    match schedule.pendingScheduledFor with
    | some pending =>
      createExecution env db id { released with pendingScheduledFor := none } pending generation now
    | none =>
      if schedule.nextRunAt.isNone then
        .ok (db.setSchedule id { released with status := terminalStatus })
      else .ok (db.setSchedule id released)

/-- The condition of the updates that record an outcome. -/
def Execution.isLeasedBy (execution : Execution) (claim : ClaimedExecution) (generation : ℕ) : Bool :=
  execution.scheduleId == claim.scheduleId && execution.providerGeneration == generation &&
    execution.state == .running && execution.leaseOwner == some claim.leaseOwner

def releaseSlot (claim : ClaimedExecution) (schedule : Schedule) (generation : ℕ)
    (terminalStatus : ScheduleStatus) (now : Instant) : Except Failure Database :=
  if schedule.activeExecutionId = some claim.id then
    releaseScheduleExecution env db claim.scheduleId schedule generation terminalStatus now
  else .ok db

def completeExecution (claim : ClaimedExecution) (generation : ℕ) (now : Instant) :
    Except Failure (Bool × Database) :=
  match db.schedules.lookup claim.scheduleId, db.executions.lookup claim.id with
  | some schedule, some execution =>
    if execution.isLeasedBy claim generation then
      let db := db.setExecution claim.id
        { execution with
          state := .succeeded, completedAt := some now, leaseOwner := none, leaseExpiresAt := none }
      (releaseSlot env db claim schedule generation .completed now).map fun db => (true, db)
    else .ok (false, db)
  | _, _ => .ok (false, db)

/-- The delay before the next attempt. -/
def retryDelay (attempt initialBackoffSeconds maximumBackoffSeconds : ℕ) : Instant :=
  seconds (min (initialBackoffSeconds * 2 ^ (attempt - 1)) maximumBackoffSeconds)

/-- A failure is retried while attempts remain and the schedule is kept. -/
def retries (claim : ClaimedExecution) (schedule : Schedule) (maxAttempts : ℕ) : Bool :=
  claim.attempt < maxAttempts && schedule.status != .deleted

def failExecution (claim : ClaimedExecution)
    (generation maxAttempts initialBackoffSeconds maximumBackoffSeconds : ℕ) (now : Instant) :
    Except Failure (Bool × Database) :=
  match db.schedules.lookup claim.scheduleId, db.executions.lookup claim.id with
  | some schedule, some execution =>
    if execution.isLeasedBy claim generation then
      if retries claim schedule maxAttempts then
        .ok (true, db.setExecution claim.id
          { execution with
            leaseOwner := none
            leaseExpiresAt := none
            state := .retryWait
            dispatchState := .pending
            dispatchedAt := none
            retryAt := some
              (now + retryDelay claim.attempt initialBackoffSeconds maximumBackoffSeconds) })
      else
        let db := db.setExecution claim.id
          { execution with
            leaseOwner := none, leaseExpiresAt := none, state := .failed, completedAt := some now }
        (releaseSlot env db claim schedule generation .failed now).map fun db => (true, db)
    else .ok (false, db)
  | _, _ => .ok (false, db)

/-- The transaction of `cancel_expired_deleted_executions` for one candidate. -/
def cancelExpiredDeletedExecution (id : ExecutionId) (scheduleId : ScheduleId) (now : Instant) :
    Bool × Database :=
  match db.schedules.lookup scheduleId, db.executions.lookup id with
  | some schedule, some execution =>
    if schedule.status = .deleted ∧ execution.scheduleId = scheduleId ∧
        execution.state = .running ∧ execution.leaseExpiresAt.any (· ≤ now) = true then
      let db := db.setExecution id (execution.cancel now)
      (true,
        if schedule.activeExecutionId = some id then
          db.setSchedule scheduleId { schedule with activeExecutionId := none }
        else db)
    else (false, db)
  | _, _ => (false, db)

def purgeExecutionHistory (now : Instant) : Database :=
  let cutoff := now - seconds (policy.historyRetentionDays * 86400)
  let expired := db.executions.entries.filter fun row =>
    !row.2.state.isActive && row.2.completedAt.any (· < cutoff)
  let ids := ((orderedBy (fun execution => execution.completedAt.getD 0) expired).take
    policy.claimBatchSize).map Sigma.fst
  { db with executions := db.executions.delete fun id _ => ids.contains id }

/-! ### The runtime generation -/

/-- The rows that a provider switch moves to the new generation. -/
def Execution.migrated (execution : Execution) (db : Database) (generation : ℕ) : Execution :=
  if execution.state.isActive = true ∧ db.isKept execution.scheduleId = true then
    { execution.requeued with providerGeneration := generation }
  else execution

/-- `ensure_runtime_state`; returns the generation with the database. -/
def ensureRuntimeState (provider : Provider) (redisNamespace : Option String) (now : Instant) :
    Except Failure (ℕ × Database) :=
  if provider = .redisProvider ∧ redisNamespace = none then .error .missingNamespace
  else
    let desiredNamespace := if provider = .redisProvider then redisNamespace else none
    let state := db.runtime.getD ⟨provider, desiredNamespace, 1⟩
    if state.provider = provider ∧ state.redisNamespace = desiredNamespace then
      .ok (state.generation, { db with runtime := some state })
    else if db.executions.any fun _ execution =>
        execution.state == .running && execution.leaseExpiresAt.any (now < ·) then
      .error .leaseActive
    else
      let generation := state.generation + 1
      .ok (generation,
        { db with
          runtime := some ⟨provider, desiredNamespace, generation⟩
          executions := db.executions.update fun _ execution => execution.migrated db generation })

end

/-! ### The transactions of the scheduler -/

inductive Action
  | createSchedule (registry : Registry) (id : ScheduleId) (request : ScheduleRequest)
      (now : Instant)
  | updateSchedule (registry : Registry) (id : ScheduleId) (expectedRevision : ℕ)
      (changes : ScheduleChanges) (now : Instant)
  | deleteSchedule (id : ScheduleId) (expectedRevision : ℕ) (now : Instant)
  | synchronize (registry : Registry) (now : Instant)
  | enqueue (policy : SchedulingPolicy) (generation : ℕ) (id : ScheduleId) (now : Instant)
  | claim (policy : SchedulingPolicy) (generation : ℕ) (owner : LeaseOwner)
      (candidateTime now : Instant)
  | claimById (policy : SchedulingPolicy) (id : ExecutionId) (generation : ℕ) (owner : LeaseOwner)
      (now : Instant)
  | pendingDispatches (generation batchSize dispatchTimeoutSeconds : ℕ) (now : Instant)
  | markDispatched (id : ExecutionId) (generation expectedAttempt : ℕ) (now : Instant)
  | refreshLease (policy : SchedulingPolicy) (id : ExecutionId) (owner : LeaseOwner) (now : Instant)
  | complete (claim : ClaimedExecution) (generation : ℕ) (now : Instant)
  | fail (claim : ClaimedExecution)
      (generation maxAttempts initialBackoffSeconds maximumBackoffSeconds : ℕ) (now : Instant)
  | cancelExpired (id : ExecutionId) (scheduleId : ScheduleId) (now : Instant)
  | purge (policy : SchedulingPolicy) (now : Instant)
  | ensureRuntimeState (provider : Provider) (redisNamespace : Option String) (now : Instant)

/-- The instant that the transaction reads from the database clock. -/
def Action.now : Action → Instant
  | .createSchedule _ _ _ now | .updateSchedule _ _ _ _ now | .deleteSchedule _ _ now
  | .synchronize _ now | .enqueue _ _ _ now | .claim _ _ _ _ now | .claimById _ _ _ _ now
  | .pendingDispatches _ _ _ now | .markDispatched _ _ _ now | .refreshLease _ _ _ now
  | .complete _ _ now | .fail _ _ _ _ _ now | .cancelExpired _ _ now | .purge _ now
  | .ensureRuntimeState _ _ now => now

/-- The runtime generation that the transaction is given. -/
def Action.generation : Action → Option ℕ
  | .enqueue _ generation _ _ | .claim _ generation _ _ _ | .claimById _ _ generation _ _
  | .pendingDispatches generation _ _ _ | .markDispatched _ generation _ _
  | .complete _ generation _ | .fail _ generation _ _ _ _ => some generation
  | _ => none

variable (env : Environment)

/-- The database that the transaction commits, or the failure that rolls it back. -/
def transact (db : Database) : Action → Except Failure Database
  | .createSchedule registry id request now => createSchedule env db registry id request now
  | .updateSchedule registry id expectedRevision changes now =>
    updateSchedule env db registry id expectedRevision changes now
  | .deleteSchedule id expectedRevision now => deleteSchedule db id expectedRevision now
  | .synchronize registry now => synchronizeSystemSchedules env db registry now
  | .enqueue policy generation id now => enqueueSchedule env db policy generation id now
  | .claim policy generation owner candidateTime now =>
    .ok (claimExecution db generation owner policy candidateTime now).2
  | .claimById policy id generation owner now =>
    .ok (claimExecutionById db id generation owner policy now).2
  | .pendingDispatches generation batchSize dispatchTimeoutSeconds now =>
    .ok (pendingDispatches db generation batchSize dispatchTimeoutSeconds now).2
  | .markDispatched id generation expectedAttempt now =>
    .ok (markDispatched db id generation expectedAttempt now).2
  | .refreshLease policy id owner now => .ok (refreshExecutionLease db id owner policy now).2
  | .complete claim generation now => (completeExecution env db claim generation now).map Prod.snd
  | .fail claim generation maxAttempts initialBackoffSeconds maximumBackoffSeconds now =>
    (failExecution env db claim generation maxAttempts initialBackoffSeconds
      maximumBackoffSeconds now).map Prod.snd
  | .cancelExpired id scheduleId now => .ok (cancelExpiredDeletedExecution db id scheduleId now).2
  | .purge policy now => .ok (purgeExecutionHistory db policy now)
  | .ensureRuntimeState provider redisNamespace now =>
    (ensureRuntimeState db provider redisNamespace now).map Prod.snd

/-- A transaction that raises leaves the database as it was. -/
def commit (db : Database) (action : Action) : Database :=
  match transact env db action with
  | .ok db' => db'
  | .error _ => db

end Cfms.Scheduling
