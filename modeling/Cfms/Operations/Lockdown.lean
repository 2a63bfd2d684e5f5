import Cfms.Files.Tasks
import Cfms.Lib.Optimistic
import Cfms.Lib.Table

/-!
# Lockdown

The lockdown state and the activation of a scheduled lockdown are two rows of `system_states`, each
with a revision of its own.  The commands of `include/domains/operations/lockdown/commands.py` read
both rows, decide, and write with a compare-and-set on the revisions they have read, all in one
transaction.  An attempt that finds a row changed raises, which rolls the transaction back, and the
command reads again.

A command is a function of what it has read, of the clock and of the database that its writes meet.
The rows are read as the functions of `state.py` parse them; rows that do not parse are left out.
-/

namespace Cfms.Operations

open Access (Instant)
open Files (FileTask FileTaskStatus cancelFileTask)
open Lib Lib.Optimistic

/-! ### Rows -/

inductive LockdownSource
  | manual
  | scheduled
  | automatic
  | unknown
  deriving DecidableEq

/-- `_PersistedLockdownSource`. -/
inductive PersistedSource
  | manual
  | scheduled
  | automatic
  deriving DecidableEq

/-- `LockdownSource(payload.source)`. -/
def PersistedSource.source : PersistedSource → LockdownSource
  | .manual => .manual
  | .scheduled => .scheduled
  | .automatic => .automatic

structure LockdownState where
  enabled : Bool := false
  reason : Option String := none
  deriving DecidableEq

/-- The payload of the row `lockdown`, in the schema versions 1 and 2. -/
inductive LockdownPayload
  | v1 (enabled : Bool) (reason : Option String) (lastDisabledAt : Instant)
  | v2 (enabled : Bool) (reason : Option String) (lastDisabledAt : Instant)
      (source : Option PersistedSource)
  deriving DecidableEq

/-- The payload of the row `lockdown_activation`, in the schema versions 1 and 2. -/
inductive ActivationPayload
  | v1 (activationId : String) (lockdownRevision : ℕ) (expiresAt : Instant)
  | v2 (activationId : String) (lockdownRevision : ℕ) (expiresAt : Option Instant)
  deriving DecidableEq

abbrev FileTaskId := ℕ

structure Database where
  lockdown : Option (Revisioned LockdownPayload)
  activation : Option (Revisioned ActivationPayload)
  fileTasks : Table FileTaskId FileTask

/-- No state was ever stored. -/
def Database.empty : Database := ⟨none, none, ∅⟩

instance : Inhabited Database := ⟨.empty⟩

structure StoredLockdownState where
  state : LockdownState
  source : Option LockdownSource
  lastDisabledAt : Instant
  revision : ℕ
  deriving DecidableEq

def parseLockdownState (stored : Revisioned LockdownPayload) : StoredLockdownState :=
  match stored.value with
  | .v1 enabled reason lastDisabledAt =>
    ⟨⟨enabled, reason⟩, if enabled then some .unknown else none, lastDisabledAt, stored.revision⟩
  | .v2 enabled reason lastDisabledAt source =>
    ⟨⟨enabled, reason⟩, source.map PersistedSource.source, lastDisabledAt, stored.revision⟩

/-- `_LockdownActivationPayload`. -/
structure LockdownActivation where
  activationId : String
  lockdownRevision : ℕ
  expiresAt : Option Instant
  deriving DecidableEq

/-- The payload that `_read_lockdown_activation` returns. -/
def parseLockdownActivation : ActivationPayload → LockdownActivation
  | .v1 activationId lockdownRevision expiresAt => ⟨activationId, lockdownRevision, some expiresAt⟩
  | .v2 activationId lockdownRevision expiresAt => ⟨activationId, lockdownRevision, expiresAt⟩

def validLockdownActivation (state : Option StoredLockdownState)
    (activation : Option LockdownActivation) : Option LockdownActivation :=
  match state, activation with
  | some state, some activation =>
    if state.state.enabled ∧ activation.lockdownRevision = state.revision ∧
        (state.source = some .scheduled ∨ state.source = some .unknown) then some activation
    else none
  | _, _ => none

def lockdownSource (state : Option StoredLockdownState) (activation : Option LockdownActivation) :
    Option LockdownSource :=
  match state with
  | none => none
  | some state =>
    if !state.state.enabled then none
    else if state.source = some .unknown ∧ activation.isSome then some .scheduled
    else if state.source = some .scheduled ∧ activation.isNone then some .unknown
    else state.source

/-! ### Reads -/

/-- The two rows that an attempt has read, and what every command derives from them first. -/
structure Reads where
  lockdown : Option (Revisioned LockdownPayload)
  activation : Option (Revisioned ActivationPayload)
  deriving DecidableEq

variable (db : Database)

def Database.reads : Reads := ⟨db.lockdown, db.activation⟩

namespace Reads

variable (reads : Reads)

def current : Option StoredLockdownState := reads.lockdown.map parseLockdownState

def currentActivation : Option LockdownActivation :=
  validLockdownActivation reads.current
    (reads.activation.map fun stored => parseLockdownActivation stored.value)

def previousState : LockdownState := reads.current.elim {} StoredLockdownState.state

def previousSource : Option LockdownSource := lockdownSource reads.current reads.currentActivation

def lastDisabledAt : Instant := reads.current.elim 0 StoredLockdownState.lastDisabledAt

end Reads

/-! ### Writes -/

/-- What an attempt raises. -/
inductive Failure
  /-- `_LockdownCasConflict`. -/
  | casConflict
  /-- The arguments contradict each other. -/
  | valueError
  /-- A value does not pass its model. -/
  | validationError
  deriving DecidableEq

inductive Outcome
  | applied
  | unchanged
  | conditionNotMet
  deriving DecidableEq

structure LockdownTransition where
  previousState : LockdownState
  state : LockdownState
  previousSource : Option LockdownSource
  source : Option LockdownSource
  outcome : Outcome
  cancelledFileTasks : ℕ := 0
  deriving DecidableEq

/-- `OperationReason`. -/
def isReason (reason : String) : Bool := 1 ≤ reason.length && reason.length ≤ 1024

/-- `LockdownState(enabled=..., reason=...)`. -/
def lockdownState (enabled : Bool) (reason : Option String) : Except Failure LockdownState :=
  if reason.all isReason && (enabled || reason.isNone) then .ok ⟨enabled, reason⟩
  else .error .validationError

/-- The source as the payload stores it: an enabled lockdown has one of the persisted sources and a
disabled one has none. -/
def persistedSource (enabled : Bool) : Option LockdownSource → Except Failure (Option PersistedSource)
  | some .manual => if enabled then .ok (some .manual) else .error .validationError
  | some .scheduled => if enabled then .ok (some .scheduled) else .error .validationError
  | some .automatic => if enabled then .ok (some .automatic) else .error .validationError
  | some .unknown => .error .validationError
  | none => if enabled then .error .validationError else .ok none

/-- `_LockdownPayload.model_validate`. -/
def lockdownPayload (state : LockdownState) (source : Option LockdownSource)
    (lastDisabledAt : Instant) : Except Failure LockdownPayload :=
  match persistedSource state.enabled source with
  | .error failure => .error failure
  | .ok source =>
    if lastDisabledAt < 0 then .error .validationError
    else .ok (.v2 state.enabled state.reason lastDisabledAt source)

/-- `_persist_lockdown_state`; returns the revision it writes. -/
def persistLockdownState (current : Option StoredLockdownState) (state : LockdownState)
    (source : Option LockdownSource) (lastDisabledAt : Instant) : Except Failure (ℕ × Database) :=
  match lockdownPayload state source lastDisabledAt with
  | .error failure => .error failure
  | .ok payload =>
    match current with
    | none =>
      match insertAbsent db.lockdown payload with
      | none => .error .casConflict
      | some row => .ok (1, { db with lockdown := some row })
    | some current =>
      match replaceAt db.lockdown current.revision payload with
      | none => .error .casConflict
      | some row => .ok (current.revision + 1, { db with lockdown := some row })

def persistLockdownActivation (current : Option (Revisioned ActivationPayload))
    (activation : LockdownActivation) : Except Failure Database :=
  let payload := ActivationPayload.v2 activation.activationId activation.lockdownRevision
    activation.expiresAt
  match current with
  | none =>
    match insertAbsent db.activation payload with
    | none => .error .casConflict
    | some row => .ok { db with activation := some row }
  | some current =>
    match replaceAt db.activation current.revision payload with
    | none => .error .casConflict
    | some row => .ok { db with activation := some row }

def deleteLockdownActivation (current : Option (Revisioned ActivationPayload)) :
    Except Failure Database :=
  match current with
  | none => .ok db
  | some current =>
    if deletableAt db.activation current.revision then .ok { db with activation := none }
    else .error .casConflict

/-- `_cancel_pending_file_tasks`; returns the number of cancelled tasks. -/
def cancelPendingFileTasks : ℕ × Database :=
  ((db.fileTasks.entries.filter fun row => row.2.status.isActive).length,
    { db with fileTasks := db.fileTasks.update fun _ task => cancelFileTask task })

/-! ### Commands -/

/-- The return of an attempt that writes nothing. -/
def Reads.kept (reads : Reads) (outcome : Outcome) : LockdownTransition :=
  { previousState := reads.previousState
    state := reads.previousState
    previousSource := reads.previousSource
    source := reads.previousSource
    outcome := outcome }

/-- The writes that all commands but `apply_scheduled_lockdown` end with: the state, the
activation it supersedes and, when the lockdown is turned on, the file tasks. -/
def supersede (reads : Reads) (db : Database) (state : LockdownState)
    (source : Option LockdownSource) (lastDisabledAt : Instant) (turnsOn : Bool) :
    Except Failure (LockdownTransition × Database) :=
  match persistLockdownState db reads.current state source lastDisabledAt with
  | .error failure => .error failure
  | .ok (_, db) =>
    match deleteLockdownActivation db reads.activation with
    | .error failure => .error failure
    | .ok db =>
      let cancelled := if turnsOn then cancelPendingFileTasks db else (0, db)
      .ok ({ previousState := reads.previousState
             state := state
             previousSource := reads.previousSource
             source := source
             outcome := .applied
             cancelledFileTasks := cancelled.1 }, cancelled.2)

/-- `apply_lockdown`.  A `reason` that is not given is `none`. -/
def applyLockdown (reads : Reads) (db : Database) (now : Instant) (status : Bool)
    (reason : Option (Option String)) (onlyIfInactive takeOverScheduled : Bool) :
    Except Failure (LockdownTransition × Database) :=
  let previousState := reads.previousState
  -- `time.time()` is read only for a lockdown that ends
  let apply (state : LockdownState) (source : Option LockdownSource) :=
    let statusChanged := state.enabled != previousState.enabled
    supersede reads db state source
      (if statusChanged && !status then now else reads.lastDisabledAt) (statusChanged && status)
  if !status && onlyIfInactive then .error .valueError
  else if takeOverScheduled && (!status || !onlyIfInactive) then .error .valueError
  else if !status && reason.isSome then .error .valueError
  else if status && onlyIfInactive && previousState.enabled then
    if takeOverScheduled && reads.currentActivation.isSome then
      apply previousState (some .automatic)
    else .ok (reads.kept .conditionNotMet, db)
  else
    let nextReason :=
      reason.getD (if status && previousState.enabled then previousState.reason else none)
    match lockdownState status nextReason with
    | .error failure => .error failure
    | .ok state =>
      if state = previousState then .ok (reads.kept .unchanged, db)
      else
        apply state
          (if !state.enabled then none
          else if reads.previousSource = some .automatic then some .automatic
          else some .manual)

def applyAutomaticLockdown (reads : Reads) (db : Database) (reason : String) :
    Except Failure (LockdownTransition × Database) :=
  if reads.previousSource = some .automatic ∨ reads.previousSource = some .unknown then
    .ok (reads.kept .conditionNotMet, db)
  else if reads.previousState.enabled then
    supersede reads db reads.previousState (some .automatic) reads.lastDisabledAt false
  else
    match lockdownState true (some reason) with
    | .error failure => .error failure
    | .ok state => supersede reads db state (some .automatic) reads.lastDisabledAt true

/-- The models of `activation_id` and `expires_at`. -/
def isCandidate (activationId : String) (expiresAt : Option Instant) : Bool :=
  1 ≤ activationId.length && activationId.length ≤ 128 && expiresAt.all (0 ≤ ·)

def applyScheduledLockdown (reads : Reads) (db : Database) (now : Instant) (activationId : String)
    (expiresAt : Option Instant) (reason : Option String) :
    Except Failure (LockdownTransition × Database) :=
  if !isCandidate activationId expiresAt then .error .validationError
  else if expiresAt.any (· ≤ now) then .ok (reads.kept .conditionNotMet, db)
  else if reads.previousState.enabled then
    .ok (reads.kept
      (if reads.currentActivation.any fun activation =>
          activation.activationId == activationId && activation.expiresAt == expiresAt then .unchanged
        else .conditionNotMet), db)
  else
    match lockdownState true reason with
    | .error failure => .error failure
    | .ok state =>
      match persistLockdownState db reads.current state (some .scheduled) reads.lastDisabledAt with
      | .error failure => .error failure
      | .ok (revision, db) =>
        match persistLockdownActivation db reads.activation
          ⟨activationId, revision, expiresAt⟩ with
        | .error failure => .error failure
        | .ok db =>
          let cancelled := cancelPendingFileTasks db
          .ok ({ previousState := reads.previousState
                 state := state
                 previousSource := reads.previousSource
                 source := some .scheduled
                 outcome := .applied
                 cancelledFileTasks := cancelled.1 }, cancelled.2)

def disableScheduledLockdown (reads : Reads) (db : Database) (now : Instant) :
    Except Failure (LockdownTransition × Database) :=
  if !reads.previousState.enabled then .ok (reads.kept .unchanged, db)
  else if reads.previousSource = some .manual ∨ reads.previousSource = some .scheduled then
    supersede reads db {} none now false
  else .ok (reads.kept .conditionNotMet, db)

def expireScheduledLockdown (reads : Reads) (db : Database) (now : Instant) (activationId : String) :
    Except Failure (LockdownTransition × Database) :=
  if reads.currentActivation.any fun activation =>
      activation.activationId == activationId && activation.expiresAt.any (· ≤ now) then
    supersede reads db {} none now false
  else .ok (reads.kept .conditionNotMet, db)

/-! ### Calls -/

inductive Command
  | apply (status : Bool) (reason : Option (Option String))
      (onlyIfInactive takeOverScheduled : Bool)
  | automatic (reason : String)
  | schedule (activationId : String) (expiresAt : Option Instant) (reason : Option String)
  | disable
  | expire (activationId : String)
  deriving DecidableEq

def Command.attempt (command : Command) (reads : Reads) (db : Database) (now : Instant) :
    Except Failure (LockdownTransition × Database) :=
  match command with
  | .apply status reason onlyIfInactive takeOverScheduled =>
    applyLockdown reads db now status reason onlyIfInactive takeOverScheduled
  | .automatic reason => applyAutomaticLockdown reads db reason
  | .schedule activationId expiresAt reason =>
    applyScheduledLockdown reads db now activationId expiresAt reason
  | .disable => disableScheduledLockdown reads db now
  | .expire activationId => expireScheduledLockdown reads db now activationId

/-- How far an attempt is.  The rows are read one after the other. -/
inductive Phase
  | begun
  | stateRead (lockdown : Option (Revisioned LockdownPayload))
  | read (reads : Reads)
  deriving DecidableEq

structure Call where
  command : Command
  phase : Phase := .begun
  attempt : ℕ := 0
  deriving DecidableEq

abbrev CallId := ℕ

/-- A transition that was committed. -/
structure Record where
  command : Command
  now : Instant
  transition : LockdownTransition
  deriving DecidableEq

structure System where
  db : Database
  calls : CallId → Option Call
  /-- The committed transitions, the latest first. -/
  history : List Record

def System.initial : System := ⟨.empty, fun _ => none, []⟩

instance : Inhabited System := ⟨.initial⟩

variable (system : System)

def System.setCall (id : CallId) (call : Option Call) : System :=
  { system with calls := Function.update system.calls id call }

inductive Action
  | call (id : CallId) (command : Command)
  | readState (id : CallId)
  | readActivation (id : CallId)
  /-- The attempt decides, reads the clock and commits or rolls back. -/
  | commit (id : CallId) (now : Instant)
  /-- Any other transaction on file tasks. -/
  | changeFileTasks (fileTasks : Table FileTaskId FileTask)

def lockdownCasMaxAttempts : ℕ := 8

/-- `_retry_lockdown_cas`: the call as it goes on after a conflict, unless it raises. -/
def retryLockdownCas (call : Call) : Option Call :=
  if lockdownCasMaxAttempts ≤ call.attempt + 1 then none
  else some { call with phase := .begun, attempt := call.attempt + 1 }

/-- The system after an attempt, with what a transaction that raises leaves. -/
def System.finish (id : CallId) (call : Call) (now : Instant) :
    Except Failure (LockdownTransition × Database) → System
  | .error .casConflict => system.setCall id (retryLockdownCas call)
  | .error _ => system.setCall id none
  | .ok (transition, db) =>
    { system.setCall id none with
      db := db
      history :=
        if transition.outcome = .applied then ⟨call.command, now, transition⟩ :: system.history
        else system.history }

def step : Action → Option System
  | .call id command =>
    match system.calls id with
    | some _ => none
    | none => some (system.setCall id (some { command := command }))
  | .readState id =>
    match system.calls id with
    | some { command := command, phase := .begun, attempt := attempt } =>
      some (system.setCall id (some ⟨command, .stateRead system.db.lockdown, attempt⟩))
    | _ => none
  | .readActivation id =>
    match system.calls id with
    | some { command := command, phase := .stateRead lockdown, attempt := attempt } =>
      some (system.setCall id (some ⟨command, .read ⟨lockdown, system.db.activation⟩, attempt⟩))
    | _ => none
  | .commit id now =>
    match system.calls id with
    | some { command := command, phase := .read reads, attempt := attempt } =>
      let call : Call := ⟨command, .read reads, attempt⟩
      some (system.finish id call now (command.attempt reads system.db now))
    | _ => none
  | .changeFileTasks fileTasks =>
    some { system with db := { system.db with fileTasks := fileTasks } }

end Cfms.Operations
