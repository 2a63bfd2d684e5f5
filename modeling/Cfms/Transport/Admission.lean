import Cfms.Lib.Counter
import Cfms.Lib.Process

/-!
# Admission of connections and requests

`AdmissionController` of `include/transport/admission.py`, and the two functions of
`include/transport/router.py` that take and give back its slots: `handle_connection`, one thread
for each connection, and `_handle_request_with_admission`, one thread for each request.  They are
programs over the calls they make, every one of which may raise.

The loop that accepts streams ends in a run after finitely many rounds or goes on waiting; the
number of rounds is a parameter, and every result is for all of them.
-/

namespace Cfms.Transport

open Lib Lib.Process Lib.Run

/-! ### The controller -/

/-- `AdmissionControlPolicy`, as far as the controller uses it. -/
structure AdmissionControlPolicy where
  maxConnections : ℤ
  maxConnectionsPerIp : ℤ
  maxInflightRequests : ℤ
  maxInflightRequestsPerConnection : ℤ
  busyRetryAfterSeconds : ℤ
  deriving DecidableEq

structure AdmissionDecision where
  allowed : Bool
  scope : Option String := none
  retryAfterSeconds : ℤ := 0
  deriving DecidableEq

structure AdmissionController where
  connections : ℤ := 0
  connectionsByIp : Table String ℤ := ∅
  requests : ℤ := 0
  requestsByConnection : Table ℕ ℤ := ∅

namespace AdmissionController

/-- `acquire_connection`, under the policy in force. -/
def acquireConnection (controller : AdmissionController) (policy : AdmissionControlPolicy)
    (ip : String) : AdmissionDecision × AdmissionController :=
  if controller.connections ≥ policy.maxConnections then
    (⟨false, some "server_connections", policy.busyRetryAfterSeconds⟩, controller)
  else if (controller.connectionsByIp.lookup ip).getD 0 ≥ policy.maxConnectionsPerIp then
    (⟨false, some "ip_connections", policy.busyRetryAfterSeconds⟩, controller)
  else
    ({ allowed := true },
      { controller with
        connections := controller.connections + 1
        connectionsByIp := Counter.increment ip controller.connectionsByIp })

/-- `release_connection`; a key that is missing raises after the total went down. -/
def releaseConnection (controller : AdmissionController) (ip : String) :
    Bool × AdmissionController :=
  let controller := { controller with connections := controller.connections - 1 }
  match Counter.decrement ip controller.connectionsByIp with
  | none => (false, controller)
  | some connectionsByIp => (true, { controller with connectionsByIp := connectionsByIp })

/-- `acquire_request`, under the policy in force. -/
def acquireRequest (controller : AdmissionController) (policy : AdmissionControlPolicy)
    (connection : ℕ) : AdmissionDecision × AdmissionController :=
  if controller.requests ≥ policy.maxInflightRequests then
    (⟨false, some "server_concurrency", policy.busyRetryAfterSeconds⟩, controller)
  else if (controller.requestsByConnection.lookup connection).getD 0 ≥
      policy.maxInflightRequestsPerConnection then
    (⟨false, some "connection_concurrency", policy.busyRetryAfterSeconds⟩, controller)
  else
    ({ allowed := true },
      { controller with
        requests := controller.requests + 1
        requestsByConnection := Counter.increment connection controller.requestsByConnection })

def releaseRequest (controller : AdmissionController) (connection : ℕ) :
    Bool × AdmissionController :=
  let controller := { controller with requests := controller.requests - 1 }
  match Counter.decrement connection controller.requestsByConnection with
  | none => (false, controller)
  | some requestsByConnection =>
    (true, { controller with requestsByConnection := requestsByConnection })

end AdmissionController

/-! ### Calls -/

/-- The exceptions that the handlers tell apart. -/
inductive RouterFailure
  /-- `SQLAlchemyTimeoutError`. -/
  | databasePool
  | other
  deriving DecidableEq

/-- Calls whose result does not matter. -/
inductive RouterCall
  | logRejection
  | closeRejected
  -- between the slot and the `try`
  | getClientCertSubject
  | logRemoteAddress
  | websocketSocket
  | logTlsConnection
  -- inside the `try`
  | loadPolicy
  | createMultiplexer
  | addClient
  | extOnConnect
  | sendBusy
  -- in the `finally`
  | closeMultiplexer
  | closeWebsocket
  | discardClient
  | extPostDisconnect
  -- in a request thread
  | handleRequest
  | logDatabasePool
  | sendDatabaseBusy
  deriving DecidableEq

inductive RouterOp
  | getClientIp
  | acquireConnection (ip : String)
  | releaseConnection (ip : String)
  /-- `isinstance(sock, ssl.SSLSocket)`. -/
  | isTls
  /-- A new stream, or the end of the connection. -/
  | acceptStream
  | acquireRequest
  | releaseRequest
  /-- The start of a thread that runs `_handle_request_with_admission`. -/
  | startThread
  /-- Waiting for a stream beyond the end of the run. -/
  | waitOn
  | plain (call : RouterCall)
  deriving DecidableEq

@[reducible] def RouterOp.Result : RouterOp → Type
  | .getClientIp => String
  | .acquireConnection _ => AdmissionDecision
  | .releaseConnection _ => Unit
  | .isTls => Bool
  | .acceptStream => Bool
  | .acquireRequest => AdmissionDecision
  | .releaseRequest => Unit
  | .startThread => Unit
  | .waitOn => Unit
  | .plain _ => Unit

@[reducible] def routerSignature : Signature := ⟨RouterOp, RouterOp.Result⟩

abbrev RouterProgram := Proc routerSignature RouterFailure

def perform (op : RouterOp) : RouterProgram op.Result := @Proc.perform routerSignature RouterFailure op

def call (c : RouterCall) : RouterProgram Unit := perform (.plain c)

def callIf (condition : Bool) (c : RouterCall) : RouterProgram Unit :=
  if condition then call c else pure ()

/-! ### The programs -/

/-- What `handle_connection` does between the slot and the `try`. -/
def inspectConnection : RouterProgram Unit := do
  call .getClientCertSubject
  call .logRemoteAddress
  call .websocketSocket
  let tls ← perform .isTls
  callIf tls .logTlsConnection

/-- The loop of `handle_connection`. -/
def acceptStreams : ℕ → RouterProgram Unit
  | 0 => perform .waitOn
  | rounds + 1 => do
    let stream ← perform .acceptStream
    if !stream then pure ()
    else
      let admission ← perform .acquireRequest
      if !admission.allowed then
        call .sendBusy
        acceptStreams rounds
      else
        tryCatch (perform .startThread) fun failure => do
          perform .releaseRequest
          throw failure
        acceptStreams rounds

/-- The `finally` block of `handle_connection`. -/
def finishConnection (ip : String) (hasMultiplexer extOnConnectTriggered : Bool) :
    RouterProgram Unit := do
  callIf hasMultiplexer .closeMultiplexer
  call .closeWebsocket
  callIf hasMultiplexer .discardClient
  callIf extOnConnectTriggered .extPostDisconnect
  perform (.releaseConnection ip)

/-- Code of the `try` block while the two variables of the `finally` block have the given values. -/
def guarded (ip : String) (hasMultiplexer extOnConnectTriggered : Bool) (body : RouterProgram Unit) :
    RouterProgram Unit :=
  tryCatch body fun failure => do
    finishConnection ip hasMultiplexer extOnConnectTriggered
    throw failure

/-- `handle_connection` with a slot. -/
def serveConnection (ip : String) (rounds : ℕ) : RouterProgram Unit := do
  inspectConnection
  guarded ip false false do
    call .loadPolicy
    call .createMultiplexer
  guarded ip true false do
    call .addClient
    call .extOnConnect
  guarded ip true true (acceptStreams rounds)
  finishConnection ip true true

def handleConnection (rounds : ℕ) : RouterProgram Unit := do
  let ip ← perform .getClientIp
  let admission ← perform (.acquireConnection ip)
  if !admission.allowed then
    call .logRejection
    call .closeRejected
  else serveConnection ip rounds

def handleRequestWithAdmission : RouterProgram Unit := do
  let body : RouterProgram Unit :=
    tryCatch (call .handleRequest) fun failure =>
      match failure with
      | .databasePool => do
        call .loadPolicy
        call .logDatabasePool
        call .sendDatabaseBusy
      | .other => throw .other
  tryCatch body fun failure => do
    perform .releaseRequest
    throw failure
  perform .releaseRequest

/-! ### The server -/

/-- What has happened to the slots, with the policy and the counts at an acquisition. -/
inductive SlotEvent
  | acquiredConnection (connection : ℕ) (policy : AdmissionControlPolicy) (total perIp : ℤ)
  | releasedConnection (connection : ℕ)
  | acquiredRequest (connection : ℕ) (policy : AdmissionControlPolicy) (total perConnection : ℤ)
  | releasedRequest (connection : ℕ)
  deriving DecidableEq

/-- An acquisition stays within the limits of the policy in force. -/
def SlotEvent.withinLimits : SlotEvent → Bool
  | .acquiredConnection _ policy total perIp =>
    decide (total ≤ policy.maxConnections) && decide (perIp ≤ policy.maxConnectionsPerIp)
  | .acquiredRequest _ policy total perConnection =>
    decide (total ≤ policy.maxInflightRequests) &&
      decide (perConnection ≤ policy.maxInflightRequestsPerConnection)
  | _ => true

def SlotEvent.acquiresConnection (connection : ℕ) : SlotEvent → Bool
  | .acquiredConnection c _ _ _ => c == connection
  | _ => false

def SlotEvent.releasesConnection (connection : ℕ) : SlotEvent → Bool
  | .releasedConnection c => c == connection
  | _ => false

def SlotEvent.acquiresRequest (connection : ℕ) : SlotEvent → Bool
  | .acquiredRequest c _ _ _ => c == connection
  | _ => false

def SlotEvent.releasesRequest (connection : ℕ) : SlotEvent → Bool
  | .releasedRequest c => c == connection
  | _ => false

structure Slots where
  controller : AdmissionController := {}
  history : List SlotEvent := []
  heldConnections : List (ℕ × String) := []
  heldRequests : List ℕ := []

/-- How the surroundings answer a call. -/
inductive RouterAnswer
  | raises (failure : RouterFailure)
  | returns
  | returnsBool (value : Bool)
  | returnsIp (ip : String)
  | underPolicy (policy : AdmissionControlPolicy)
  deriving DecidableEq

def Slots.acquireConnection (slots : Slots) (connection : ℕ) (policy : AdmissionControlPolicy)
    (ip : String) : AdmissionDecision × Slots :=
  let result := slots.controller.acquireConnection policy ip
  if result.1.allowed then
    (result.1,
      { slots with
        controller := result.2
        history := .acquiredConnection connection policy result.2.connections
          ((result.2.connectionsByIp.lookup ip).getD 0) :: slots.history
        heldConnections := (connection, ip) :: slots.heldConnections })
  else (result.1, { slots with controller := result.2 })

def Slots.releaseConnection (slots : Slots) (connection : ℕ) (ip : String) :
    Except RouterFailure Unit × Slots :=
  let result := slots.controller.releaseConnection ip
  (if result.1 then .ok () else .error .other,
    { slots with
      controller := result.2
      history := .releasedConnection connection :: slots.history
      heldConnections := slots.heldConnections.erase (connection, ip) })

def Slots.acquireRequest (slots : Slots) (connection : ℕ) (policy : AdmissionControlPolicy) :
    AdmissionDecision × Slots :=
  let result := slots.controller.acquireRequest policy connection
  if result.1.allowed then
    (result.1,
      { slots with
        controller := result.2
        history := .acquiredRequest connection policy result.2.requests
          ((result.2.requestsByConnection.lookup connection).getD 0) :: slots.history
        heldRequests := connection :: slots.heldRequests })
  else (result.1, { slots with controller := result.2 })

def Slots.releaseRequest (slots : Slots) (connection : ℕ) : Except RouterFailure Unit × Slots :=
  let result := slots.controller.releaseRequest connection
  (if result.1 then .ok () else .error .other,
    { slots with
      controller := result.2
      history := .releasedRequest connection :: slots.history
      heldRequests := slots.heldRequests.erase connection })

/-- The answer to a call of a thread of the connection.  The controller answers for itself; reading
the policy may raise before it does. -/
def respond (connection : ℕ) (slots : Slots) : (op : RouterOp) → RouterAnswer →
    Option (Except RouterFailure op.Result × Slots)
  | .acquireConnection ip, .underPolicy policy =>
    some ((slots.acquireConnection connection policy ip).map .ok id)
  | .acquireConnection _, .raises failure => some (.error failure, slots)
  | .releaseConnection ip, .returns => some (slots.releaseConnection connection ip)
  | .acquireRequest, .underPolicy policy =>
    some ((slots.acquireRequest connection policy).map .ok id)
  | .acquireRequest, .raises failure => some (.error failure, slots)
  | .releaseRequest, .returns => some (slots.releaseRequest connection)
  | .getClientIp, .returnsIp ip => some (.ok ip, slots)
  | .getClientIp, .raises failure => some (.error failure, slots)
  | .isTls, .returnsBool value => some (.ok value, slots)
  | .isTls, .raises failure => some (.error failure, slots)
  | .acceptStream, .returnsBool value => some (.ok value, slots)
  | .acceptStream, .raises failure => some (.error failure, slots)
  | .startThread, .returns => some (.ok (), slots)
  | .startThread, .raises failure => some (.error failure, slots)
  | .plain _, .returns => some (.ok (), slots)
  | .plain _, .raises failure => some (.error failure, slots)
  | _, _ => none

/-- The call that a thread makes next. -/
def nextOp? (program : RouterProgram Unit) : Option RouterOp := program.next?

structure ConnectionThreads where
  main : RouterProgram Unit
  requests : List (RouterProgram Unit) := []

structure RouterServer where
  slots : Slots := {}
  connections : Table ℕ ConnectionThreads := ∅

inductive RouterAction
  | connect (connection rounds : ℕ)
  | main (connection : ℕ) (answer : RouterAnswer)
  | request (connection thread : ℕ) (answer : RouterAnswer)
  deriving DecidableEq

def ConnectionThreads.afterMain (threads : ConnectionThreads) (main : RouterProgram Unit)
    (answer : RouterAnswer) : ConnectionThreads :=
  { main := main
    requests :=
      if nextOp? threads.main = some .startThread ∧ answer = .returns then
        threads.requests ++ [handleRequestWithAdmission]
      else threads.requests }

variable (s : RouterServer)

def routerStep : RouterAction → Option RouterServer
  | .connect connection rounds => do
    let connections ← s.connections.insertNew connection { main := handleConnection rounds }
    return { s with connections }
  | .main connection answer => do
    let threads ← s.connections.lookup connection
    let result ← advance (respond connection) (threads.main, s.slots) answer
    return {
      slots := result.2
      connections := s.connections.insert connection (threads.afterMain result.1 answer) }
  | .request connection thread answer => do
    let threads ← s.connections.lookup connection
    let program ← threads.requests[thread]?
    let result ← advance (respond connection) (program, s.slots) answer
    return {
      slots := result.2
      connections := s.connections.insert connection
        { threads with requests := threads.requests.set thread result.1 } }

/-- The calls that no handler protects: those between the slot and the `try`, and those of the
`finally` block before the release. -/
def RouterOp.isUnprotected : RouterOp → Bool
  | .isTls => true
  | .plain .getClientCertSubject | .plain .logRemoteAddress | .plain .websocketSocket
  | .plain .logTlsConnection => true
  | .plain .closeMultiplexer | .plain .closeWebsocket | .plain .discardClient
  | .plain .extPostDisconnect => true
  | _ => false

/-- The condition on a step: no unprotected call raises. -/
def keepsSlots : RouterAction → Bool
  | .main connection (.raises _) =>
    !(s.connections.lookup connection).any fun threads =>
      (nextOp? threads.main).any RouterOp.isUnprotected
  | _ => true

/-- The thread has ended. -/
def hasEnded (program : RouterProgram Unit) : Bool := (nextOp? program).isNone

def ConnectionThreads.haveEnded (threads : ConnectionThreads) : Bool :=
  hasEnded threads.main && threads.requests.all hasEnded

end Cfms.Transport
