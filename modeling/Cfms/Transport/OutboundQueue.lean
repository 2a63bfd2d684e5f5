import Cfms.Lib.Run
import Mathlib.Data.List.ReduceOption

/-!
# The outbound queue of a connection

The sending side of `MultiplexedConnection`, step by step: `_enqueue_frame`, `_put_outbound` and
`_wait_for_write` in the threads that send, `_send_loop` in the writer, and `close` in any thread.
A step is one access to the queue, to an event or to a field that is read without the lock;
`_send_state_lock` is explicit, so that the writer takes frames off the queue while another thread
holds the lock.

The lists `accepted`, `passed` and `delivered` are kept for the statements: the frames that were
queued, those that were passed to `ws.send`, and those for which that call returned.
`Multiplexing` has the same queue with the critical sections of the whole connection as its steps.
-/

namespace Cfms.Transport.Outbound

open Lib.Run

/-! ### Frames and threads -/

/-- A call of `_enqueue_frame`, and the `_OutboundFrame` that it makes. -/
abbrev CallId := ℕ

inductive SendError
  | connectionClosed
  /-- What `ws.send` raises. -/
  | websocket (code : ℕ)
  deriving DecidableEq

/-- Where a call of `_enqueue_frame` is. -/
inductive CallPhase
  /-- Before the lock. -/
  | queueing
  /-- In `put`, with the lock. -/
  | putting
  /-- In `done.wait`. -/
  | waiting
  /-- The wait has timed out; `_writer_error` is read next. -/
  | readingError
  /-- `_is_running` is read next. -/
  | readingRunning
  /-- `_wait_for_write` has returned. -/
  | leaving
  | returned (result : Bool)
  | raised
  deriving DecidableEq

/-- The frame of the call is not in the queue yet. -/
def CallPhase.isQueueing : CallPhase → Bool
  | .queueing | .putting => true
  | _ => false

structure Call where
  phase : CallPhase := .queueing
  /-- The event, for a call that waits for the write. -/
  done : Option Bool
  exception : Option SendError := none
  deriving DecidableEq

def Call.waits (call : Call) : Bool := call.done.isSome

/-- Where `_fail_pending_sends` is. -/
inductive DrainPhase
  | taking
  /-- A frame is taken and has no exception yet. -/
  | failing (id : CallId)
  /-- The exception is set and the event is not. -/
  | signalling (id : CallId)
  deriving DecidableEq

/-- Where a call of `close` is. -/
inductive ClosePhase
  | entering
  | draining (error : SendError) (phase : DrainPhase)
  | posting
  | closed
  deriving DecidableEq

/-- The thread that calls `close`. -/
inductive Closer
  | thread (n : ℕ)
  | writer
  deriving DecidableEq

inductive WriterPhase
  | getting
  | checking (id : CallId)
  | sending (id : CallId)
  | succeeded (id : CallId)
  | raising (id : CallId) (error : SendError)
  | signalling (id : CallId) (error : SendError)
  | recording (error : SendError)
  | closing
  | finishing
  | draining (error : SendError) (phase : DrainPhase)
  | stopped
  deriving DecidableEq

inductive Holder
  | call (id : CallId)
  | closer (closer : Closer)
  deriving DecidableEq

structure Connection where
  isRunning : Bool := true
  writerError : Option SendError := none
  closeStarted : Bool := false
  /-- `_send_state_lock`. -/
  lock : Option Holder := none
  /-- `_pending_outbound_frames`; `none` tells the writer to stop. -/
  queue : List (Option CallId) := []
  calls : CallId → Option Call := fun _ => none
  closers : Closer → Option ClosePhase := fun _ => none
  writer : WriterPhase := .getting
  accepted : List CallId := []
  passed : List CallId := []
  delivered : List CallId := []
  /-- A call of `close` has returned. -/
  closeReturned : Bool := false

variable (c : Connection)

namespace Connection

def setCall (id : CallId) (call : Call) : Connection :=
  { c with calls := Function.update c.calls id (some call) }

/-- A change to the frame of a call. -/
def modifyCall (id : CallId) (f : Call → Call) : Connection :=
  { c with calls := Function.update c.calls id ((c.calls id).map f) }

/-- `item.exception = error`. -/
def setException (id : CallId) (error : SendError) : Connection :=
  c.modifyCall id fun call => { call with exception := some error }

/-- `item.done.set()`, if there is an event. -/
def setDone (id : CallId) : Connection :=
  c.modifyCall id fun call => { call with done := call.done.map fun _ => true }

def setCloser (closer : Closer) (phase : ClosePhase) : Connection :=
  { c with closers := Function.update c.closers closer (some phase) }

end Connection

/-- `queue.Queue(OUTBOUND_QUEUE_SIZE)`. -/
def outboundQueueSize : ℕ := 1024

/-! ### Senders -/

inductive CallChoice
  | proceed
  /-- The wait for the queue or for the event times out. -/
  | timeout
  /-- The deadline of the call has passed. -/
  | giveUp
  deriving DecidableEq

/-- `_can_send_nowait`; `_raise_if_send_unavailable` raises when it is false. -/
def Connection.canSend : Bool := c.isRunning && c.writerError.isNone

/-- The next step of a call of `_enqueue_frame`. -/
def callStep (id : CallId) (call : Call) : CallPhase → CallChoice → Option Connection
  | .queueing, .proceed =>
    if c.lock.isSome then none
    else if c.canSend then
      some { c.setCall id { call with phase := .putting } with lock := some (.call id) }
    else some (c.setCall id { call with phase := if call.waits then .raised else .returned false })
  | .queueing, .giveUp =>
    if call.waits then some (c.setCall id { call with phase := .raised }) else none
  | .putting, .proceed =>
    if c.queue.length < outboundQueueSize then
      some
        { c.setCall id { call with phase := if call.waits then .waiting else .returned true } with
          lock := none
          queue := c.queue ++ [some id]
          accepted := c.accepted ++ [id] }
    else none
  | .putting, .timeout =>
    if c.queue.length < outboundQueueSize then none
    else
      some
        { c.setCall id { call with phase := if call.waits then .queueing else .returned false } with
          lock := none }
  | .waiting, .proceed =>
    if call.done = some true then some (c.setCall id { call with phase := .leaving }) else none
  | .waiting, .timeout =>
    if call.done = some true then none else some (c.setCall id { call with phase := .readingError })
  | .readingError, .proceed =>
    match c.writerError with
    | some error => some (c.setCall id { call with phase := .leaving, exception := some error })
    | none => some (c.setCall id { call with phase := .readingRunning })
  | .readingRunning, .proceed =>
    if c.isRunning then some (c.setCall id { call with phase := .waiting })
    else
      some (c.setCall id { call with phase := .leaving, exception := some .connectionClosed })
  | .leaving, .proceed =>
    some (c.setCall id
      { call with phase := if call.exception.isSome then .raised else .returned true })
  | _, _ => none

/-! ### Closing -/

/-- The next step of `_fail_pending_sends`; it has returned when there is no next phase. -/
def drainStep (error : SendError) : DrainPhase → Connection × Option DrainPhase
  | .taking =>
    match c.queue with
    | [] => (c, none)
    | none :: rest => ({ c with queue := rest }, some .taking)
    | some id :: rest => ({ c with queue := rest }, some (.failing id))
  | .failing id => (c.setException id error, some (.signalling id))
  | .signalling id => (c.setDone id, some .taking)

/-- The next step of a call of `close`, up to the end of its critical section. -/
def closeStep (closer : Closer) : ClosePhase → Option Connection
  | .entering =>
    if c.lock.isSome then none
    else if c.closeStarted then some { c.setCloser closer .closed with closeReturned := true }
    else
      some
        { c.setCloser closer (.draining (c.writerError.getD .connectionClosed) .taking) with
          lock := some (.closer closer)
          closeStarted := true
          isRunning := false }
  | .draining error phase =>
    match drainStep c error phase with
    | (c', some phase') => some (c'.setCloser closer (.draining error phase'))
    | (c', none) => some (c'.setCloser closer .posting)
  | .posting =>
    some
      { c.setCloser closer .closed with
        queue := if c.queue.length < outboundQueueSize then c.queue ++ [none] else c.queue
        lock := none
        closeReturned := true }
  | .closed => none

/-! ### The writer -/

/-- The next step of `_send_loop`; `outcome` is what `ws.send` raises, if it raises. -/
def writerStep (outcome : Option ℕ) : WriterPhase → Option Connection
  | .getting =>
    match c.queue with
    | [] => none
    | none :: rest => some { c with queue := rest, writer := .finishing }
    | some id :: rest => some { c with queue := rest, writer := .checking id }
  | .checking id =>
    if c.isRunning then some { c with writer := .sending id, passed := c.passed ++ [id] }
    else some { c with writer := .raising id .connectionClosed }
  | .sending id =>
    match outcome with
    | none => some { c with writer := .succeeded id, delivered := c.delivered ++ [id] }
    | some code => some { c with writer := .raising id (.websocket code) }
  | .succeeded id => some { c.setDone id with writer := .getting }
  | .raising id error => some { c.setException id error with writer := .signalling id error }
  | .signalling id error => some { c.setDone id with writer := .recording error }
  | .recording error =>
    if c.lock.isSome then none
    else
      some
        { c.setCloser .writer .entering with
          writerError := some error
          isRunning := false
          writer := .closing }
  | .closing =>
    match c.closers .writer with
    | some .closed => some { c with writer := .finishing }
    | some phase => closeStep c .writer phase
    | none => none
  | .finishing => some { c with writer := .draining (c.writerError.getD .connectionClosed) .taking }
  | .draining error phase =>
    match drainStep c error phase with
    | (c', some phase') => some { c' with writer := .draining error phase' }
    | (c', none) => some { c' with writer := .stopped }
  | .stopped => none

/-! ### All threads -/

inductive Action
  /-- A thread calls `_enqueue_frame`. -/
  | send (id : CallId) (waitForWrite : Bool)
  | call (id : CallId) (choice : CallChoice)
  | writer (outcome : Option ℕ)
  /-- A thread calls `close`. -/
  | beginClose (n : ℕ)
  | close (n : ℕ)
  deriving DecidableEq

def step : Action → Option Connection
  | .send id waitForWrite =>
    match c.calls id with
    | some _ => none
    | none => some (c.setCall id { done := if waitForWrite then some false else none })
  | .call id choice => (c.calls id).bind fun call => callStep c id call call.phase choice
  | .writer outcome => writerStep c outcome c.writer
  | .beginClose n =>
    match c.closers (.thread n) with
    | some _ => none
    | none => some (c.setCloser (.thread n) .entering)
  | .close n => (c.closers (.thread n)).bind (closeStep c (.thread n))

/-- A connection after `__init__`. -/
def initial : Connection := {}

end Cfms.Transport.Outbound
