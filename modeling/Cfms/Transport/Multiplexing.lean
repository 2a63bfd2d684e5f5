import Mathlib.Algebra.Group.Nat.Defs
import Mathlib.Logic.Function.Basic

/-!
# Multiplexed connections

`MultiplexedConnection` of `include/transport/multiplexing.py`: many streams over one WebSocket.
The dispatcher thread reads frames and routes each by its stream identifier, the writer thread
sends queued frames, and the threads of the server send, receive, open and accept streams and close
the connection.  A step of the model is one critical section of one of these threads, or one access
to a queue.

Clients open streams with odd identifiers, by their first frame; the server opens even ones.
-/

namespace Cfms.Transport

/-! ### Frames -/

inductive FrameType
  | process
  | conclusion
  deriving DecidableEq

def FrameType.value : FrameType → UInt8
  | .process => 0
  | .conclusion => 1

/-- `FrameType(value)`. -/
def frameTypeOf (value : UInt8) : Option FrameType :=
  if value = 0 then some .process else if value = 1 then some .conclusion else none

structure Frame where
  streamId : ℕ
  frameType : FrameType
  data : List UInt8
  deriving DecidableEq

inductive InvalidFrame
  | corrupted (actualSize : ℕ)
  | frameType (streamId : ℕ) (value : UInt8)
  deriving DecidableEq

/-- `encode_frame`, for the identifiers that fit the header. -/
def encodeFrame (frame : Frame) : List UInt8 :=
  .ofNat (frame.streamId / 2 ^ 24) :: .ofNat (frame.streamId / 2 ^ 16) ::
    .ofNat (frame.streamId / 2 ^ 8) :: .ofNat frame.streamId :: frame.frameType.value :: frame.data

def decodeFrame : List UInt8 → Except InvalidFrame Frame
  | b₃ :: b₂ :: b₁ :: b₀ :: value :: data =>
    let streamId := b₃.toNat * 2 ^ 24 + b₂.toNat * 2 ^ 16 + b₁.toNat * 2 ^ 8 + b₀.toNat
    match frameTypeOf value with
    | none => .error (.frameType streamId value)
    | some frameType => .ok ⟨streamId, frameType, data⟩
  | raw => .error (.corrupted raw.length)

theorem frameTypeOf_eq_some {value : UInt8} {frameType : FrameType} :
    frameTypeOf value = some frameType ↔ value = frameType.value := by
  cases frameType <;> grind [frameTypeOf, FrameType.value]

/-- **The frame codec is exact.**  A payload is decoded to a frame exactly if the frame has an
identifier of 32 bits and encodes to the payload. -/
theorem decodeFrame_eq_ok_iff (raw : List UInt8) (frame : Frame) :
    decodeFrame raw = .ok frame ↔ frame.streamId < 2 ^ 32 ∧ raw = encodeFrame frame := by
  constructor
  · intro h
    unfold decodeFrame at h
    split at h
    · rename_i b₃ b₂ b₁ b₀ value data
      split at h <;> cases h
      rename_i frameType htype
      have h₃ := b₃.toNat_lt
      have h₂ := b₂.toNat_lt
      have h₁ := b₁.toNat_lt
      have h₀ := b₀.toNat_lt
      dsimp only [encodeFrame]
      refine ⟨by omega, ?_⟩
      rw [← frameTypeOf_eq_some.mp htype]
      simp only [List.cons.injEq, ← UInt8.toNat_inj, UInt8.toNat_ofNat', and_true]
      omega
    · cases h
  · obtain ⟨streamId, frameType, data⟩ := frame
    rintro ⟨hid, rfl⟩
    dsimp only at hid
    simp only [encodeFrame, decodeFrame, frameTypeOf_eq_some.mpr rfl, UInt8.toNat_ofNat']
    congr 2
    omega

/-! ### Connections -/

/-- The identity of a `Stream` object. -/
abbrev StreamRef := ℕ

structure Stream where
  frameId : ℕ
  queue : List Frame := []
  shutDown : Bool := false
  deriving DecidableEq

/-- The identity of a call of `_send_frame`. -/
abbrev SendId := ℕ

inductive SendStatus
  | queued
  | written
  | failed
  deriving DecidableEq

/-- A call of `_send_frame` that has queued its frame. -/
structure Send where
  frameId : ℕ
  frameType : FrameType
  waits : Bool
  status : SendStatus := .queued
  deriving DecidableEq

inductive Dispatcher
  /-- Waiting for a payload. -/
  | waiting
  /-- Putting a frame into the queue of its stream. -/
  | queueing (stream : StreamRef) (frame : Frame)
  /-- Removing the entry of a stream that the peer has concluded. -/
  | reclaiming (streamId : ℕ)
  | closing (code : ℕ) (reason : String)
  | stopped
  deriving DecidableEq

/-- A stream that the dispatcher has created and queued for `accept_stream`, with the frame that
opened it and the frames received before. -/
structure Creation where
  frame : Frame
  earlier : List Frame
  deriving DecidableEq

structure Connection where
  maxPendingInboundStreams : ℕ := 16
  isRunning : Bool := true
  closeStarted : Bool := false
  closeCode : ℕ := 1000
  closeReason : String := ""
  writerError : Bool := false
  nextFrameId : ℕ := 2
  /-- The `Stream` objects, by their identity. -/
  objects : List Stream := []
  /-- The routing table. -/
  streams : ℕ → Option StreamRef := fun _ => none
  pendingInboundStreams : List StreamRef := []
  inboundShutDown : Bool := false
  /-- The queue of the writer; `none` tells it to stop. -/
  pendingOutboundFrames : List (Option SendId) := []
  sends : SendId → Option Send := fun _ => none
  nextSend : SendId := 0
  writerStopped : Bool := false
  dispatcher : Dispatcher := .waiting
  /-- The frames received, the latest first. -/
  received : List Frame := []
  created : List Creation := []
  /-- The identifiers of concluded streams: an entry was removed, or a conclusion came without
  one. -/
  concluded : List ℕ := []

instance : Inhabited Connection := ⟨{}⟩

def outboundQueueSize : ℕ := 1024

def maxPendingFramesPerStream : ℕ := 128

/-- `queue.Queue(maxsize)` is full; a size of 0 means no bound. -/
def isFull {α : Type*} (maxsize : ℕ) (queue : List α) : Bool :=
  0 < maxsize && maxsize ≤ queue.length

namespace Connection

variable (conn : Connection)

/-- `self._streams.pop(frame_id, None)` after a conclusion. -/
def reclaim (streamId : ℕ) : Connection :=
  { conn with
    streams := Function.update conn.streams streamId none
    concluded := streamId :: conn.concluded }

def failPendingSends : Connection :=
  { conn with
    pendingOutboundFrames := []
    sends := fun id =>
      if conn.pendingOutboundFrames.contains (some id) then
        (conn.sends id).map fun send => { send with status := .failed }
      else conn.sends id }

/-- The first critical section of `close`. -/
def close (code : ℕ) (reason : String) : Connection :=
  if conn.closeStarted then conn
  else
    { conn.failPendingSends with
      closeStarted := true, closeCode := code, closeReason := reason, isRunning := false
      pendingOutboundFrames := [none] }

/-- The second critical section of `close`. -/
def clear : Connection :=
  { conn with
    streams := fun _ => none
    pendingInboundStreams := []
    inboundShutDown := true
    objects := conn.objects.mapIdx fun ref stream =>
      if conn.streams stream.frameId = some ref then { stream with shutDown := true } else stream }

/-- The critical section of `_recv_loop` for a frame. -/
def route (frame : Frame) : Connection :=
  match conn.streams frame.streamId with
  | some stream =>
    { conn with received := frame :: conn.received, dispatcher := .queueing stream frame }
  | none =>
    if frame.streamId % 2 = 0 then
      { conn with
        received := frame :: conn.received
        dispatcher := .closing 1002 "Protocol error: invalid client-initiated stream" }
    else if frame.frameType = .conclusion then
      { conn with
        received := frame :: conn.received
        concluded := frame.streamId :: conn.concluded }
    else
      let stream := conn.objects.length
      let opened : Connection :=
        { conn with
          received := frame :: conn.received
          objects := conn.objects ++ [{ frameId := frame.streamId }]
          streams := Function.update conn.streams frame.streamId (some stream) }
      if isFull conn.maxPendingInboundStreams conn.pendingInboundStreams then
        { opened with dispatcher := .closing 1013 "Too many pending request streams" }
      else
        { opened with
          pendingInboundStreams := conn.pendingInboundStreams ++ [stream]
          created := ⟨frame, conn.received⟩ :: conn.created
          dispatcher := .queueing stream frame }

/-- A payload arrives in `_recv_loop`. -/
def receive (raw : List UInt8) : Connection :=
  if !conn.isRunning then { conn with dispatcher := .closing 1000 "" }
  else
    match decodeFrame raw with
    | .error _ => { conn with dispatcher := .closing 1002 "Protocol error: invalid frame" }
    | .ok frame => conn.route frame

/-- `_put_incoming_frame`, and what the dispatcher does next. -/
def putIncomingFrame (ref : StreamRef) (frame : Frame) (stream : Stream) : Connection :=
  if stream.shutDown then { conn with dispatcher := .closing 1000 "" }
  else if isFull maxPendingFramesPerStream stream.queue then
    { conn with dispatcher := .closing 1013 "Too many pending frames for one stream" }
  else
    { conn with
      objects := conn.objects.set ref { stream with queue := stream.queue ++ [frame] }
      dispatcher := if frame.frameType = .conclusion then .reclaiming frame.streamId else .waiting }

/-- `_enqueue_frame`, up to the wait for the write.  A call that raises or returns false leaves the
connection alone, and one that waits for room in the queue does not step. -/
def enqueueFrame (stream : Stream) (frameType : FrameType) (waits : Bool) : Option Connection :=
  if !conn.isRunning || conn.writerError then some conn
  else if isFull outboundQueueSize conn.pendingOutboundFrames then
    if waits then none else some conn
  else
    some { conn with
      pendingOutboundFrames := conn.pendingOutboundFrames ++ [some conn.nextSend]
      sends := Function.update conn.sends conn.nextSend
        (some { frameId := stream.frameId, frameType := frameType, waits := waits })
      nextSend := conn.nextSend + 1 }

/-- The end of `_send_frame`: a frame that was queued, and written if the call waits for that,
reclaims the routing entry of a conclusion. -/
def finishSend (id : SendId) (send : Send) : Option Connection :=
  let ended : Connection := { conn with sends := Function.update conn.sends id none }
  let returned : Connection := if send.frameType = .conclusion then ended.reclaim send.frameId else ended
  if !send.waits then some returned
  else
    match send.status with
    | .written => some returned
    | .failed => some ended
    | .queued => if conn.writerError || !conn.isRunning then some ended else none

def stopWriter : Connection := { conn.failPendingSends with writerStopped := true }

/-- One round of `_send_loop`; `succeeds` is the answer of the socket. -/
def write (succeeds : Bool) : Option Connection :=
  match conn.pendingOutboundFrames with
  | [] => none
  | none :: rest => some { conn with pendingOutboundFrames := rest }.stopWriter
  | some id :: rest =>
    let mark (status : SendStatus) : SendId → Option Send :=
      Function.update conn.sends id ((conn.sends id).map fun send => { send with status := status })
    if conn.isRunning && succeeds then
      some { conn with pendingOutboundFrames := rest, sends := mark .written }
    else
      let failed : Connection := { conn with
        pendingOutboundFrames := rest
        sends := mark .failed
        writerError := true
        isRunning := false }
      some (failed.close 1000 "").stopWriter

/-- `open_stream`; it raises when the connection cannot send. -/
def openStream : Connection :=
  if !conn.isRunning || conn.writerError then conn
  else
    { conn with
      nextFrameId := conn.nextFrameId + 2
      objects := conn.objects ++ [{ frameId := conn.nextFrameId }]
      streams := Function.update conn.streams conn.nextFrameId (some conn.objects.length) }

end Connection

inductive Action
  /-- The socket hands a payload to the dispatcher. -/
  | receive (raw : List UInt8)
  /-- The socket raises in the dispatcher. -/
  | disconnect
  /-- The dispatcher goes on with the frame it has routed, or closes the connection. -/
  | dispatch
  | openStream
  | acceptStream
  /-- `Stream.recv`. -/
  | takeFrame (stream : StreamRef)
  | send (stream : StreamRef) (frameType : FrameType) (waits : Bool)
  | finishSend (id : SendId)
  | write (succeeds : Bool)
  | close (code : ℕ) (reason : String)
  | clear

def step (conn : Connection) : Action → Option Connection
  | .receive raw => if conn.dispatcher = .waiting then some (conn.receive raw) else none
  | .disconnect =>
    if conn.dispatcher = .waiting then some { conn with dispatcher := .closing 1000 "" } else none
  | .dispatch =>
    match conn.dispatcher with
    | .waiting | .stopped => none
    | .queueing ref frame =>
      match conn.objects[ref]? with
      | none => none
      | some stream => some (conn.putIncomingFrame ref frame stream)
    | .reclaiming streamId => some { conn.reclaim streamId with dispatcher := .waiting }
    | .closing code reason => some { conn.close code reason with dispatcher := .stopped }
  | .openStream => some conn.openStream
  | .acceptStream =>
    match conn.pendingInboundStreams with
    | [] => none
    | _ :: rest => some { conn with pendingInboundStreams := rest }
  | .takeFrame ref =>
    match conn.objects[ref]? with
    | none => none
    | some stream =>
      match stream.queue with
      | [] => none
      | _ :: rest =>
        some { conn with objects := conn.objects.set ref { stream with queue := rest } }
  | .send ref frameType waits =>
    match conn.objects[ref]? with
    | none => none
    | some stream => conn.enqueueFrame stream frameType waits
  | .finishSend id =>
    match conn.sends id with
    | none => none
    | some send => conn.finishSend id send
  | .write succeeds => if conn.writerStopped then none else conn.write succeeds
  | .close code reason => some (conn.close code reason)
  | .clear => if conn.closeStarted then some conn.clear else none

end Cfms.Transport
