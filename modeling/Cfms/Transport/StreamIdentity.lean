import Cfms.Lib.Run
import Cfms.Transport.Multiplexing
import Mathlib.Tactic.SplitIfs

/-!
# One stream for each identifier

A client opens each odd identifier once.  The dispatcher creates a stream for a `PROCESS` frame
whose identifier has no routing entry, and an entry goes away with the conclusion of either side.
So a frame of a request that is still under way when the server concludes it opens a second stream
under the same identifier.  While no `PROCESS` frame comes after the conclusion of its stream, every
stream is opened by the first frame of its identifier.
-/

namespace Cfms.Transport

open Lib Lib.Run List Option Function

variable (conn : Connection)

def Connection.Seen (streamId : ℕ) : Prop :=
  ∃ frame ∈ conn.received, frame.streamId = streamId

def FirstFrames : Prop :=
  ∀ creation ∈ conn.created, ∀ frame ∈ creation.earlier,
    frame.streamId ≠ creation.frame.streamId

/-- A `PROCESS` frame on an identifier of a client comes before the conclusion of its stream. -/
def beforeConclusion (frame : Frame) : Bool :=
  frame.frameType == .conclusion || frame.streamId % 2 == 0 ||
    !conn.concluded.contains frame.streamId

/-- The condition for the payload that the dispatcher receives. -/
def inOrder : Action → Bool
  | .receive raw =>
    match decodeFrame raw with
    | .error _ => true
    | .ok frame => beforeConclusion conn frame
  | _ => true

/-! ### What a step leaves alone -/

variable {conn conn' : Connection}

/-- The routing of client streams and the record are as before. -/
structure Quiet (conn conn' : Connection) : Prop where
  received : conn'.received = conn.received
  created : conn'.created = conn.created
  concluded : conn'.concluded = conn.concluded
  isRunning : conn'.isRunning = true → conn.isRunning = true
  streams : conn'.isRunning = true → ∀ id, id % 2 = 1 → conn'.streams id = conn.streams id
  closeStarted : conn'.closeStarted = true → conn.closeStarted = true ∨ conn'.isRunning = false

theorem quiet_of_eq (hrecv : conn'.received = conn.received)
    (hcreated : conn'.created = conn.created) (hconc : conn'.concluded = conn.concluded)
    (hrunning : conn'.isRunning = conn.isRunning) (hstreams : conn'.streams = conn.streams)
    (hclose : conn'.closeStarted = conn.closeStarted) : Quiet conn conn' :=
  ⟨hrecv, hcreated, hconc, fun h => hrunning ▸ h, fun _ id _ => congrFun hstreams id,
    fun h => .inl (hclose ▸ h)⟩

theorem quiet_of_not_running (hrecv : conn'.received = conn.received)
    (hcreated : conn'.created = conn.created) (hconc : conn'.concluded = conn.concluded)
    (h : conn'.isRunning = false) : Quiet conn conn' := by
  refine ⟨hrecv, hcreated, hconc, ?_, ?_, fun _ => .inr h⟩
  · intro hrunning
    rw [h] at hrunning
    cases hrunning
  · intro hrunning
    rw [h] at hrunning
    cases hrunning

theorem quiet_close (code : ℕ) (reason : String) : Quiet conn (conn.close code reason) := by
  unfold Connection.close
  split_ifs
  · exact quiet_of_eq rfl rfl rfl rfl rfl rfl
  · exact quiet_of_not_running rfl rfl rfl rfl

variable {succeeds : Bool}

theorem quiet_write (h : conn.write succeeds = some conn') : Quiet conn conn' := by
  simp only [Connection.write] at h
  split at h
  · cases h
  · cases h
    exact quiet_of_eq rfl rfl rfl rfl rfl rfl
  · split_ifs at h
    · cases h
      exact quiet_of_eq rfl rfl rfl rfl rfl rfl
    · cases h
      refine quiet_of_not_running ?_ ?_ ?_ ?_ <;>
        (simp only [Connection.close]
         split_ifs <;> rfl)

theorem quiet_clear (hcl : conn.isRunning = false) : Quiet conn conn.clear :=
  quiet_of_not_running rfl rfl rfl hcl

/-! ### The routing table -/

/-- What holds while no frame comes late. -/
structure Tracks (conn : Connection) : Prop where
  first : FirstFrames conn
  routed : conn.isRunning = true → ∀ id, id % 2 = 1 →
    ((conn.streams id).isSome = true ↔ conn.Seen id ∧ id ∉ conn.concluded)
  closed : conn.closeStarted = true → conn.isRunning = false

theorem Tracks.quiet (h : Tracks conn) (hquiet : Quiet conn conn') : Tracks conn' := by
  constructor
  · rw [FirstFrames, hquiet.created]
    exact h.first
  · intro hrunning id hodd
    rw [hquiet.streams hrunning id hodd, Connection.Seen, hquiet.received, hquiet.concluded]
    exact h.routed (hquiet.isRunning hrunning) id hodd
  · intro hclose
    rcases hquiet.closeStarted hclose with hclose | hstop
    · rw [Bool.eq_false_iff]
      intro hrunning
      have hstop := h.closed hclose
      rw [hquiet.isRunning hrunning] at hstop
      cases hstop
    · exact hstop

theorem Tracks.reclaim (h : Tracks conn) (streamId : ℕ) : Tracks (conn.reclaim streamId) := by
  refine ⟨h.first, ?_, h.closed⟩
  intro hrunning id hodd
  simp only [Connection.reclaim]
  by_cases hid : id = streamId
  · subst hid
    simp
  · rw [update_of_ne hid]
    simpa [hid, Connection.Seen] using h.routed hrunning id hodd

theorem Tracks.goTo (h : Tracks conn) (dispatcher : Dispatcher) :
    Tracks { conn with dispatcher := dispatcher } :=
  h.quiet (quiet_of_eq rfl rfl rfl rfl rfl rfl)

theorem route_cases (frame : Frame) {P : Connection → Prop}
    (hrouted : ∀ stream, conn.streams frame.streamId = some stream →
      P { conn with received := frame :: conn.received, dispatcher := .queueing stream frame })
    (hresv : conn.streams frame.streamId = none → frame.streamId % 2 = 0 →
      P { conn with
        received := frame :: conn.received
        dispatcher := .closing 1002 "Protocol error: invalid client-initiated stream" })
    (horph : conn.streams frame.streamId = none → frame.streamId % 2 = 1 →
      frame.frameType = .conclusion →
      P { conn with
        received := frame :: conn.received
        concluded := frame.streamId :: conn.concluded })
    (hopen : conn.streams frame.streamId = none → frame.streamId % 2 = 1 →
      frame.frameType = .process → ∀ pending created dispatcher,
      (created = conn.created ∨ created = ⟨frame, conn.received⟩ :: conn.created) →
      (dispatcher = .queueing conn.objects.length frame ∨ ∃ code reason,
        dispatcher = .closing code reason) →
      P { conn with
        received := frame :: conn.received
        objects := conn.objects ++ [{ frameId := frame.streamId }]
        streams := Function.update conn.streams frame.streamId (some conn.objects.length)
        pendingInboundStreams := pending
        created := created
        dispatcher := dispatcher }) : P (conn.route frame) := by
  simp only [Connection.route]
  split
  · rename_i stream hstr
    exact hrouted stream hstr
  · rename_i hstr
    by_cases heven : frame.streamId % 2 = 0
    · rw [if_pos heven]
      exact hresv hstr heven
    rw [if_neg heven]
    have hodd : frame.streamId % 2 = 1 := by omega
    by_cases hconclusion : frame.frameType = .conclusion
    · rw [if_pos hconclusion]
      exact horph hstr hodd hconclusion
    · rw [if_neg hconclusion]
      have hproc : frame.frameType = .process := by
        cases htype : frame.frameType with
        | process => rfl
        | conclusion => exact absurd htype hconclusion
      split_ifs
      · exact hopen hstr hodd hproc _ _ _ (.inl rfl) (.inr ⟨_, _, rfl⟩)
      · exact hopen hstr hodd hproc _ _ _ (.inr rfl) (.inl rfl)

variable {frame : Frame}

/-- A frame that is routed in order keeps the record. -/
theorem Tracks.route (h : Tracks conn) (hrunning : conn.isRunning = true)
    (horder : beforeConclusion conn frame = true) : Tracks (conn.route frame) := by
  have hrouted := h.routed hrunning
  apply route_cases frame
  · -- a routed stream has been seen and not been concluded
    intro stream hstr
    refine ⟨h.first, ?_, h.closed⟩
    intro _ id hodd
    simp only [Connection.Seen]
    by_cases hid : frame.streamId = id
    · subst hid
      have hboth := (hrouted frame.streamId hodd).mp (by rw [hstr]; rfl)
      simp [hstr, hboth.2]
    · simpa [hid, Connection.Seen] using hrouted id hodd
  · intro hstr heven
    refine ⟨h.first, ?_, h.closed⟩
    intro _ id hodd
    have hid : frame.streamId ≠ id := by
      rintro rfl
      omega
    simpa [hid, Connection.Seen] using hrouted id hodd
  · intro hstr hodd hconclusion
    refine ⟨h.first, ?_, h.closed⟩
    intro _ id hid
    by_cases hsame : frame.streamId = id
    · subst hsame
      simp [hstr]
    · simpa [hsame, Ne.symm hsame, Connection.Seen] using hrouted id hid
  · intro hstr hodd hproc pending created dispatcher hcreated _
    have hfresh : frame.streamId ∉ conn.concluded := by
      simpa [beforeConclusion, hproc, hodd] using horder
    have hunseen : ¬conn.Seen frame.streamId := by
      intro hseen
      have hsome := (hrouted frame.streamId hodd).mpr ⟨hseen, hfresh⟩
      rw [hstr] at hsome
      cases hsome
    refine ⟨?_, ?_, h.closed⟩
    · rcases hcreated with rfl | rfl
      · exact h.first
      · intro creation hcreat
        rcases mem_cons.mp hcreat with rfl | hcreat
        · intro earlier hearlier heq
          exact hunseen ⟨earlier, hearlier, heq⟩
        · exact h.first creation hcreat
    · intro _ id hid
      simp only [Connection.Seen]
      by_cases hsame : id = frame.streamId
      · subst hsame
        simp [hfresh]
      · rw [update_of_ne hsame]
        simpa [Ne.symm hsame, Connection.Seen] using hrouted id hid

/-- A frame that is received in order keeps the record. -/
theorem Tracks.receive (h : Tracks conn) {raw : List UInt8}
    (horder : inOrder conn (.receive raw) = true) : Tracks (conn.receive raw) := by
  simp only [Connection.receive]
  split_ifs with hstop
  · exact h.goTo _
  have hrunning : conn.isRunning = true := by simpa using hstop
  split
  · exact h.goTo _
  rename_i frame hframe
  simp only [inOrder, hframe] at horder
  exact h.route hrunning horder

/-- The call of `_send_frame` is over. -/
def Connection.endSend (conn : Connection) (id : SendId) : Connection :=
  { conn with sends := Function.update conn.sends id none }

variable {id : SendId} {send : Send}

theorem finishSend_cases (h : conn.finishSend id send = some conn') :
    conn' = conn.endSend id ∨ conn' = (conn.endSend id).reclaim send.frameId := by
  have hret : ∀ returned : Connection,
      (if send.frameType = .conclusion then (conn.endSend id).reclaim send.frameId
        else conn.endSend id) = returned →
      returned = conn.endSend id ∨ returned = (conn.endSend id).reclaim send.frameId := by
    intro returned heq
    split_ifs at heq
    · exact .inr heq.symm
    · exact .inl heq.symm
  simp only [Connection.finishSend] at h
  by_cases hwaits : (!send.waits) = true
  · rw [if_pos hwaits, some.injEq] at h
    exact hret conn' h
  · rw [if_neg hwaits] at h
    split at h
    · rw [some.injEq] at h
      exact hret conn' h
    · cases h
      exact .inl rfl
    · split_ifs at h
      cases h
      exact .inl rfl

theorem Tracks.finishSend (h : Tracks conn)
    (hfin : conn.finishSend id send = some conn') : Tracks conn' := by
  have hended : Tracks (conn.endSend id) := h.quiet (quiet_of_eq rfl rfl rfl rfl rfl rfl)
  rcases finishSend_cases hfin with rfl | rfl
  · exact hended
  · exact hended.reclaim send.frameId

theorem quiet_openStream (heven : conn.nextFrameId % 2 = 0) : Quiet conn conn.openStream := by
  unfold Connection.openStream
  split_ifs
  · exact quiet_of_eq rfl rfl rfl rfl rfl rfl
  refine ⟨rfl, rfl, rfl, fun hrunning => hrunning, ?_, .inl⟩
  intro _ id hodd
  apply update_of_ne
  rintro rfl
  omega

variable {stream : Stream} {frameType : FrameType} {waits : Bool}

theorem quiet_enqueueFrame
    (h : conn.enqueueFrame stream frameType waits = some conn') : Quiet conn conn' := by
  unfold Connection.enqueueFrame at h
  split_ifs at h
  all_goals
    cases h
    exact quiet_of_eq rfl rfl rfl rfl rfl rfl

theorem quiet_putIncomingFrame (ref : StreamRef) (frame : Frame) (stream : Stream) :
    Quiet conn (conn.putIncomingFrame ref frame stream) := by
  unfold Connection.putIncomingFrame
  split_ifs
  all_goals
    exact quiet_of_eq rfl rfl rfl rfl rfl rfl

/-! ### The identifiers that a connection knows -/

/-- The identifier is on the way somewhere in the connection. -/
inductive Mentions (conn : Connection) : ℕ → Prop
  | object {stream : Stream} (h : stream ∈ conn.objects) : Mentions conn stream.frameId
  | send {id : SendId} {send : Send} (h : conn.sends id = some send) : Mentions conn send.frameId
  | queueing {ref : StreamRef} {frame : Frame} (h : conn.dispatcher = .queueing ref frame) :
      Mentions conn frame.streamId
  | reclaiming {streamId : ℕ} (h : conn.dispatcher = .reclaiming streamId) : Mentions conn streamId
  | concluded {streamId : ℕ} (h : streamId ∈ conn.concluded) : Mentions conn streamId

/-- The identifiers of clients are known from their frames. -/
structure Known (conn : Connection) : Prop where
  nextFrameId : conn.nextFrameId % 2 = 0
  seen : ∀ id, Mentions conn id → id % 2 = 1 → conn.Seen id

variable (h : Known conn)

include h

theorem Known.step (hnext : conn'.nextFrameId % 2 = 0)
    (hrecv : conn'.received = conn.received)
    (hment : ∀ id, Mentions conn' id → id % 2 = 1 → Mentions conn id) : Known conn' := by
  refine ⟨hnext, ?_⟩
  intro id hid hodd
  rw [Connection.Seen, hrecv]
  exact h.seen id (hment id hid hodd) hodd

theorem Known.keep (hnext : conn'.nextFrameId = conn.nextFrameId)
    (hrecv : conn'.received = conn.received) (hconc : conn'.concluded = conn.concluded)
    (hobjs : ∀ stream' ∈ conn'.objects, ∃ stream ∈ conn.objects, stream.frameId = stream'.frameId)
    (hsends : ∀ id send', conn'.sends id = some send' →
      ∃ id send, conn.sends id = some send ∧ send.frameId = send'.frameId)
    (hqueueing : ∀ ref frame, conn'.dispatcher = .queueing ref frame → Mentions conn frame.streamId)
    (hrecl : ∀ id, conn'.dispatcher = .reclaiming id → Mentions conn id) : Known conn' := by
  refine h.step (hnext ▸ h.nextFrameId) hrecv ?_
  intro id hid _
  cases hid with
  | object hstr =>
    obtain ⟨stream, hmem, hframe⟩ := hobjs _ hstr
    rw [← hframe]
    exact .object hmem
  | send hsend =>
    obtain ⟨_, send, hmem, hframe⟩ := hsends _ _ hsend
    rw [← hframe]
    exact .send hmem
  | queueing hdisp => exact hqueueing _ _ hdisp
  | reclaiming hdisp => exact hrecl _ hdisp
  | concluded hmem => exact .concluded (hconc ▸ hmem)

theorem Known.goTo {dispatcher : Dispatcher}
    (hqueueing : ∀ ref frame, dispatcher ≠ .queueing ref frame)
    (hrecl : ∀ id, dispatcher = .reclaiming id → Mentions conn id) :
    Known { conn with dispatcher := dispatcher } :=
  h.keep rfl rfl rfl (fun stream hmem => ⟨stream, hmem, rfl⟩)
    (fun id send hsend => ⟨id, send, hsend, rfl⟩)
    (fun ref frame heq => absurd heq (hqueueing ref frame)) hrecl

/-- A stream that is known may be reclaimed. -/
theorem Known.reclaim {streamId : ℕ} (hknown : Mentions conn streamId) :
    Known (conn.reclaim streamId) := by
  refine h.step h.nextFrameId rfl ?_
  intro id hid _
  cases hid with
  | object hmem => exact .object hmem
  | send hsend => exact .send hsend
  | queueing hdisp => exact .queueing hdisp
  | reclaiming hdisp => exact .reclaiming hdisp
  | concluded hmem =>
    rcases mem_cons.mp hmem with rfl | hmem
    · exact hknown
    · exact .concluded hmem

theorem Known.failPendingSends : Known conn.failPendingSends := by
  refine h.keep rfl rfl rfl (fun stream hmem => ⟨stream, hmem, rfl⟩) ?_
    (fun _ _ heq => .queueing heq) (fun _ heq => .reclaiming heq)
  intro id send' hsend
  simp only [Connection.failPendingSends] at hsend
  split_ifs at hsend
  · obtain ⟨send, hbef, rfl⟩ := map_eq_some_iff.mp hsend
    exact ⟨id, send, hbef, rfl⟩
  · exact ⟨id, send', hsend, rfl⟩

theorem Known.close (code : ℕ) (reason : String) :
    Known (conn.close code reason) := by
  unfold Connection.close
  split_ifs
  · exact h
  exact h.failPendingSends.keep rfl rfl rfl (fun stream hmem => ⟨stream, hmem, rfl⟩)
    (fun id send hsend => ⟨id, send, hsend, rfl⟩) (fun _ _ heq => .queueing heq)
    (fun _ heq => .reclaiming heq)

theorem Known.stopWriter : Known conn.stopWriter :=
  h.failPendingSends.keep rfl rfl rfl (fun stream hmem => ⟨stream, hmem, rfl⟩)
    (fun id send hsend => ⟨id, send, hsend, rfl⟩) (fun _ _ heq => .queueing heq)
    (fun _ heq => .reclaiming heq)

theorem Known.write (hwrite : conn.write succeeds = some conn') : Known conn' := by
  have hmark : ∀ (id : SendId) (status : SendStatus) (id' : SendId) (send' : Send),
      update conn.sends id
        ((conn.sends id).map fun send => { send with status := status }) id' = some send' →
      ∃ id send, conn.sends id = some send ∧ send.frameId = send'.frameId := by
    intro id status id' send' hsend
    by_cases hid : id' = id
    · rw [hid, update_self] at hsend
      obtain ⟨send, hbef, rfl⟩ := map_eq_some_iff.mp hsend
      exact ⟨id, send, hbef, rfl⟩
    · rw [update_of_ne hid] at hsend
      exact ⟨id', send', hsend, rfl⟩
  simp only [Connection.write] at hwrite
  split at hwrite
  · cases hwrite
  · cases hwrite
    refine Known.stopWriter ?_
    exact h.keep rfl rfl rfl (fun stream hmem => ⟨stream, hmem, rfl⟩)
      (fun id send hsend => ⟨id, send, hsend, rfl⟩) (fun _ _ heq => .queueing heq)
      (fun _ heq => .reclaiming heq)
  · rename_i id rest hpend
    split_ifs at hwrite
    · cases hwrite
      exact h.keep rfl rfl rfl (fun stream hmem => ⟨stream, hmem, rfl⟩) (hmark id .written)
        (fun _ _ heq => .queueing heq) (fun _ heq => .reclaiming heq)
    · cases hwrite
      refine Known.stopWriter (Known.close ?_ _ _)
      exact h.keep rfl rfl rfl (fun stream hmem => ⟨stream, hmem, rfl⟩) (hmark id .failed)
        (fun _ _ heq => .queueing heq) (fun _ heq => .reclaiming heq)

theorem Known.clear : Known conn.clear := by
  refine h.keep rfl rfl rfl ?_ (fun id send hsend => ⟨id, send, hsend, rfl⟩)
    (fun _ _ heq => .queueing heq) (fun _ heq => .reclaiming heq)
  intro stream' hmem
  simp only [Connection.clear, mem_mapIdx] at hmem
  obtain ⟨ref, hlt, rfl⟩ := hmem
  refine ⟨conn.objects[ref], getElem_mem hlt, ?_⟩
  split_ifs <;> rfl

omit h

variable {ref : StreamRef}

theorem mem_set_queue {objects : List Stream} {stream' : Stream}
    {queue : List Frame} (hstr : objects[ref]? = some stream)
    (hmem : stream' ∈ objects.set ref { stream with queue := queue }) :
    ∃ old ∈ objects, old.frameId = stream'.frameId := by
  rcases mem_or_eq_of_mem_set hmem with hmem | rfl
  · exact ⟨stream', hmem, rfl⟩
  · exact ⟨stream, mem_of_getElem? hstr, rfl⟩

variable (h : Known conn)

include h

theorem Known.putIncomingFrame (hdisp : conn.dispatcher = .queueing ref frame)
    (hstr : conn.objects[ref]? = some stream) :
    Known (conn.putIncomingFrame ref frame stream) := by
  unfold Connection.putIncomingFrame
  split_ifs
  · exact h.goTo nofun nofun
  · exact h.goTo nofun nofun
  · refine h.keep rfl rfl rfl (fun _ hmem => mem_set_queue hstr hmem)
      (fun id send hsend => ⟨id, send, hsend, rfl⟩) nofun ?_
    intro id heq
    cases heq
    exact .queueing hdisp
  · exact h.keep rfl rfl rfl (fun _ hmem => mem_set_queue hstr hmem)
      (fun id send hsend => ⟨id, send, hsend, rfl⟩) nofun nofun

theorem Known.finishSend
    (hsend : conn.sends id = some send) (hfin : conn.finishSend id send = some conn') :
    Known conn' := by
  have hsends : ∀ id' send', update conn.sends id none id' = some send' →
      ∃ id send, conn.sends id = some send ∧ send.frameId = send'.frameId := by
    intro id' send' hsend'
    by_cases hid : id' = id
    · rw [hid, update_self] at hsend'
      cases hsend'
    · rw [update_of_ne hid] at hsend'
      exact ⟨id', send', hsend', rfl⟩
  rcases finishSend_cases hfin with rfl | rfl
  · exact h.keep rfl rfl rfl (fun stream hmem => ⟨stream, hmem, rfl⟩) hsends
      (fun _ _ heq => .queueing heq) (fun _ heq => .reclaiming heq)
  · exact (h.reclaim (.send hsend)).keep rfl rfl rfl (fun stream hmem => ⟨stream, hmem, rfl⟩) hsends
      (fun _ _ heq => .queueing heq) (fun _ heq => .reclaiming heq)

theorem Known.openStream : Known conn.openStream := by
  unfold Connection.openStream
  split_ifs
  · exact h
  have heven := h.nextFrameId
  refine h.step (show (conn.nextFrameId + 2) % 2 = 0 by omega) rfl ?_
  intro id hid hodd
  cases hid with
  | object hmem =>
    rcases mem_append.mp hmem with hmem | hmem
    · exact .object hmem
    rw [mem_singleton.mp hmem] at hodd
    simp only at hodd
    omega
  | send hsend => exact .send hsend
  | queueing hdisp => exact .queueing hdisp
  | reclaiming hdisp => exact .reclaiming hdisp
  | concluded hmem => exact .concluded hmem

theorem Known.enqueueFrame (hstr : conn.objects[ref]? = some stream)
    (henqueue : conn.enqueueFrame stream frameType waits = some conn') : Known conn' := by
  unfold Connection.enqueueFrame at henqueue
  split_ifs at henqueue
  · cases henqueue
    exact h
  · cases henqueue
    exact h
  · cases henqueue
    refine h.step h.nextFrameId rfl ?_
    intro id hid _
    cases hid with
    | object hmem => exact .object hmem
    | @send sendId send hsend =>
      simp only at hsend
      by_cases hid : sendId = conn.nextSend
      · rw [hid, update_self, some.injEq] at hsend
        rw [← hsend]
        exact .object (mem_of_getElem? hstr)
      · rw [update_of_ne hid] at hsend
        exact .send hsend
    | queueing hdisp => exact .queueing hdisp
    | reclaiming hdisp => exact .reclaiming hdisp
    | concluded hmem => exact .concluded hmem

theorem Known.of_frame (hnext : conn'.nextFrameId = conn.nextFrameId)
    (hrecv : conn'.received = frame :: conn.received)
    (hment : ∀ id, Mentions conn' id → id = frame.streamId ∨ Mentions conn id) : Known conn' := by
  refine ⟨hnext ▸ h.nextFrameId, ?_⟩
  intro id hid hodd
  rw [Connection.Seen, hrecv]
  rcases hment id hid with rfl | hid
  · exact ⟨frame, mem_cons_self, rfl⟩
  · obtain ⟨earlier, hmem, heq⟩ := h.seen id hid hodd
    exact ⟨earlier, mem_cons_of_mem _ hmem, heq⟩

/-- Every identifier in use was received, or drawn here. -/
theorem Known.route (frame : Frame) : Known (conn.route frame) := by
  apply route_cases frame
  · intro stream _
    refine h.of_frame rfl rfl ?_
    intro id hid
    cases hid with
    | object hmem => exact .inr (.object hmem)
    | send hsend => exact .inr (.send hsend)
    | queueing hdisp =>
      cases hdisp
      exact .inl rfl
    | reclaiming hdisp => cases hdisp
    | concluded hmem => exact .inr (.concluded hmem)
  · intro _ _
    refine h.of_frame rfl rfl ?_
    intro id hid
    cases hid with
    | object hmem => exact .inr (.object hmem)
    | send hsend => exact .inr (.send hsend)
    | queueing hdisp | reclaiming hdisp => cases hdisp
    | concluded hmem => exact .inr (.concluded hmem)
  · intro _ _ _
    refine h.of_frame rfl rfl ?_
    intro id hid
    cases hid with
    | object hmem => exact .inr (.object hmem)
    | send hsend => exact .inr (.send hsend)
    | queueing hdisp => exact .inr (.queueing hdisp)
    | reclaiming hdisp => exact .inr (.reclaiming hdisp)
    | concluded hmem =>
      rcases mem_cons.mp hmem with rfl | hmem
      · exact .inl rfl
      · exact .inr (.concluded hmem)
  · intro _ _ _ pending created dispatcher _ hdisp
    refine h.of_frame rfl rfl ?_
    intro id hid
    cases hid with
    | object hmem =>
      rcases mem_append.mp hmem with hmem | hmem
      · exact .inr (.object hmem)
      · rw [mem_singleton.mp hmem]
        exact .inl rfl
    | send hsend => exact .inr (.send hsend)
    | queueing heq =>
      rcases hdisp with rfl | ⟨code, reason, rfl⟩
      · cases heq
        exact .inl rfl
      · cases heq
    | reclaiming heq =>
      rcases hdisp with rfl | ⟨code, reason, rfl⟩
      · cases heq
      · cases heq
    | concluded hmem => exact .inr (.concluded hmem)

theorem Known.receive (raw : List UInt8) : Known (conn.receive raw) := by
  simp only [Connection.receive]
  split_ifs
  · exact h.goTo nofun nofun
  split
  · exact h.goTo nofun nofun
  · rename_i frame hframe
    exact h.route frame

omit h

/-! ### Runs -/

variable {action : Action}

/-- **The step lemma.** -/
theorem step_invariant (htracks : Tracks conn) (hknown : Known conn)
    (horder : inOrder conn action = true) (hstep : step conn action = some conn') :
    Tracks conn' ∧ Known conn' := by
  cases action with
  | receive raw =>
    simp only [step] at hstep
    split_ifs at hstep
    cases hstep
    exact ⟨htracks.receive horder, hknown.receive raw⟩
  | disconnect =>
    simp only [step] at hstep
    split_ifs at hstep
    cases hstep
    exact ⟨htracks.goTo _, hknown.goTo nofun nofun⟩
  | dispatch =>
    simp only [step] at hstep
    split at hstep
    · cases hstep
    · cases hstep
    · rename_i ref frame hdisp
      split at hstep
      · cases hstep
      rename_i stream hstr
      cases hstep
      exact ⟨htracks.quiet (quiet_putIncomingFrame ref frame stream),
        hknown.putIncomingFrame hdisp hstr⟩
    · rename_i streamId hdisp
      cases hstep
      exact ⟨(htracks.reclaim streamId).goTo _,
        (hknown.reclaim (.reclaiming hdisp)).goTo nofun nofun⟩
    · rename_i code reason hdisp
      cases hstep
      exact ⟨(htracks.quiet (quiet_close code reason)).goTo _,
        (hknown.close code reason).goTo nofun nofun⟩
  | openStream =>
    cases hstep
    exact ⟨htracks.quiet (quiet_openStream hknown.nextFrameId), hknown.openStream⟩
  | acceptStream =>
    simp only [step] at hstep
    split at hstep
    · cases hstep
    cases hstep
    exact ⟨htracks.quiet (quiet_of_eq rfl rfl rfl rfl rfl rfl),
      hknown.keep rfl rfl rfl (fun stream hmem => ⟨stream, hmem, rfl⟩)
        (fun id send hsend => ⟨id, send, hsend, rfl⟩) (fun _ _ heq => .queueing heq)
        (fun _ heq => .reclaiming heq)⟩
  | takeFrame ref =>
    simp only [step] at hstep
    split at hstep
    · cases hstep
    rename_i stream hstr
    split at hstep
    · cases hstep
    cases hstep
    exact ⟨htracks.quiet (quiet_of_eq rfl rfl rfl rfl rfl rfl),
      hknown.keep rfl rfl rfl (fun _ hmem => mem_set_queue hstr hmem)
        (fun id send hsend => ⟨id, send, hsend, rfl⟩) (fun _ _ heq => .queueing heq)
        (fun _ heq => .reclaiming heq)⟩
  | send ref frameType waits =>
    simp only [step] at hstep
    split at hstep
    · cases hstep
    · rename_i stream hstr
      exact ⟨htracks.quiet (quiet_enqueueFrame hstep), hknown.enqueueFrame hstr hstep⟩
  | finishSend id =>
    simp only [step] at hstep
    split at hstep
    · cases hstep
    · rename_i send hsend
      exact ⟨htracks.finishSend hstep, hknown.finishSend hsend hstep⟩
  | write succeeds =>
    simp only [step] at hstep
    split_ifs at hstep
    exact ⟨htracks.quiet (quiet_write hstep), hknown.write hstep⟩
  | close code reason =>
    cases hstep
    exact ⟨htracks.quiet (quiet_close code reason), hknown.close code reason⟩
  | clear =>
    simp only [step] at hstep
    split_ifs at hstep with hcl
    cases hstep
    exact ⟨htracks.quiet (quiet_clear (htracks.closed hcl)), hknown.clear⟩

/-- A new connection. -/
def Connection.opened (maxPendingInboundStreams : ℕ) : Connection :=
  { maxPendingInboundStreams := maxPendingInboundStreams }

theorem opened_invariant (maxPendingInboundStreams : ℕ) :
    Tracks (.opened maxPendingInboundStreams) ∧ Known (.opened maxPendingInboundStreams) := by
  refine ⟨⟨nofun, ?_, nofun⟩, Nat.mod_self 2, ?_⟩
  · intro _ id _
    simp [Connection.opened, Connection.Seen]
  · intro id hid
    cases hid with
    | object hmem | concluded hmem => cases hmem
    | send hsend => cases hsend
    | queueing hdisp | reclaiming hdisp => cases hdisp

/-- **A frame for a concluded stream opens another stream.** -/
theorem route_concluded (htracks : Tracks conn) (hknown : Known conn)
    (hlate : beforeConclusion conn frame = false) (hrunning : conn.isRunning = true)
    (hroom : isFull conn.maxPendingInboundStreams conn.pendingInboundStreams = false) :
    ¬FirstFrames (conn.route frame) := by
  simp only [beforeConclusion, Bool.or_eq_false_iff, beq_eq_false_iff_ne, Bool.not_eq_false',
    contains_iff_mem] at hlate
  obtain ⟨⟨hproc, heven⟩, hconc⟩ := hlate
  have hodd : frame.streamId % 2 = 1 := by omega
  have hstr : conn.streams frame.streamId = none := by
    rw [← not_isSome_iff_eq_none]
    intro hsome
    exact ((htracks.routed hrunning frame.streamId hodd).mp hsome).2 hconc
  obtain ⟨earlier, hmem, hsame⟩ := hknown.seen frame.streamId (.concluded hconc) hodd
  have hcreated : (conn.route frame).created = ⟨frame, conn.received⟩ :: conn.created := by
    simp only [Connection.route, hstr, if_neg heven, if_neg hproc, hroom, Bool.false_eq_true,
      if_false]
  intro hfirst
  refine hfirst ⟨frame, conn.received⟩ ?_ earlier hmem hsame
  rw [hcreated]
  exact mem_cons_self

/-- **Streams and first frames.**  In every run of a connection where each `PROCESS` frame of a
client comes before the conclusion of its stream, every stream that is queued for `accept_stream`
was opened by the first frame of its identifier.  The next `PROCESS` frame that comes later breaks
this, if there is room in the queue. -/
theorem streams_opened_by_first_frames {maxPendingInboundStreams : ℕ} {actions : List Action}
    (hrun : run step (.opened maxPendingInboundStreams) actions = some conn)
    (hmeets : Meets step (fun conn action => inOrder conn action = true)
      (.opened maxPendingInboundStreams) actions) :
    FirstFrames conn ∧
      ∀ raw frame conn', decodeFrame raw = .ok frame → beforeConclusion conn frame = false →
        conn.isRunning = true →
        isFull conn.maxPendingInboundStreams conn.pendingInboundStreams = false →
        step conn (.receive raw) = some conn' → ¬FirstFrames conn' := by
  have hinv : Tracks conn ∧ Known conn :=
    run_invariant (I := fun conn => Tracks conn ∧ Known conn)
      (fun _ _ _ h horder hstep => step_invariant h.1 h.2 horder hstep)
      (opened_invariant maxPendingInboundStreams) hmeets hrun
  refine ⟨hinv.1.first, ?_⟩
  intro raw frame conn' hframe hlate hrunning hroom hstep
  simp only [step] at hstep
  split_ifs at hstep
  rw [some.injEq, Connection.receive, hframe, hrunning] at hstep
  rw [← hstep]
  exact route_concluded hinv.1 hinv.2 hlate hrunning hroom

def concludedUpload : List Action :=
  [.receive (encodeFrame ⟨1, .process, [123, 125]⟩), .dispatch, .acceptStream, .takeFrame 0,
    .send 0 .conclusion true, .write true, .finishSend 0]

/-- A chunk of the file that was already on its way. -/
def lateChunk : List UInt8 := encodeFrame ⟨1, .process, [0, 1, 2]⟩

def concludedConnection : Connection := (run step (.opened 16) concludedUpload).getD default

def reopenedConnection : Connection :=
  (run step (.opened 16) (concludedUpload ++ [.receive lateChunk])).getD default

theorem concludedUpload_first_frames :
    run step (.opened 16) concludedUpload = some concludedConnection ∧
      concludedConnection.created.length = 1 ∧ FirstFrames concludedConnection := by
  have hrun : run step (.opened 16) concludedUpload = some concludedConnection :=
    run_eq_some_getD _ (by decide +kernel)
  have hmeets : meetsBool step inOrder (.opened 16) concludedUpload = true := by decide +kernel
  exact ⟨hrun, by decide +kernel,
    (streams_opened_by_first_frames hrun (meets_of_meetsBool hmeets)).1⟩

/-- The chunk waits for `accept_stream` as the first frame of a new stream. -/
theorem lateChunk_opens_stream :
    run step (.opened 16) (concludedUpload ++ [.receive lateChunk]) = some reopenedConnection ∧
      reopenedConnection.pendingInboundStreams = [1] ∧
      reopenedConnection.dispatcher = .queueing 1 ⟨1, .process, [0, 1, 2]⟩ ∧
      ¬FirstFrames reopenedConnection := by
  refine ⟨run_eq_some_getD _ (by decide +kernel), by decide +kernel, by decide +kernel, ?_⟩
  intro hfirst
  have hcreat : (⟨⟨1, .process, [0, 1, 2]⟩, [⟨1, .process, [123, 125]⟩]⟩ : Creation) ∈
      reopenedConnection.created := by
    decide +kernel
  exact hfirst _ hcreat ⟨1, .process, [123, 125]⟩ mem_cons_self rfl

end Cfms.Transport
