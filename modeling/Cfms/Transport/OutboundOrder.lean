import Cfms.Transport.OutboundQueue
import Mathlib.Data.List.Nodup

/-!
# The order of outbound frames

What one step of a sender, of the writer or of a call of `close` can do is said once, by `Effect`.
Two invariants follow: who may write (`Control`), and in which order frames go from the queue to the
socket (`Order`).
-/

namespace Cfms.Transport.Outbound

open Lib.Run List Function

/-! ### Steps -/

/-- What a step does to the connection. -/
inductive Effect (c : Connection) : Connection → Prop
  | send {id : CallId} {waitForWrite : Bool} (hfree : c.calls id = none) :
      Effect c (c.setCall id { done := if waitForWrite then some false else none })
  | lockCall {id : CallId} {call : Call} (hcall : c.calls id = some call)
      (hphase : call.phase = .queueing) (hlock : c.lock = none) (hrun : c.isRunning = true) :
      Effect c { c.setCall id { call with phase := .putting } with lock := some (.call id) }
  | refuse {id : CallId} {call : Call} {phase : CallPhase} (hcall : c.calls id = some call)
      (hphase : call.phase = .queueing)
      (hnew : phase = .raised ∨ (call.waits = false ∧ phase = .returned false)) :
      Effect c (c.setCall id { call with phase := phase })
  | accept {id : CallId} {call : Call} (hcall : c.calls id = some call)
      (hphase : call.phase = .putting) :
      Effect c
        { c.setCall id { call with phase := if call.waits then .waiting else .returned true } with
          lock := none
          queue := c.queue ++ [some id]
          accepted := c.accepted ++ [id] }
  | full {id : CallId} {call : Call} {phase : CallPhase} (hcall : c.calls id = some call)
      (hphase : call.phase = .putting)
      (hnew : phase = .queueing ∨ (call.waits = false ∧ phase = .returned false)) :
      Effect c { c.setCall id { call with phase := phase } with lock := none }
  | wake {id : CallId} {call : Call} (hcall : c.calls id = some call)
      (hphase : call.phase = .waiting) (hdone : call.done = some true) :
      Effect c (c.setCall id { call with phase := .leaving })
  | poll {id : CallId} {call : Call} {phase : CallPhase} (hcall : c.calls id = some call)
      (hphase : call.phase = .waiting ∨ call.phase = .readingError ∨ call.phase = .readingRunning)
      (hnew : phase = .readingError ∨ phase = .readingRunning ∨ phase = .waiting) :
      Effect c (c.setCall id { call with phase := phase })
  | abandon {id : CallId} {call : Call} {error : SendError} (hcall : c.calls id = some call)
      (hphase : call.phase = .readingError ∨ call.phase = .readingRunning) :
      Effect c (c.setCall id { call with phase := .leaving, exception := some error })
  | leave {id : CallId} {call : Call} (hcall : c.calls id = some call)
      (hphase : call.phase = .leaving) :
      Effect c (c.setCall id
        { call with phase := if call.exception.isSome then .raised else .returned true })
  | beginClose {n : ℕ} (hfree : c.closers (.thread n) = none) :
      Effect c (c.setCloser (.thread n) .entering)
  | enter {closer : Closer} (hclose : c.closers closer = some .entering) (hlock : c.lock = none)
      (hstart : c.closeStarted = false) :
      Effect c
        { c.setCloser closer (.draining (c.writerError.getD .connectionClosed) .taking) with
          lock := some (.closer closer)
          closeStarted := true
          isRunning := false }
  | reenter {closer : Closer} (hclose : c.closers closer = some .entering) (hlock : c.lock = none)
      (hstart : c.closeStarted = true) :
      Effect c { c.setCloser closer .closed with closeReturned := true }
  | drainEmpty {closer : Closer} {error : SendError}
      (hclose : c.closers closer = some (.draining error .taking)) (hqueue : c.queue = []) :
      Effect c (c.setCloser closer .posting)
  | drainSkip {closer : Closer} {error : SendError} {rest : List (Option CallId)}
      (hclose : c.closers closer = some (.draining error .taking)) (hqueue : c.queue = none :: rest) :
      Effect c (({ c with queue := rest } : Connection).setCloser closer (.draining error .taking))
  | drainTake {closer : Closer} {error : SendError} {id : CallId} {rest : List (Option CallId)}
      (hclose : c.closers closer = some (.draining error .taking))
      (hqueue : c.queue = some id :: rest) :
      Effect c (({ c with queue := rest } : Connection).setCloser closer
        (.draining error (.failing id)))
  | drainFail {closer : Closer} {error : SendError} {id : CallId}
      (hclose : c.closers closer = some (.draining error (.failing id))) :
      Effect c ((c.setException id error).setCloser closer (.draining error (.signalling id)))
  | drainSignal {closer : Closer} {error : SendError} {id : CallId}
      (hclose : c.closers closer = some (.draining error (.signalling id))) :
      Effect c ((c.setDone id).setCloser closer (.draining error .taking))
  | post {closer : Closer} {queue : List (Option CallId)} (hclose : c.closers closer = some .posting)
      (hqueue : queue = c.queue ∨ queue = c.queue ++ [none]) :
      Effect c { c.setCloser closer .closed with queue := queue, lock := none, closeReturned := true }
  | sentinel {rest : List (Option CallId)} (hwr : c.writer = .getting)
      (hqueue : c.queue = none :: rest) : Effect c { c with queue := rest, writer := .finishing }
  | fetch {id : CallId} {rest : List (Option CallId)} (hwr : c.writer = .getting)
      (hqueue : c.queue = some id :: rest) : Effect c { c with queue := rest, writer := .checking id }
  | pass {id : CallId} (hwr : c.writer = .checking id) (hrun : c.isRunning = true) :
      Effect c { c with writer := .sending id, passed := c.passed ++ [id] }
  | refuseFrame {id : CallId} (hwr : c.writer = .checking id) :
      Effect c { c with writer := .raising id .connectionClosed }
  | deliver {id : CallId} (hwr : c.writer = .sending id) :
      Effect c { c with writer := .succeeded id, delivered := c.delivered ++ [id] }
  | sendFails {id : CallId} {error : SendError} (hwr : c.writer = .sending id) :
      Effect c { c with writer := .raising id error }
  | succeed {id : CallId} (hwr : c.writer = .succeeded id) :
      Effect c { c.setDone id with writer := .getting }
  | raise {id : CallId} {error : SendError} (hwr : c.writer = .raising id error) :
      Effect c { c.setException id error with writer := .signalling id error }
  | signal {id : CallId} {error : SendError} (hwr : c.writer = .signalling id error) :
      Effect c { c.setDone id with writer := .recording error }
  | record {error : SendError} (hwr : c.writer = .recording error) (hlock : c.lock = none) :
      Effect c
        { c.setCloser .writer .entering with
          writerError := some error
          isRunning := false
          writer := .closing }
  | closed (hwr : c.writer = .closing) (hclose : c.closers .writer = some .closed) :
      Effect c { c with writer := .finishing }
  | finish {error : SendError} (hwr : c.writer = .finishing) :
      Effect c { c with writer := .draining error .taking }
  | stop {error : SendError} (hwr : c.writer = .draining error .taking) (hqueue : c.queue = []) :
      Effect c { c with writer := .stopped }
  | finalSkip {error : SendError} {rest : List (Option CallId)}
      (hwr : c.writer = .draining error .taking) (hqueue : c.queue = none :: rest) :
      Effect c { c with queue := rest, writer := .draining error .taking }
  | finalTake {error : SendError} {id : CallId} {rest : List (Option CallId)}
      (hwr : c.writer = .draining error .taking) (hqueue : c.queue = some id :: rest) :
      Effect c { c with queue := rest, writer := .draining error (.failing id) }
  | finalFail {error : SendError} {id : CallId} (hwr : c.writer = .draining error (.failing id)) :
      Effect c { c.setException id error with writer := .draining error (.signalling id) }
  | finalSignal {error : SendError} {id : CallId}
      (hwr : c.writer = .draining error (.signalling id)) :
      Effect c { c.setDone id with writer := .draining error .taking }

variable {c c' : Connection} {id : CallId} {call : Call}

theorem callStep_effect {choice : CallChoice}
    (hcall : c.calls id = some call) (h : callStep c id call call.phase choice = some c') :
    Effect c c' := by
  cases hphase : call.phase <;> rw [hphase] at h <;> cases choice <;> simp only [callStep] at h
  case queueing.proceed =>
    split at h
    · cases h
    rename_i hlock
    split at h
    · rename_i hcan
      cases h
      exact .lockCall hcall hphase (by simpa using hlock) (by simp_all [Connection.canSend])
    · cases h
      apply Effect.refuse hcall hphase
      split
      · exact Or.inl rfl
      · rename_i hwaits
        exact Or.inr ⟨by simpa using hwaits, rfl⟩
  case queueing.giveUp =>
    split at h
    · cases h
      exact .refuse hcall hphase (Or.inl rfl)
    · cases h
  case putting.proceed =>
    split at h
    · cases h
      exact .accept hcall hphase
    · cases h
  case putting.timeout =>
    split at h
    · cases h
    cases h
    apply Effect.full hcall hphase
    split
    · exact Or.inl rfl
    · rename_i hwaits
      exact Or.inr ⟨by simpa using hwaits, rfl⟩
  case waiting.proceed =>
    split at h
    · rename_i hdone
      cases h
      exact .wake hcall hphase hdone
    · cases h
  case waiting.timeout =>
    split at h
    · cases h
    · cases h
      exact .poll hcall (Or.inl hphase) (Or.inl rfl)
  case readingError.proceed =>
    split at h <;> cases h
    · exact .abandon hcall (Or.inl hphase)
    · exact .poll hcall (Or.inr (Or.inl hphase)) (Or.inr (Or.inl rfl))
  case readingRunning.proceed =>
    split at h <;> cases h
    · exact .poll hcall (Or.inr (Or.inr hphase)) (Or.inr (Or.inr rfl))
    · exact .abandon hcall (Or.inr hphase)
  case leaving.proceed =>
    cases h
    exact .leave hcall hphase
  all_goals cases h

variable {closer : Closer} {phase : ClosePhase}

theorem closeStep_effect
    (hclose : c.closers closer = some phase) (h : closeStep c closer phase = some c') :
    Effect c c' := by
  cases phase with
  | entering =>
    simp only [closeStep] at h
    split at h
    · cases h
    rename_i hlock
    have hfree : c.lock = none := by simpa using hlock
    split at h <;> cases h
    · rename_i hstart
      exact .reenter hclose hfree hstart
    · rename_i hstart
      exact .enter hclose hfree (by simpa using hstart)
  | draining error phase =>
    cases phase with
    | taking =>
      cases hqueue : c.queue with
      | nil =>
        simp only [closeStep, drainStep, hqueue] at h
        cases h
        exact .drainEmpty hclose hqueue
      | cons item rest =>
        cases item with
        | none =>
          simp only [closeStep, drainStep, hqueue] at h
          cases h
          exact .drainSkip hclose hqueue
        | some id =>
          simp only [closeStep, drainStep, hqueue] at h
          cases h
          exact .drainTake hclose hqueue
    | failing id =>
      cases h
      exact .drainFail hclose
    | signalling id =>
      cases h
      exact .drainSignal hclose
  | posting =>
    cases h
    apply Effect.post hclose
    split
    · exact Or.inr rfl
    · exact Or.inl rfl
  | closed => cases h

theorem writerStep_effect {outcome : Option ℕ} (h : writerStep c outcome c.writer = some c') :
    Effect c c' := by
  cases hwr : c.writer with
  | getting =>
    rw [hwr] at h
    simp only [writerStep] at h
    split at h <;> cases h <;> rename_i hqueue
    · exact .sentinel hwr hqueue
    · exact .fetch hwr hqueue
  | checking id =>
    rw [hwr] at h
    simp only [writerStep] at h
    split at h <;> cases h
    · rename_i hrun
      exact .pass hwr hrun
    · exact .refuseFrame hwr
  | sending id =>
    rw [hwr] at h
    cases outcome <;> cases h
    · exact .deliver hwr
    · exact .sendFails hwr
  | succeeded id =>
    rw [hwr] at h
    cases h
    exact .succeed hwr
  | raising id error =>
    rw [hwr] at h
    cases h
    exact .raise hwr
  | signalling id error =>
    rw [hwr] at h
    cases h
    exact .signal hwr
  | recording error =>
    rw [hwr] at h
    simp only [writerStep] at h
    split at h <;> cases h
    rename_i hlock
    exact .record hwr (by simpa using hlock)
  | closing =>
    rw [hwr] at h
    simp only [writerStep] at h
    split at h
    · rename_i hclose
      cases h
      exact .closed hwr hclose
    · rename_i hclose
      exact closeStep_effect hclose h
    · cases h
  | finishing =>
    rw [hwr] at h
    cases h
    exact .finish hwr
  | draining error phase =>
    rw [hwr] at h
    cases phase with
    | taking =>
      cases hqueue : c.queue with
      | nil =>
        have hdrain : drainStep c error .taking = (c, none) := by
          simp only [drainStep, hqueue]
        simp only [writerStep, hdrain] at h
        cases h
        exact .stop hwr hqueue
      | cons item rest =>
        cases item with
        | none =>
          simp only [writerStep, drainStep, hqueue] at h
          cases h
          exact .finalSkip hwr hqueue
        | some id =>
          simp only [writerStep, drainStep, hqueue] at h
          cases h
          exact .finalTake hwr hqueue
    | failing id =>
      cases h
      exact .finalFail hwr
    | signalling id =>
      cases h
      exact .finalSignal hwr
  | stopped =>
    rw [hwr] at h
    cases h

/-- **Each step has one of the effects.** -/
theorem step_effect {action : Action} (h : step c action = some c') : Effect c c' := by
  cases action with
  | send id waitForWrite =>
    simp only [step] at h
    split at h <;> cases h
    rename_i hfree
    exact .send hfree
  | call id choice =>
    obtain ⟨call, hcall, hstep⟩ := Option.bind_eq_some_iff.mp h
    exact callStep_effect hcall hstep
  | writer outcome => exact writerStep_effect h
  | beginClose n =>
    simp only [step] at h
    split at h <;> cases h
    rename_i hfree
    exact .beginClose hfree
  | close n =>
    obtain ⟨phase, hphase, hstep⟩ := Option.bind_eq_some_iff.mp h
    exact closeStep_effect hphase hstep

/-! ### Who may write -/

def ClosePhase.isDraining : ClosePhase → Bool
  | .draining _ _ => true
  | _ => false

/-- Between taking and releasing the lock. -/
def ClosePhase.isCritical : ClosePhase → Bool
  | .draining _ _ | .posting => true
  | .entering | .closed => false

theorem ClosePhase.isCritical_of_isDraining (h : phase.isDraining = true) :
    phase.isCritical = true := by
  cases phase with
  | draining error phase => rfl
  | entering | posting | closed => cases h

/-- A call of `close` is failing the pending sends. -/
def AnyDraining (closers : Closer → Option ClosePhase) : Prop :=
  ∃ closer phase, closers closer = some phase ∧ phase.isDraining = true

variable {closers : Closer → Option ClosePhase}

theorem anyDraining_update_self (h : phase.isDraining = true) :
    AnyDraining (Function.update closers closer (some phase)) :=
  ⟨closer, phase, update_self _ _ _, h⟩

theorem AnyDraining.update {new : Option ClosePhase} (h : AnyDraining closers)
    (hclose : ∀ phase, closers closer = some phase → phase.isDraining = false) :
    AnyDraining (Function.update closers closer new) := by
  obtain ⟨other, phase, hphase, hdraining⟩ := h
  refine ⟨other, phase, ?_, hdraining⟩
  rw [update_of_ne, hphase]
  intro heq
  rw [heq] at hphase
  rw [hclose phase hphase] at hdraining
  cases hdraining

/-- The lock keeps senders out once the connection is being closed. -/
structure Control (c : Connection) : Prop where
  putting : ∀ id call, c.calls id = some call → call.phase = .putting →
    c.lock = some (.call id) ∧ c.isRunning = true
  critical : ∀ closer phase, c.closers closer = some phase → phase.isCritical = true →
    c.lock = some (.closer closer) ∧ c.closeStarted = true ∧ c.closeReturned = false
  stopped : c.closeStarted = true → c.isRunning = false
  returned : c.closeReturned = true → c.closeStarted = true
  cleared : c.closeStarted = true → c.queue.reduceOption = [] ∨ AnyDraining c.closers

theorem control_initial : Control initial where
  putting := by
    intro id call hcall
    cases hcall
  critical := by
    intro closer phase hphase
    cases hphase
  stopped := by
    intro hstart
    cases hstart
  returned := by
    intro hret
    cases hret
  cleared := by
    intro hstart
    cases hstart

variable (h : Control c)

include h

variable (heff : Effect c c')

include heff

theorem Control.stopped_step :
    c'.closeStarted = true → c'.isRunning = false := by
  have hstop := h.stopped
  cases heff <;> first | exact hstop | exact fun _ => rfl

theorem Control.returned_step :
    c'.closeReturned = true → c'.closeStarted = true := by
  have hret := h.returned
  cases heff
  case enter => exact fun _ => rfl
  case reenter closer hclose hlock hstart => exact fun _ => hstart
  case post closer queue hclose hqueue => exact fun _ => (h.critical closer _ hclose rfl).2.1
  all_goals exact hret

theorem Control.putting_step (id : CallId) (call : Call)
    (hcall : c'.calls id = some call) (hphase : call.phase = .putting) :
    c'.lock = some (.call id) ∧ c'.isRunning = true := by
  obtain ⟨hputting, hcrit, -, -, -⟩ := h
  cases heff <;> first
    | exact hputting id call hcall hphase
    | (simp only [Connection.setCall, Connection.setCloser, Connection.setException,
        Connection.setDone, Connection.modifyCall] at hcall ⊢
       grind [ClosePhase.isCritical, = Option.map_eq_some_iff])

theorem Control.critical_step (closer : Closer)
    (phase : ClosePhase) (hphase : c'.closers closer = some phase)
    (hclosing : phase.isCritical = true) :
    c'.lock = some (.closer closer) ∧ c'.closeStarted = true ∧ c'.closeReturned = false := by
  obtain ⟨hputting, hcrit, -, hret, -⟩ := h
  cases heff <;> first
    | exact hcrit closer phase hphase hclosing
    | (simp only [Connection.setCall, Connection.setCloser, Connection.setException,
        Connection.setDone, Connection.modifyCall] at hphase ⊢
       grind [ClosePhase.isCritical])

theorem Control.cleared_step
    (hstart : c'.closeStarted = true) : c'.queue.reduceOption = [] ∨ AnyDraining c'.closers := by
  obtain ⟨hputting, hcrit, hstop, -, hclr⟩ := h
  cases heff <;> first
    | exact hclr hstart
    | (simp only [Connection.setCall, Connection.setCloser] at hstart ⊢
       grind [ClosePhase.isDraining, ClosePhase.isCritical_of_isDraining,
        reduceOption_nil, reduceOption_cons_of_none, reduceOption_cons_of_some,
        reduceOption_append, anyDraining_update_self, AnyDraining.update])

/-- **The steps keep the control of the lock.** -/
theorem Control.step : Control c' where
  putting := h.putting_step heff
  critical := h.critical_step heff
  stopped := h.stopped_step heff
  returned := h.returned_step heff
  cleared := h.cleared_step heff

omit heff

omit h

/-! ### What is never taken back -/

/-- A call goes on: its frame stays queued, its event stays set, its exception stays. -/
structure Call.Goes (before after : Call) : Prop where
  queued : before.phase.isQueueing = false → after.phase.isQueueing = false
  waits : after.done.isSome = before.done.isSome
  done : before.done ≠ some false → after.done ≠ some false
  failed : before.exception.isSome = true → after.exception.isSome = true

theorem Call.Goes.refl (call : Call) : call.Goes call := ⟨id, rfl, id, id⟩

structure Grows (c c' : Connection) : Prop where
  calls : ∀ id call, c.calls id = some call → ∃ call', c'.calls id = some call' ∧ call.Goes call'
  delivered : c.delivered ⊆ c'.delivered
  closeReturned : c.closeReturned = true → c'.closeReturned = true

variable {key : CallId}

theorem calls_update {calls : CallId → Option Call} {new : Option Call}
    (h : ∀ call, calls key = some call → ∃ call', new = some call' ∧ call.Goes call')
    (id : CallId) (call : Call) (hcall : calls id = some call) :
    ∃ call', Function.update calls key new id = some call' ∧ call.Goes call' := by
  by_cases hid : id = key
  · subst hid
    rw [update_self]
    exact h call hcall
  · rw [update_of_ne hid]
    exact ⟨call, hcall, .refl call⟩

theorem grows_setCall {old new : Call} (hold : c.calls key = some old)
    (h : old.Goes new) : Grows c (c.setCall key new) := by
  refine ⟨calls_update ?_, List.Subset.refl _, fun h => h⟩
  intro call hcall
  rw [hold] at hcall
  cases hcall
  exact ⟨new, rfl, h⟩

theorem grows_modifyCall {f : Call → Call} (h : ∀ call : Call, call.Goes (f call)) :
    Grows c (c.modifyCall key f) := by
  refine ⟨calls_update ?_, List.Subset.refl _, fun h => h⟩
  intro call hcall
  rw [hcall]
  exact ⟨f call, rfl, h call⟩

theorem grows_setException (c : Connection) (key : CallId) (error : SendError) :
    Grows c (c.setException key error) :=
  grows_modifyCall fun _ => ⟨fun h => h, rfl, fun h => h, fun _ => rfl⟩

theorem grows_setDone (c : Connection) (key : CallId) : Grows c (c.setDone key) := by
  apply grows_modifyCall
  intro call
  refine ⟨fun h => h, ?_, ?_, fun h => h⟩
  · cases call.done <;> rfl
  · intro _
    cases call.done <;> simp

theorem Grows.refl (c : Connection) : Grows c c :=
  ⟨fun _ call hcall => ⟨call, hcall, .refl call⟩, List.Subset.refl _, fun h => h⟩

variable {d : Connection}

theorem Grows.of_eq (h : Grows c d) (hcalls : c'.calls = d.calls)
    (hdeliv : d.delivered ⊆ c'.delivered)
    (hret : d.closeReturned = true → c'.closeReturned = true) : Grows c c' := by
  refine ⟨?_, List.Subset.trans h.delivered hdeliv, fun hc => hret (h.closeReturned hc)⟩
  rw [hcalls]
  exact h.calls

theorem goes_phase {phase : CallPhase}
    (h : call.phase.isQueueing = false → phase.isQueueing = false) :
    call.Goes { call with phase := phase } :=
  ⟨h, rfl, fun h => h, fun h => h⟩

/-- **Nothing is taken back.** -/
theorem Effect.grows (heff : Effect c c') : Grows c c' := by
  cases heff
  case send id waitForWrite hfree =>
    refine ⟨calls_update ?_, List.Subset.refl _, fun h => h⟩
    intro call hcall
    rw [hfree] at hcall
    cases hcall
  case lockCall id call hcall hphase hlock hrun | accept id call hcall hphase |
      full id call phase hcall hphase hnew =>
    exact (grows_setCall hcall (goes_phase (by simp [hphase, CallPhase.isQueueing]))).of_eq rfl
      (List.Subset.refl _) (fun h => h)
  case refuse id call phase hcall hphase hnew =>
    exact grows_setCall hcall (goes_phase (by simp [hphase, CallPhase.isQueueing]))
  case wake id call hcall hphase hdone => exact grows_setCall hcall (goes_phase fun _ => rfl)
  case poll id call phase hcall hphase hnew =>
    apply grows_setCall hcall (goes_phase _)
    intro _
    rcases hnew with rfl | rfl | rfl <;> rfl
  case abandon id call error hcall hphase =>
    exact grows_setCall hcall ⟨fun _ => rfl, rfl, fun h => h, fun _ => rfl⟩
  case leave id call hcall hphase =>
    apply grows_setCall hcall (goes_phase _)
    intro _
    split <;> rfl
  case drainFail closer error id hclose | raise id error hwr | finalFail error id hwr =>
    exact (grows_setException c id error).of_eq rfl (List.Subset.refl _) (fun h => h)
  case drainSignal closer error id hclose | signal id error hwr |
      finalSignal error id hwr =>
    exact (grows_setDone c id).of_eq rfl (List.Subset.refl _) (fun h => h)
  case succeed id hwr => exact (grows_setDone c id).of_eq rfl (List.Subset.refl _) (fun h => h)
  case deliver id hwr =>
    exact (Grows.refl c).of_eq rfl (subset_append_left _ _) (fun h => h)
  -- the other steps leave calls and deliveries alone
  all_goals exact (Grows.refl c).of_eq rfl (List.Subset.refl _) (fun h => by first | exact h | rfl)

/-! ### The order of frames -/

def DrainPhase.frame? : DrainPhase → Option CallId
  | .taking => none
  | .failing id | .signalling id => some id

def ClosePhase.frame? : ClosePhase → Option CallId
  | .draining _ phase => phase.frame?
  | .entering | .posting | .closed => none

theorem ClosePhase.isCritical_of_frame? (h : phase.frame? = some id) : phase.isCritical = true := by
  cases phase with
  | draining error phase => rfl
  | entering | posting | closed => cases h

/-- The frame that the writer has taken off the queue. -/
def WriterPhase.frame? : WriterPhase → Option CallId
  | .checking id | .sending id | .succeeded id | .raising id _ | .signalling id _ => some id
  | .draining _ phase => phase.frame?
  | .getting | .recording _ | .closing | .finishing | .stopped => none

/-- The frame that the writer is about to pass on. -/
def WriterPhase.fetched : WriterPhase → List CallId
  | .checking id => [id]
  | _ => []

/-- A thread that is going to settle the frame. -/
def Connection.Holds (c : Connection) (id : CallId) : Prop :=
  c.writer.frame? = some id ∨ ∃ closer phase, c.closers closer = some phase ∧ phase.frame? = some id

structure Order (c : Connection) : Prop where
  order : (c.passed ++ c.writer.fetched ++ c.queue.reduceOption).Sublist c.accepted
  nodup : c.accepted.Nodup
  queued : ∀ id ∈ c.accepted, ∃ call, c.calls id = some call ∧ call.phase.isQueueing = false
  delivered : c.delivered ⊆ c.passed
  sending : ∀ id, c.writer = .sending id → id ∈ c.passed
  held : ∀ id, c.Holds id → id ∈ c.accepted

theorem order_initial : Order initial where
  order := List.Sublist.slnil
  nodup := nodup_nil
  queued := by
    intro id hid
    cases hid
  delivered := List.Subset.refl _
  sending := by
    intro id hwr
    cases hwr
  held := by
    intro id hheld
    cases hheld with
    | inl hwr => cases hwr
    | inr hclose =>
      obtain ⟨closer, phase, hphase, -⟩ := hclose
      cases hphase

theorem Order.mem_accepted {rest : List (Option CallId)} (h : Order c)
    (hqueue : c.queue = some id :: rest) : id ∈ c.accepted := by
  apply h.order.subset
  rw [hqueue]
  exact mem_append_cons_self

theorem Order.of_calls (h : Order c) (hgrows : Grows c d)
    (horder : (d.passed ++ d.writer.fetched ++ d.queue.reduceOption).Sublist
      (c.passed ++ c.writer.fetched ++ c.queue.reduceOption))
    (hacc : d.accepted = c.accepted)
    (hdeliv : d.delivered ⊆ d.passed)
    (hsend : ∀ id, d.writer = .sending id → id ∈ d.passed)
    (hheld : ∀ id, d.Holds id → id ∈ c.accepted) : Order d := by
  refine ⟨?_, ?_, ?_, hdeliv, hsend, ?_⟩
  · rw [hacc]
    exact horder.trans h.order
  · rw [hacc]
    exact h.nodup
  · rw [hacc]
    intro id hid
    obtain ⟨call, hcall, hqueued⟩ := h.queued id hid
    obtain ⟨call', hcall', hgoes⟩ := hgrows.calls id call hcall
    exact ⟨call', hcall', hgoes.queued hqueued⟩
  · rw [hacc]
    exact hheld

theorem Order.of_sender (h : Order c) (hgrows : Grows c d)
    (hqueue : d.queue = c.queue) (hwr : d.writer = c.writer) (hclosers : d.closers = c.closers)
    (hacc : d.accepted = c.accepted) (hpass : d.passed = c.passed)
    (hdeliv : d.delivered = c.delivered) : Order d := by
  apply h.of_calls hgrows _ hacc
  · rw [hdeliv, hpass]
    exact h.delivered
  · rw [hwr, hpass]
    exact h.sending
  · intro id hheld
    rw [Connection.Holds, hwr, hclosers] at hheld
    exact h.held id hheld
  · rw [hpass, hwr, hqueue]

theorem Order.of_closer (h : Order c)
    (hgrows : Grows c d) (hclosers : d.closers = Function.update c.closers closer (some phase))
    (hwr : d.writer = c.writer) (hacc : d.accepted = c.accepted)
    (hpass : d.passed = c.passed) (hdeliv : d.delivered = c.delivered)
    (hqueue : d.queue.reduceOption.Sublist c.queue.reduceOption)
    (hframe : ∀ id, phase.frame? = some id → id ∈ c.accepted) : Order d := by
  apply h.of_calls hgrows _ hacc
  · rw [hdeliv, hpass]
    exact h.delivered
  · rw [hwr, hpass]
    exact h.sending
  · intro id hheld
    rw [Connection.Holds, hwr, hclosers] at hheld
    obtain hheld | ⟨other, phase', hphase', hheld⟩ := hheld
    · exact h.held id (Or.inl hheld)
    by_cases hother : other = closer
    · rw [hother, update_self, Option.some.injEq] at hphase'
      rw [← hphase'] at hheld
      exact hframe id hheld
    · rw [update_of_ne hother] at hphase'
      exact h.held id (Or.inr ⟨other, phase', hphase', hheld⟩)
  · rw [hpass, hwr]
    exact (List.Sublist.refl _).append hqueue

theorem Order.of_writer (h : Order c) (hgrows : Grows c d)
    (hclosers : d.closers = c.closers) (hacc : d.accepted = c.accepted)
    (horder : (d.passed ++ d.writer.fetched ++ d.queue.reduceOption).Sublist
      (c.passed ++ c.writer.fetched ++ c.queue.reduceOption))
    (hdeliv : d.delivered ⊆ d.passed)
    (hsend : ∀ id, d.writer = .sending id → id ∈ d.passed)
    (hframe : ∀ id, d.writer.frame? = some id → c.writer.frame? = some id ∨ id ∈ c.accepted) :
    Order d := by
  apply h.of_calls hgrows horder hacc hdeliv hsend
  intro id hheld
  rw [Connection.Holds, hclosers] at hheld
  cases hheld with
  | inl hwr =>
    cases hframe id hwr with
    | inl hold => exact h.held id (Or.inl hold)
    | inr hmem => exact hmem
  | inr hclose => exact h.held id (Or.inr hclose)

/-- **The order of frames** is kept by each step. -/
theorem Order.step (h : Order c) (heff : Effect c c') : Order c' := by
  have hgrows := heff.grows
  cases heff
  case accept id call hcall hphase =>
    have hnew : id ∉ c.accepted := by
      intro hmem
      obtain ⟨call', hcall', hqueued⟩ := h.queued id hmem
      rw [hcall] at hcall'
      cases hcall'
      rw [hphase] at hqueued
      cases hqueued
    refine ⟨?_, ?_, ?_, h.delivered, h.sending, ?_⟩
    · show (c.passed ++ c.writer.fetched ++ (c.queue ++ [some id]).reduceOption).Sublist
        (c.accepted ++ [id])
      rw [reduceOption_append, ← append_assoc]
      exact h.order.append (List.Sublist.refl _)
    · apply nodup_append.mpr
      refine ⟨h.nodup, nodup_singleton id, ?_⟩
      intro a ha b hb heq
      rw [heq, mem_singleton.mp hb] at ha
      exact hnew ha
    · intro other hother
      by_cases heq : other = id
      · subst heq
        refine ⟨_, update_self _ _ _, ?_⟩
        show CallPhase.isQueueing (if call.waits then .waiting else .returned true) = false
        split <;> rfl
      · have hmem : other ∈ c.accepted := by
          cases mem_append.mp hother with
          | inl hold => exact hold
          | inr hlast => exact absurd (mem_singleton.mp hlast) heq
        obtain ⟨call', hcall', hqueued⟩ := h.queued other hmem
        refine ⟨call', ?_, hqueued⟩
        show update _ _ _ _ = _
        rw [update_of_ne heq]
        exact hcall'
    · intro other hheld
      exact mem_append_left _ (h.held other hheld)
  case send | lockCall | refuse | full | wake | poll | abandon | leave =>
    exact h.of_sender hgrows rfl rfl rfl rfl rfl rfl
  case beginClose n hfree | enter closer hclose hlock hstart |
      reenter closer hclose hlock hstart | drainEmpty closer error hclose hqueue =>
    apply h.of_closer hgrows rfl rfl rfl rfl rfl (List.Sublist.refl _)
    intro id hframe
    cases hframe
  case drainSkip closer error rest hclose hqueue =>
    apply h.of_closer hgrows rfl rfl rfl rfl rfl
    · rw [hqueue]
      exact List.Sublist.refl _
    · intro id hframe
      cases hframe
  case drainTake closer error id rest hclose hqueue =>
    apply h.of_closer hgrows rfl rfl rfl rfl rfl
    · rw [hqueue]
      exact sublist_cons_self _ _
    · intro other hframe
      cases hframe
      exact h.mem_accepted hqueue
  case drainFail closer error id hclose =>
    apply h.of_closer hgrows rfl rfl rfl rfl rfl (List.Sublist.refl _)
    intro other hframe
    exact h.held other (Or.inr ⟨closer, _, hclose, hframe⟩)
  case drainSignal closer error id hclose =>
    apply h.of_closer hgrows rfl rfl rfl rfl rfl (List.Sublist.refl _)
    intro other hframe
    cases hframe
  case post closer queue hclose hqueue =>
    apply h.of_closer hgrows rfl rfl rfl rfl rfl
    · cases hqueue with
      | inl hsame => exact hsame ▸ List.Sublist.refl _
      | inr hposted =>
        show queue.reduceOption.Sublist _
        rw [hposted, reduceOption_append, reduceOption_singleton, Option.toList_none, append_nil]
    · intro id hframe
      cases hframe
  case record error hwr hlock =>
    -- the writer lets go of its frame, and then calls `close`
    have hleft : Grows c { c with writer := .closing } :=
      (Grows.refl c).of_eq rfl (List.Subset.refl _) fun h => h
    have hwrit : Order { c with writer := .closing } := by
      apply h.of_writer hleft rfl rfl _ h.delivered
      · intro id hsend
        cases hsend
      · intro id hframe
        cases hframe
      · rw [hwr]
        exact List.Sublist.refl _
    have hcalled : Grows { c with writer := .closing } { c.setCloser .writer .entering with
          writerError := some error
          isRunning := false
          writer := .closing } :=
      (Grows.refl _).of_eq rfl (List.Subset.refl _) fun h => h
    apply hwrit.of_closer hcalled rfl rfl rfl rfl rfl (List.Sublist.refl _)
    intro id hframe
    cases hframe
  case sentinel rest hwr hqueue =>
    apply h.of_writer hgrows rfl rfl _ h.delivered
    · intro id hsend
      cases hsend
    · intro id hframe
      cases hframe
    · rw [hwr, hqueue]
      exact List.Sublist.refl _
  case fetch id rest hwr hqueue =>
    apply h.of_writer hgrows rfl rfl _ h.delivered
    · intro other hsend
      cases hsend
    · intro other hframe
      cases hframe
      exact Or.inr (h.mem_accepted hqueue)
    · rw [hwr, hqueue]
      show (c.passed ++ [id] ++ rest.reduceOption).Sublist (c.passed ++ [] ++ id :: rest.reduceOption)
      rw [append_assoc, append_nil]
      exact List.Sublist.refl _
  case pass id hwr hrun =>
    apply h.of_writer hgrows rfl rfl
    · rw [hwr]
      show (c.passed ++ [id] ++ [] ++ c.queue.reduceOption).Sublist _
      rw [append_nil]
      exact List.Sublist.refl _
    · exact List.Subset.trans h.delivered (subset_append_left _ _)
    · intro other hsend
      cases hsend
      exact mem_append_right _ (mem_singleton.mpr rfl)
    · intro other hframe
      rw [hwr]
      exact Or.inl hframe
  case refuseFrame id hwr =>
    apply h.of_writer hgrows rfl rfl _ h.delivered
    · intro other hsend
      cases hsend
    · intro other hframe
      rw [hwr]
      exact Or.inl hframe
    · rw [hwr]
      show (c.passed ++ [] ++ c.queue.reduceOption).Sublist (c.passed ++ [id] ++ _)
      exact ((List.Sublist.refl _).append (nil_sublist _)).append (List.Sublist.refl _)
  case deliver id hwr =>
    apply h.of_writer hgrows rfl rfl
    · rw [hwr]
      exact List.Sublist.refl _
    · intro other hother
      cases mem_append.mp hother with
      | inl hold => exact h.delivered hold
      | inr hnew =>
        rw [mem_singleton.mp hnew]
        exact h.sending id hwr
    · intro other hsend
      cases hsend
    · intro other hframe
      rw [hwr]
      exact Or.inl hframe
  case finalSkip error rest hwr hqueue =>
    apply h.of_writer hgrows rfl rfl _ h.delivered
    · intro id hsend
      cases hsend
    · intro id hframe
      cases hframe
    · rw [hwr, hqueue, reduceOption_cons_of_none]
  case finalTake error id rest hwr hqueue =>
    apply h.of_writer hgrows rfl rfl _ h.delivered
    · intro other hsend
      cases hsend
    · intro other hframe
      cases hframe
      exact Or.inr (h.mem_accepted hqueue)
    · rw [hwr, hqueue]
      exact (List.Sublist.refl _).append (sublist_cons_self _ _)
  -- the other steps of the writer: it keeps its frame or is done with it
  all_goals
    have hwr := ‹c.writer = _›
    apply h.of_writer hgrows rfl rfl _ h.delivered
    · intro other hsend
      cases hsend
    · intro other hframe
      rw [hwr]
      first
        | exact Or.inl hframe
        | cases hframe
    · rw [hwr]
      exact List.Sublist.refl _

end Cfms.Transport.Outbound
