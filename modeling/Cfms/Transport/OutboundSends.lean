import Cfms.Transport.OutboundOrder

/-!
# Sends are reported truthfully and in order

Three more invariants of the outbound queue: what an event says about its frame (`Truth`), that
every queued frame has an owner until it is settled (`Owned`), and that `close` wakes the writer
(`Wakes`).  With the order of the frames they give what a sender can rely on, also while the
connection is closed.
-/

namespace Cfms.Transport.Outbound

open Lib.Run List Option Function

variable {c c' : Connection}

/-! ### What the events say -/

/-- `ws.send` has returned for the frame, or it has an exception. -/
def Told (delivered : List CallId) (id : CallId) (call : Call) : Prop :=
  call.exception.isSome = true ∨ id ∈ delivered

structure CallTruth (delivered : List CallId) (id : CallId) (call : Call) : Prop where
  signalled : call.done = some true → Told delivered id call
  left : call.phase = .leaving → Told delivered id call
  returned : ∀ result, call.waits = true → call.phase = .returned result → id ∈ delivered

/-- The frame has its exception. -/
def Connection.Failed (c : Connection) (id : CallId) : Prop :=
  ∃ call, c.calls id = some call ∧ call.exception.isSome = true

def DrainPhase.signals? : DrainPhase → Option CallId
  | .signalling id => some id
  | .taking | .failing _ => none

def ClosePhase.signals? : ClosePhase → Option CallId
  | .draining _ phase => phase.signals?
  | .entering | .posting | .closed => none

/-- The frame whose event is set next, after its exception. -/
def WriterPhase.signals? : WriterPhase → Option CallId
  | .signalling id _ => some id
  | .draining _ phase => phase.signals?
  | _ => none

/-- An event is set after the outcome of its frame is known. -/
structure Truth (c : Connection) : Prop where
  calls : ∀ id call, c.calls id = some call → CallTruth c.delivered id call
  succeeded : ∀ id, c.writer = .succeeded id → id ∈ c.delivered
  writer : ∀ id, c.writer.signals? = some id → c.Failed id
  closers : ∀ closer phase id, c.closers closer = some phase → phase.signals? = some id → c.Failed id

theorem truth_initial : Truth initial where
  calls := by
    intro id call hcall
    cases hcall
  succeeded := by
    intro id hwr
    cases hwr
  writer := by
    intro id hsigs
    cases hsigs
  closers := by
    intro closer phase id hphase
    cases hphase

theorem Connection.Failed.grows {id : CallId} (h : c.Failed id) (hgrows : Grows c c') :
    c'.Failed id := by
  obtain ⟨call, hcall, hfail⟩ := h
  obtain ⟨call', hcall', hgoes⟩ := hgrows.calls id call hcall
  exact ⟨call', hcall', hgoes.failed hfail⟩

theorem CallTruth.delivered {delivered delivered' : List CallId} {id : CallId} {call : Call}
    (h : CallTruth delivered id call) (hsub : delivered ⊆ delivered') :
    CallTruth delivered' id call :=
  ⟨fun hdone => (h.signalled hdone).imp_right fun hmem => hsub hmem,
    fun hphase => (h.left hphase).imp_right fun hmem => hsub hmem,
    fun result hwaits hphase => hsub (h.returned result hwaits hphase)⟩

variable {key : CallId} {new : Call}

theorem Truth.setCall (h : Truth c) (hnew : CallTruth c.delivered key new)
    (id : CallId) (call : Call) (hcall : Function.update c.calls key (some new) id = some call) :
    CallTruth c.delivered id call := by
  by_cases hid : id = key
  · subst hid
    rw [update_self] at hcall
    cases hcall
    exact hnew
  · rw [update_of_ne hid] at hcall
    exact h.calls id call hcall

theorem Truth.modifyCall {f : Call → Call} (h : Truth c)
    (hf : ∀ call, c.calls key = some call → CallTruth c.delivered key (f call))
    (id : CallId) (call : Call) (hcall : (c.modifyCall key f).calls id = some call) :
    CallTruth c.delivered id call := by
  by_cases hid : id = key
  · subst hid
    simp only [Connection.modifyCall, update_self, map_eq_some_iff] at hcall
    obtain ⟨old, hold, rfl⟩ := hcall
    exact hf old hold
  · simp only [Connection.modifyCall, update_of_ne hid] at hcall
    exact h.calls id call hcall

theorem Truth.setException (h : Truth c) (key : CallId) (error : SendError) (id : CallId)
    (call : Call) (hcall : (c.setException key error).calls id = some call) :
    CallTruth c.delivered id call := by
  refine h.modifyCall ?_ id call hcall
  intro old hold
  exact ⟨fun _ => Or.inl rfl, fun _ => Or.inl rfl, (h.calls key old hold).returned⟩

theorem Truth.setDone (h : Truth c) (htold : c.Failed key ∨ key ∈ c.delivered)
    (id : CallId) (call : Call) (hcall : (c.setDone key).calls id = some call) :
    CallTruth c.delivered id call := by
  refine h.modifyCall ?_ id call hcall
  intro old hold
  have hold' := h.calls key old hold
  refine ⟨?_, hold'.left, ?_⟩
  · intro _
    cases htold with
    | inl hfail =>
      obtain ⟨failed, hfail, hexc⟩ := hfail
      rw [hold] at hfail
      cases hfail
      exact Or.inl hexc
    | inr hmem => exact Or.inr hmem
  · intro result hwaits hphase
    apply hold'.returned result _ hphase
    simpa [Call.waits] using hwaits

theorem failed_setException {id : CallId} (horder : Order c) (hheld : c.Holds id) (error : SendError) :
    (c.setException id error).Failed id := by
  obtain ⟨call, hcall, -⟩ := horder.queued id (horder.held id hheld)
  refine ⟨{ call with exception := some error }, ?_, rfl⟩
  simp only [Connection.setException, Connection.modifyCall, update_self, hcall, map_some]

variable {d : Connection}

theorem Truth.of_calls (h : Truth c) (hgrows : Grows c d)
    (hcalls : ∀ id call, d.calls id = some call → CallTruth d.delivered id call)
    (hsucc : ∀ id, d.writer = .succeeded id → id ∈ d.delivered)
    (hwr : ∀ id, d.writer.signals? = some id → c.writer.signals? = some id ∨ d.Failed id)
    (hclosers : ∀ closer phase id, d.closers closer = some phase → phase.signals? = some id →
      c.closers closer = some phase ∨ d.Failed id) : Truth d := by
  refine ⟨hcalls, hsucc, ?_, ?_⟩
  · intro id hsigs
    cases hwr id hsigs with
    | inl hold => exact (h.writer id hold).grows hgrows
    | inr hfail => exact hfail
  · intro closer phase id hphase hsigs
    cases hclosers closer phase id hphase hsigs with
    | inl hold => exact (h.closers closer phase id hold hsigs).grows hgrows
    | inr hfail => exact hfail

theorem Truth.of_sender (h : Truth c)
    (hgrows : Grows c d) (hcalls : d.calls = Function.update c.calls key (some new))
    (hwr : d.writer = c.writer) (hclosers : d.closers = c.closers)
    (hdeliv : d.delivered = c.delivered) (hnew : CallTruth c.delivered key new) : Truth d := by
  apply h.of_calls hgrows
  · rw [hcalls, hdeliv]
    exact h.setCall hnew
  · rw [hwr, hdeliv]
    exact h.succeeded
  · rw [hwr]
    exact fun id hsigs => Or.inl hsigs
  · rw [hclosers]
    exact fun closer phase id hphase _ => Or.inl hphase

variable {closer : Closer} {phase : ClosePhase}

theorem Truth.of_closer (h : Truth c)
    (hgrows : Grows c d) (hclosers : d.closers = Function.update c.closers closer (some phase))
    (hwr : d.writer = c.writer) (hdeliv : d.delivered = c.delivered)
    (hcalls : ∀ id call, d.calls id = some call → CallTruth c.delivered id call)
    (hsigs : ∀ id, phase.signals? = some id → d.Failed id) : Truth d := by
  apply h.of_calls hgrows
  · rw [hdeliv]
    exact hcalls
  · rw [hwr, hdeliv]
    exact h.succeeded
  · rw [hwr]
    exact fun id hsigs => Or.inl hsigs
  · rw [hclosers]
    intro other phase' id hphase' hsigs'
    by_cases hother : other = closer
    · rw [hother, update_self, some.injEq] at hphase'
      rw [← hphase'] at hsigs'
      exact Or.inr (hsigs id hsigs')
    · rw [update_of_ne hother] at hphase'
      exact Or.inl hphase'

theorem Truth.of_writer (h : Truth c) (hgrows : Grows c d) (hclosers : d.closers = c.closers)
    (hcalls : ∀ id call, d.calls id = some call → CallTruth d.delivered id call)
    (hsucc : ∀ id, d.writer = .succeeded id → id ∈ d.delivered)
    (hsigs : ∀ id, d.writer.signals? = some id → d.Failed id) : Truth d := by
  apply h.of_calls hgrows hcalls hsucc
  · exact fun id hid => Or.inr (hsigs id hid)
  · rw [hclosers]
    exact fun closer phase id hphase _ => Or.inl hphase

/-- **The events stay truthful.** -/
theorem Truth.step (h : Truth c) (horder : Order c) (heff : Effect c c') : Truth c' := by
  have hgrows := heff.grows
  cases heff
  case send id waitForWrite hfree =>
    apply h.of_sender hgrows rfl rfl rfl rfl
    refine ⟨?_, fun hphase => (by cases hphase), fun _ _ hphase => (by cases hphase)⟩
    intro hdone
    cases waitForWrite <;> cases hdone
  case lockCall id call hcall hphase hlock hrunning =>
    apply h.of_sender hgrows rfl rfl rfl rfl
    exact ⟨(h.calls id call hcall).signalled, fun hphase => (by cases hphase),
      fun _ _ hphase => (by cases hphase)⟩
  case refuse id call phase hcall hphase hnew | full id call phase hcall hphase hnew =>
    apply h.of_sender hgrows rfl rfl rfl rfl
    refine ⟨(h.calls id call hcall).signalled, ?_, ?_⟩
    · intro hleaving
      rcases hnew with rfl | ⟨-, rfl⟩ <;> cases hleaving
    · intro result hwaits hret
      obtain rfl | ⟨hnowait, rfl⟩ := hnew
      · cases hret
      · rw [show call.waits = true from hwaits] at hnowait
        cases hnowait
  case accept id call hcall hphase =>
    apply h.of_sender hgrows rfl rfl rfl rfl
    refine ⟨(h.calls id call hcall).signalled, ?_, ?_⟩
    · intro hleaving
      split at hleaving <;> cases hleaving
    · intro result hwaits hret
      rw [if_pos (show call.waits = true from hwaits)] at hret
      cases hret
  case wake id call hcall hphase hdone =>
    apply h.of_sender hgrows rfl rfl rfl rfl
    have htold : Told c.delivered id call := (h.calls id call hcall).signalled hdone
    exact ⟨fun _ => htold, fun _ => htold, fun _ _ hphase => (by cases hphase)⟩
  case poll id call phase hcall hphase hnew =>
    apply h.of_sender hgrows rfl rfl rfl rfl
    refine ⟨(h.calls id call hcall).signalled, ?_, ?_⟩
    · intro hleaving
      rcases hnew with rfl | rfl | rfl <;> cases hleaving
    · intro result _ hret
      rcases hnew with rfl | rfl | rfl <;> cases hret
  case abandon id call error hcall hphase =>
    apply h.of_sender hgrows rfl rfl rfl rfl
    exact ⟨fun _ => Or.inl rfl, fun _ => Or.inl rfl, fun _ _ hphase => (by cases hphase)⟩
  case leave id call hcall hphase =>
    apply h.of_sender hgrows rfl rfl rfl rfl
    have htruth := h.calls id call hcall
    refine ⟨htruth.signalled, ?_, ?_⟩
    · intro hleaving
      split at hleaving <;> cases hleaving
    · intro result _ hret
      split at hret
      · cases hret
      · rename_i hexc
        exact (htruth.left hphase).resolve_left hexc
  case beginClose n hfree | enter closer hclose hlock hstart |
      reenter closer hclose hlock hstart | drainEmpty closer error hclose hqueue |
      drainSkip closer error rest hclose hqueue | drainTake closer error id rest hclose hqueue |
      post closer queue hclose hqueue =>
    exact h.of_closer hgrows rfl rfl rfl h.calls fun id hsigs => (by cases hsigs)
  case drainFail closer error id hclose =>
    apply h.of_closer hgrows rfl rfl rfl (h.setException id error)
    intro other hsigs
    cases hsigs
    exact failed_setException horder (Or.inr ⟨closer, _, hclose, rfl⟩) error
  case drainSignal closer error id hclose =>
    apply h.of_closer hgrows rfl rfl rfl (h.setDone (Or.inl (h.closers closer _ id hclose rfl)))
    intro other hsigs
    cases hsigs
  case record error hwr hlock =>
    apply h.of_calls hgrows h.calls
    · intro id hsucc
      cases hsucc
    · intro id hsigs
      cases hsigs
    · intro closer phase id hphase hsigs
      by_cases hclose : closer = .writer
      · subst hclose
        simp only [Connection.setCloser, update_self, some.injEq] at hphase
        subst hphase
        cases hsigs
      · simp only [Connection.setCloser, update_of_ne hclose] at hphase
        exact Or.inl hphase
  case deliver id hwr =>
    apply h.of_writer hgrows rfl
    · intro other call hcall
      exact (h.calls other call hcall).delivered (subset_append_left _ _)
    · intro other hsucc
      cases hsucc
      exact mem_append_right _ (mem_singleton.mpr rfl)
    · intro other hsigs
      cases hsigs
  case succeed id hwr =>
    apply h.of_writer hgrows rfl (h.setDone (Or.inr (h.succeeded id hwr)))
    · intro other hsucc
      cases hsucc
    · intro other hsigs
      cases hsigs
  case raise id error hwr | finalFail error id hwr =>
    apply h.of_writer hgrows rfl (h.setException id error)
    · intro other hsucc
      cases hsucc
    · intro other hsigs
      cases hsigs
      exact failed_setException horder (Or.inl (by rw [hwr]; rfl)) error
  case signal id error hwr | finalSignal error id hwr =>
    apply h.of_writer hgrows rfl (h.setDone (Or.inl (h.writer id (by rw [hwr]; rfl))))
    · intro other hsucc
      cases hsucc
    · intro other hsigs
      cases hsigs
  -- the other steps of the writer do not touch a frame
  all_goals
    apply h.of_writer hgrows rfl h.calls
    · intro other hsucc
      cases hsucc
    · intro other hsigs
      cases hsigs

/-! ### Who owns a frame -/

/-- The frame was sent or has its exception, and its waiter is woken. -/
def Connection.Settled (c : Connection) (id : CallId) : Prop :=
  ∃ call, c.calls id = some call ∧ call.done ≠ some false ∧ Told c.delivered id call

theorem Connection.Settled.grows {id : CallId} (h : c.Settled id) (hgrows : Grows c c') :
    c'.Settled id := by
  obtain ⟨call, hcall, hdone, htold⟩ := h
  obtain ⟨call', hcall', hgoes⟩ := hgrows.calls id call hcall
  exact ⟨call', hcall', hgoes.done hdone, htold.imp hgoes.failed fun hmem => hgrows.delivered hmem⟩

def Owned (c : Connection) : Prop :=
  ∀ id ∈ c.accepted, some id ∈ c.queue ∨ c.Holds id ∨ c.Settled id

theorem owned_initial : Owned initial := by
  intro id hid
  cases hid

theorem settled_setDone {id : CallId} (horder : Order c) (hheld : c.Holds id)
    (htold : c.Failed id ∨ id ∈ c.delivered) : (c.setDone id).Settled id := by
  obtain ⟨call, hcall, -⟩ := horder.queued id (horder.held id hheld)
  refine ⟨{ call with done := call.done.map fun _ => true }, ?_, ?_, ?_⟩
  · simp only [Connection.setDone, Connection.modifyCall, update_self, hcall, map_some]
  · cases call.done <;> simp
  cases htold with
  | inl hfail =>
    obtain ⟨failed, hfail, hexc⟩ := hfail
    rw [hcall] at hfail
    cases hfail
    exact Or.inl hexc
  | inr hmem => exact Or.inr hmem

theorem Owned.of_kept (h : Owned c) (hgrows : Grows c d) (hacc : d.accepted = c.accepted)
    (hqueue : ∀ id, some id ∈ c.queue → some id ∈ d.queue ∨ d.Holds id)
    (hwr : ∀ id, c.writer.frame? = some id → d.writer.frame? = some id ∨ d.Settled id)
    (hclosers : ∀ closer phase id, c.closers closer = some phase → phase.frame? = some id →
      (∃ phase', d.closers closer = some phase' ∧ phase'.frame? = some id) ∨ d.Settled id) :
    Owned d := by
  intro id hid
  rw [hacc] at hid
  rcases h id hid with hmem | ⟨hframe | ⟨closer, phase, hphase, hframe⟩⟩ | hsett
  · rcases hqueue id hmem with hmem | hheld
    · exact Or.inl hmem
    · exact Or.inr (Or.inl hheld)
  · rcases hwr id hframe with hframe | hsett
    · exact Or.inr (Or.inl (Or.inl hframe))
    · exact Or.inr (Or.inr hsett)
  · rcases hclosers closer phase id hphase hframe with ⟨phase', hphase', hframe'⟩ | hsett
    · exact Or.inr (Or.inl (Or.inr ⟨closer, phase', hphase', hframe'⟩))
    · exact Or.inr (Or.inr hsett)
  · exact Or.inr (Or.inr (hsett.grows hgrows))

theorem Owned.of_sender (h : Owned c) (hgrows : Grows c d)
    (hacc : d.accepted = c.accepted) (hqueue : d.queue = c.queue)
    (hwr : d.writer = c.writer) (hclosers : d.closers = c.closers) : Owned d := by
  apply h.of_kept hgrows hacc
  · rw [hqueue]
    exact fun id hmem => Or.inl hmem
  · rw [hwr]
    exact fun id hframe => Or.inl hframe
  · rw [hclosers]
    exact fun closer phase id hphase hframe => Or.inl ⟨phase, hphase, hframe⟩

theorem Owned.of_closer {old : Option ClosePhase} (h : Owned c) (hgrows : Grows c d)
    (hclosers : d.closers = Function.update c.closers closer (some phase))
    (hold : c.closers closer = old) (hwr : d.writer = c.writer)
    (hacc : d.accepted = c.accepted)
    (hqueue : ∀ id, some id ∈ c.queue → some id ∈ d.queue ∨ phase.frame? = some id)
    (hframe : ∀ id, old.bind ClosePhase.frame? = some id → phase.frame? = some id ∨ d.Settled id) :
    Owned d := by
  have hself : d.closers closer = some phase := by rw [hclosers, update_self]
  apply h.of_kept hgrows hacc
  · intro id hmem
    exact (hqueue id hmem).imp_right fun hphase => Or.inr ⟨closer, phase, hself, hphase⟩
  · rw [hwr]
    exact fun id hframe => Or.inl hframe
  · intro other phase' id hphase' hframe'
    by_cases hother : other = closer
    · subst hother
      rw [← hold, hphase'] at hframe
      exact (hframe id hframe').imp_left fun hkept => ⟨phase, hself, hkept⟩
    · refine Or.inl ⟨phase', ?_, hframe'⟩
      rw [hclosers, update_of_ne hother]
      exact hphase'

theorem Owned.of_writer (h : Owned c) (hgrows : Grows c d)
    (hclosers : d.closers = c.closers) (hacc : d.accepted = c.accepted)
    (hqueue : ∀ id, some id ∈ c.queue → some id ∈ d.queue ∨ d.writer.frame? = some id)
    (hframe : ∀ id, c.writer.frame? = some id → d.writer.frame? = some id ∨ d.Settled id) :
    Owned d := by
  apply h.of_kept hgrows hacc
  · exact fun id hmem => (hqueue id hmem).imp_right Or.inl
  · exact hframe
  · rw [hclosers]
    exact fun closer phase id hphase hframe => Or.inl ⟨phase, hphase, hframe⟩

variable {other : CallId} {rest : List (Option CallId)}

theorem mem_rest_or_eq {id : CallId}
    (hqueue : c.queue = some id :: rest) (h : some other ∈ c.queue) :
    some other ∈ rest ∨ some id = some other := by
  rw [hqueue] at h
  cases mem_cons.mp h with
  | inl heq => exact Or.inr heq.symm
  | inr hmem => exact Or.inl hmem

theorem mem_rest_of_none
    (hqueue : c.queue = none :: rest) (h : some other ∈ c.queue) : some other ∈ rest := by
  rw [hqueue] at h
  cases mem_cons.mp h with
  | inl heq => cases heq
  | inr hmem => exact hmem

/-- **No frame is lost.** -/
theorem Owned.step (h : Owned c) (hcontrol : Control c) (horder : Order c) (htruth : Truth c)
    (heff : Effect c c') : Owned c' := by
  have hgrows := heff.grows
  cases heff
  case accept id call hcall hphase =>
    intro other hother
    cases mem_append.mp hother with
    | inl hold =>
      rcases h other hold with hmem | hheld | hsett
      · exact Or.inl (mem_append_left _ hmem)
      · exact Or.inr (Or.inl hheld)
      · exact Or.inr (Or.inr (hsett.grows hgrows))
    | inr hnew =>
      rw [mem_singleton.mp hnew]
      exact Or.inl (mem_append_right _ (mem_singleton.mpr rfl))
  case send | lockCall | refuse | full | wake | poll | abandon | leave =>
    exact h.of_sender hgrows rfl rfl rfl rfl
  case beginClose n hfree =>
    apply h.of_closer hgrows rfl hfree rfl rfl (fun id hmem => Or.inl hmem)
    intro id hframe
    cases hframe
  case enter closer hclose hlock hstart | reenter closer hclose hlock hstart |
      drainEmpty closer error hclose hqueue =>
    apply h.of_closer hgrows rfl hclose rfl rfl (fun id hmem => Or.inl hmem)
    intro id hframe
    cases hframe
  case drainSkip closer error rest hclose hqueue =>
    apply h.of_closer hgrows rfl hclose rfl rfl
      (fun id hmem => Or.inl (mem_rest_of_none hqueue hmem))
    intro id hframe
    cases hframe
  case drainTake closer error id rest hclose hqueue =>
    apply h.of_closer hgrows rfl hclose rfl rfl (fun other hmem => mem_rest_or_eq hqueue hmem)
    intro other hframe
    cases hframe
  case drainFail closer error id hclose =>
    exact h.of_closer hgrows rfl hclose rfl rfl (fun other hmem => Or.inl hmem)
      fun other hframe => Or.inl hframe
  case drainSignal closer error id hclose =>
    apply h.of_closer hgrows rfl hclose rfl rfl (fun other hmem => Or.inl hmem)
    intro other hframe
    cases hframe
    exact Or.inr (settled_setDone horder (Or.inr ⟨closer, _, hclose, rfl⟩)
      (Or.inl (htruth.closers closer _ id hclose rfl)))
  case post closer queue hclose hqueue =>
    apply h.of_closer hgrows rfl hclose rfl rfl
    · intro id hmem
      cases hqueue with
      | inl hsame => exact Or.inl (hsame ▸ hmem)
      | inr hposted => exact Or.inl (hposted ▸ mem_append_left _ hmem)
    · intro id hframe
      cases hframe
  case record error hwr hlock =>
    apply h.of_kept hgrows rfl (fun id hmem => Or.inl hmem)
    · intro id hframe
      rw [hwr] at hframe
      cases hframe
    · intro closer phase id hphase hframe
      have hholds := hcontrol.critical closer phase hphase (ClosePhase.isCritical_of_frame? hframe)
      rw [hlock] at hholds
      cases hholds.1
  case sentinel rest hwr hqueue | finalSkip error rest hwr hqueue =>
    apply h.of_writer hgrows rfl rfl (fun id hmem => Or.inl (mem_rest_of_none hqueue hmem))
    intro id hframe
    rw [hwr] at hframe
    cases hframe
  case fetch id rest hwr hqueue | finalTake error id rest hwr hqueue =>
    apply h.of_writer hgrows rfl rfl (fun other hmem => mem_rest_or_eq hqueue hmem)
    intro other hframe
    rw [hwr] at hframe
    cases hframe
  case succeed id hwr =>
    apply h.of_writer hgrows rfl rfl (fun other hmem => Or.inl hmem)
    intro other hframe
    rw [hwr] at hframe
    cases hframe
    exact Or.inr (settled_setDone horder (Or.inl (by rw [hwr]; rfl))
      (Or.inr (htruth.succeeded id hwr)))
  case signal id error hwr | finalSignal error id hwr =>
    apply h.of_writer hgrows rfl rfl (fun other hmem => Or.inl hmem)
    intro other hframe
    rw [hwr] at hframe
    cases hframe
    exact Or.inr (settled_setDone horder (Or.inl (by rw [hwr]; rfl))
      (Or.inl (htruth.writer id (by rw [hwr]; rfl))))
  -- the other steps of the writer: it keeps its frame or has none
  all_goals
    have hwr := ‹c.writer = _›
    apply h.of_writer hgrows rfl rfl (fun other hmem => Or.inl hmem)
    intro other hframe
    rw [hwr] at hframe
    exact Or.inl hframe

/-! ### Runs -/

structure Inv (c : Connection) : Prop where
  control : Control c
  order : Order c
  truth : Truth c
  owned : Owned c

theorem inv_initial : Inv initial := ⟨control_initial, order_initial, truth_initial, owned_initial⟩

theorem Inv.step {action : Action} (h : Inv c) (hstep : step c action = some c') : Inv c' := by
  have heff := step_effect hstep
  exact ⟨h.control.step heff, h.order.step heff, h.truth.step h.order heff,
    h.owned.step h.control h.order h.truth heff⟩

variable {actions : List Action}

theorem Inv.run (h : Inv c) (hrun : Lib.Run.run Outbound.step c actions = some c') : Inv c' :=
  run_invariant (fun _ _ _ hinv _ hstep => hinv.step hstep) h (meets_true actions) hrun

theorem Effect.accepted_eq (h : Control c) (hret : c.closeReturned = true)
    (heff : Effect c c') : c'.accepted = c.accepted := by
  cases heff
  case accept id call hcall hphase =>
    have hstop := h.stopped (h.returned hret)
    rw [(h.putting id call hcall hphase).2] at hstop
    cases hstop
  all_goals rfl

theorem Control.queue_eq_nil (h : Control c) (hret : c.closeReturned = true) :
    c.queue.reduceOption = [] := by
  apply (h.cleared (h.returned hret)).resolve_right
  rintro ⟨closer, phase, hphase, hdraining⟩
  have hcrit := h.critical closer phase hphase (ClosePhase.isCritical_of_isDraining hdraining)
  rw [hret] at hcrit
  cases hcrit.2.2

theorem Inv.settled_or_writer {id : CallId} (h : Inv c) (hret : c.closeReturned = true)
    (hid : id ∈ c.accepted) : c.Settled id ∨ c.writer.frame? = some id := by
  rcases h.owned id hid with hmem | ⟨hframe | ⟨closer, phase, hphase, hframe⟩⟩ | hsett
  · have hnil := h.control.queue_eq_nil hret
    have hqueued : id ∈ c.queue.reduceOption := reduceOption_mem_iff.mpr hmem
    rw [hnil] at hqueued
    cases hqueued
  · exact Or.inr hframe
  · have hclosing :=
      h.control.critical closer phase hphase (ClosePhase.isCritical_of_frame? hframe)
    rw [hret] at hclosing
    cases hclosing.2.2
  · exact Or.inl hsett

/-! ### Senders that wait -/

def CallPhase.isEnded : CallPhase → Bool
  | .returned _ | .raised => true
  | _ => false

def Connection.Ends (c : Connection) (id : CallId) : Prop :=
  ∃ (choices : List CallChoice) (c' : Connection) (call : Call),
    run step c (choices.map (Action.call id)) = some c' ∧ c'.calls id = some call ∧
      call.phase.isEnded = true

theorem Connection.Ends.of_step {id : CallId} (choice : CallChoice)
    (hstep : Outbound.step c (.call id choice) = some c') (h : c'.Ends id) : c.Ends id := by
  obtain ⟨choices, c'', call, hrun, hcall, hended⟩ := h
  exact ⟨choice :: choices, c'', call, run_cons_eq_some.mpr ⟨c', hstep, hrun⟩, hcall, hended⟩

variable {id : CallId} {call : Call}

theorem step_call {choice : CallChoice} (hcall : c.calls id = some call) :
    Outbound.step c (.call id choice) = callStep c id call call.phase choice := by
  show (c.calls id).bind _ = _
  rw [hcall]
  rfl

theorem ends_of_leaving (hcall : c.calls id = some call) (hphase : call.phase = .leaving) :
    c.Ends id := by
  refine ⟨[.proceed], c.setCall id
    { call with phase := if call.exception.isSome then .raised else .returned true }, _,
    run_cons_eq_some.mpr ⟨_, ?_, rfl⟩, update_self _ _ _, ?_⟩
  · rw [step_call hcall, hphase]
    rfl
  · show CallPhase.isEnded (if call.exception.isSome then .raised else .returned true) = true
    split <;> rfl

theorem ends_of_readingRunning (hstop : c.isRunning = false) (hcall : c.calls id = some call)
    (hphase : call.phase = .readingRunning) : c.Ends id := by
  apply Connection.Ends.of_step .proceed
  · rw [step_call hcall, hphase, callStep, if_neg (by rw [hstop]; exact Bool.false_ne_true)]
  · exact ends_of_leaving (update_self _ _ _) rfl

theorem ends_of_readingError (hstop : c.isRunning = false) (hcall : c.calls id = some call)
    (hphase : call.phase = .readingError) : c.Ends id := by
  cases herror : c.writerError with
  | none =>
    apply Connection.Ends.of_step .proceed
    · rw [step_call hcall, hphase, callStep, herror]
    · exact ends_of_readingRunning hstop (update_self _ _ _) rfl
  | some error =>
    apply Connection.Ends.of_step .proceed
    · rw [step_call hcall, hphase, callStep, herror]
    · exact ends_of_leaving (update_self _ _ _) rfl

/-- **A sender that waits on a closed connection ends** by its own steps. -/
theorem ends_of_waiting (hstop : c.isRunning = false) (hcall : c.calls id = some call)
    (hphase : call.phase = .waiting) : c.Ends id := by
  by_cases hdone : call.done = some true
  · apply Connection.Ends.of_step .proceed
    · rw [step_call hcall, hphase, callStep, if_pos hdone]
    · exact ends_of_leaving (update_self _ _ _) rfl
  · apply Connection.Ends.of_step .timeout
    · rw [step_call hcall, hphase, callStep, if_neg hdone]
    · exact ends_of_readingError hstop (update_self _ _ _) rfl

/-! ### Sends -/

theorem accepted_eq_of_run (h : Inv c) (hret : c.closeReturned = true)
    (hrun : run step c actions = some c') : c'.accepted = c.accepted := by
  induction actions generalizing c with
  | nil =>
    cases hrun
    rfl
  | cons action rest ih =>
    obtain ⟨d, hstep, hrest⟩ := run_cons_eq_some.mp hrun
    have heff := step_effect hstep
    rw [ih (h.step hstep) (heff.grows.closeReturned hret) hrest, heff.accepted_eq h.control hret]

/-- **Sends are reported truthfully and in order.** A call that waits for the write has returned
only if `ws.send` returned for its frame; each frame was passed to `ws.send` at most once, in the
order of the queue; and once a call of `close` has returned, no frame is accepted, those that were
are settled unless the writer is at them, and a sender that waits can end by itself. -/
theorem sends_truthful_and_ordered {actions : List Action}
    (hrun : run step initial actions = some c) :
    (∀ id call result, c.calls id = some call → call.waits = true →
        call.phase = .returned result → id ∈ c.delivered) ∧
      (c.delivered ⊆ c.passed ∧ c.passed.Nodup ∧ c.passed.Sublist c.accepted ∧ c.accepted.Nodup) ∧
      (c.closeReturned = true →
        (∀ later c', run step c later = some c' → c'.accepted = c.accepted) ∧
        (∀ id ∈ c.accepted, c.Settled id ∨ c.writer.frame? = some id) ∧
        ∀ id call, c.calls id = some call → call.phase = .waiting → c.Ends id) := by
  have hinv := inv_initial.run hrun
  have horder : c.passed.Sublist c.accepted := by
    refine List.Sublist.trans ?_ hinv.order.order
    rw [append_assoc]
    exact sublist_append_left _ _
  refine ⟨?_, ⟨hinv.order.delivered, horder.nodup hinv.order.nodup, horder, hinv.order.nodup⟩, ?_⟩
  · intro id call result hcall hwaits hret
    exact (hinv.truth.calls id call hcall).returned result hwaits hret
  · intro hret
    refine ⟨?_, ?_, ?_⟩
    · intro later c' hlater
      exact accepted_eq_of_run hinv hret hlater
    · intro id hid
      exact hinv.settled_or_writer hret hid
    · intro id call hcall hphase
      exact ends_of_waiting (hinv.control.stopped (hinv.control.returned hret)) hcall hphase

/-- A frame is sent and its sender returns; a second one is in the queue when `close` is called. -/
def closingRun : List Action :=
  [.send 0 true, .call 0 .proceed, .call 0 .proceed, .writer none, .writer none, .writer none,
    .writer none, .call 0 .proceed, .call 0 .proceed, .send 1 true, .call 1 .proceed,
    .call 1 .proceed, .beginClose 0, .close 0, .close 0, .close 0, .close 0, .close 0, .close 0]

def closedConnection : Connection := (run step initial closingRun).getD initial

theorem closingRun_settles_frames :
    run step initial closingRun = some closedConnection ∧ closedConnection.accepted = [0, 1] ∧
      closedConnection.passed = [0] ∧ closedConnection.passed.Nodup ∧
        (closedConnection.Settled 1 ∨ closedConnection.writer.frame? = some 1) := by
  have hrun : run step initial closingRun = some closedConnection :=
    run_eq_some_getD _ (by decide +kernel)
  obtain ⟨-, hpass, hcl⟩ := sends_truthful_and_ordered hrun
  have hacc : closedConnection.accepted = [0, 1] := by decide +kernel
  refine ⟨hrun, hacc, by decide +kernel, hpass.2.1, ?_⟩
  apply (hcl (by decide +kernel)).2.1
  decide

/-! ### The writer after `close` -/

/-- The writer will take an item from the queue. -/
def WriterPhase.isLooping : WriterPhase → Bool
  | .finishing | .draining _ _ | .stopped => false
  | _ => true

/-- A call of `close` gives the lock back and leaves the sentinel to the writer. -/
structure Wakes (c : Connection) : Prop where
  free : c.closeStarted = true → c.lock.isNone = c.closeReturned
  posting : ∀ closer, c.closers closer = some .posting → c.queue = []
  closing : c.writer = .closing → (c.closers .writer).isSome = true
  sentinel : c.closeReturned = true → c.writer.isLooping = true → none ∈ c.queue

variable {action : Action}

theorem closeStep_posted (hlock : c.lock.isSome = true) (hfresh : c.closeReturned = false)
    (hqueue : c.queue = []) (hstep : closeStep c closer phase = some c')
    (hret : c'.closeReturned = true) : none ∈ c'.queue := by
  unfold closeStep drainStep at hstep
  split at hstep <;> grind [Connection.setCloser, Connection.setException, Connection.setDone,
    Connection.modifyCall, outboundQueueSize]

/-- The queue is empty when the sentinel is put, so there is room for it. -/
theorem step_posted (hlock : c.lock.isSome = true) (hfresh : c.closeReturned = false)
    (hqueue : c.queue = []) (hstep : step c action = some c') (hret : c'.closeReturned = true) :
    none ∈ c'.queue := by
  cases action with
  | call id choice =>
    obtain ⟨call, -, hstep⟩ := bind_eq_some_iff.mp hstep
    unfold callStep at hstep
    split at hstep <;> grind [Connection.setCall]
  | writer outcome =>
    simp only [step, writerStep, drainStep] at hstep
    split at hstep <;> grind [closeStep_posted, Connection.setException, Connection.setDone,
      Connection.modifyCall]
  | close n =>
    obtain ⟨phase, -, hstep⟩ := bind_eq_some_iff.mp hstep
    exact closeStep_posted hlock hfresh hqueue hstep hret
  | send | beginClose => grind [step, Connection.setCall, Connection.setCloser]

/-- Only the first call of `close` takes the lock, and no sender is in `put` while it has it. -/
theorem Wakes.step (h : Wakes c) (hcontrol : Control c) (hstep : step c action = some c') :
    Wakes c' := by
  obtain ⟨hfree, hposting, hclosing, hsentinel⟩ := h
  obtain ⟨hputting, hcrit, hstop, hret, -⟩ := hcontrol
  have hposted := fun hlock hfresh hqueue => step_posted hlock hfresh hqueue hstep
  have heff := step_effect hstep
  constructor
  case' sentinel => clear hclosing hstop hret
  case' free | posting | closing => clear hposted hsentinel
  all_goals
    cases heff <;> first
      | assumption
      | (simp only [Connection.setCall, Connection.setCloser, Connection.setException,
          Connection.setDone, Connection.modifyCall] at *
         grind -linarith [WriterPhase.isLooping, ClosePhase.isCritical])

theorem Wakes.goes_on (h : Wakes c) (hlock : c.lock = none) (hret : c.closeReturned = true)
    (hgoing : c.writer ≠ .stopped) (outcome : Option ℕ) :
    (writerStep c outcome c.writer).isSome = true := by
  have hclosing := h.closing
  have hsentinel := h.sentinel hret
  generalize c.writer = phase at *
  fun_cases writerStep c outcome phase <;> simp_all [WriterPhase.isLooping]
  -- the writer is in its own call of `close`
  rename_i phase _ _
  cases phase <;> simp_all [closeStep] <;> split <;> rfl

/-- **`close` strands no thread.**  Once a call of `close` has returned, in any run, the lock is
free, and the writer has stopped or can go on: it never waits for an item that does not come. -/
theorem close_strands_no_thread (hrun : run step initial actions = some c)
    (hret : c.closeReturned = true) :
    c.lock = none ∧
      (c.writer = .stopped ∨ ∀ outcome, (step c (.writer outcome)).isSome = true) := by
  obtain ⟨hinv, hwakes⟩ : Inv c ∧ Wakes c := by
    refine run_invariant (I := fun c => Inv c ∧ Wakes c) ?_ ⟨inv_initial, ?_⟩ (meets_true actions) hrun
    · exact fun _ _ _ h _ hstep => ⟨h.1.step hstep, h.2.step h.1.control hstep⟩
    · constructor <;> simp [initial]
  have hlock : c.lock = none := by
    simpa [hret] using hwakes.free (hinv.control.returned hret)
  exact ⟨hlock, or_iff_not_imp_left.mpr (hwakes.goes_on hlock hret)⟩

/-- The writer of the closed connection is still at its first frame. -/
theorem closingRun_strands_no_thread : closedConnection.writer ≠ .stopped ∧
    closedConnection.lock = none ∧ (closedConnection.writer = .stopped ∨
      ∀ outcome, (step closedConnection (.writer outcome)).isSome = true) :=
  ⟨by decide +kernel, close_strands_no_thread (run_eq_some_getD _ (by decide +kernel))
    (by decide +kernel)⟩

end Cfms.Transport.Outbound
