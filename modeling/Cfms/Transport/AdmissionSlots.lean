import Cfms.Transport.Admission
import Mathlib.Tactic.Ring

/-!
# Who gives a slot back

Connections and requests run interleaved call by call, and any call may raise.  The counters of
the controller always agree with the slots that are held, whatever raises: a thread gives back
what it took, and at most once.  Whether it gives back at all is another matter.  A request slot
is always given back.  A connection slot is lost when a call raises between its acquisition and
the `try`, or in the `finally` block before the release.
-/

namespace Cfms.Transport

open Lib Lib.Process Lib.Run List Option

/-! ### The discipline of a connection -/

/-- Where a connection stands with its slot. -/
inductive SlotPhase
  | fresh
  | holding (ip : String)
  | released
  | leaked (ip : String)
  deriving DecidableEq

/-- The slot of the connection, and whether it has a request slot that no thread took over. -/
structure MainPhase where
  slot : SlotPhase
  owes : Bool
  deriving DecidableEq

/-- An unprotected call raises. -/
def SlotPhase.leak : SlotPhase → SlotPhase
  | .holding ip => .leaked ip
  | phase => phase

def SlotPhase.held : SlotPhase → List String
  | .holding ip | .leaked ip => [ip]
  | _ => []

def SlotPhase.isHolding : SlotPhase → Bool
  | .holding _ => true
  | _ => false

def SlotPhase.isLeaked : SlotPhase → Bool
  | .leaked _ => true
  | _ => false

def RouterOp.isRelease : RouterOp → Bool
  | .releaseConnection _ | .releaseRequest => true
  | _ => false

/-- The phase after an answered call. -/
def mainNext (phase : MainPhase) : (op : RouterOp) → Except RouterFailure op.Result → MainPhase
  | .acquireConnection ip, .ok decision =>
    if decision.allowed then { phase with slot := .holding ip } else phase
  | .releaseConnection _, .ok _ => { phase with slot := .released }
  | .acquireRequest, .ok decision => if decision.allowed then { phase with owes := true } else phase
  | .releaseRequest, .ok _ => { phase with owes := false }
  | .startThread, .ok _ => { phase with owes := false }
  | op, .error _ => if op.isUnprotected then { phase with slot := phase.slot.leak } else phase
  | _, _ => phase

/-- What a connection may call. -/
def mainAllows (phase : MainPhase) : RouterOp → Prop
  | .acquireConnection _ => phase.slot = .fresh
  | .releaseConnection ip => phase.slot = .holding ip
  | .acquireRequest => phase.owes = false
  | .releaseRequest => phase.owes = true
  | .startThread => phase.owes = true
  | _ => True

/-- Calls are answered in any way; a release that is allowed succeeds. -/
def mainMachine : Machine routerSignature RouterFailure MainPhase where
  allowed := mainAllows
  answers phase op r phase' := phase' = mainNext phase op r ∧ (op.isRelease = true → ∃ v, r = .ok v)

/-- Calls that leave the slots alone and may raise. -/
def RouterOp.isQuiet : RouterOp → Bool
  | .getClientIp | .acceptStream | .waitOn => true
  | .plain c => !RouterOp.isUnprotected (.plain c)
  | _ => false

section

variable {ip : String}

variable {op : RouterOp} {phase : MainPhase} {Q : Except RouterFailure op.Result → MainPhase → Prop}

theorem wp_quiet (hop : op.isQuiet = true) (h : ∀ r, Q r phase) :
    wp mainMachine (perform op) Q phase := by
  refine ⟨?_, ?_⟩
  · cases op <;> trivial
  intro r phase' hans
  have hsame : mainNext phase op r = phase := by
    cases r with
    | ok v => cases op <;> first | rfl | cases hop
    | error e =>
      cases op with
      | plain c => exact if_neg (by simpa [RouterOp.isQuiet] using hop)
      | getClientIp | acceptStream | waitOn => rfl
      | _ => cases hop
  rw [hans.1, hsame]
  exact h r

theorem wp_unprotected (hop : op.isUnprotected = true)
    (hok : ∀ v, Q (.ok v) ⟨.holding ip, false⟩) (herror : ∀ e, Q (.error e) ⟨.leaked ip, false⟩) :
    wp mainMachine (perform op) Q ⟨.holding ip, false⟩ := by
  refine ⟨?_, ?_⟩
  · cases op <;> trivial
  intro r phase' hans
  rw [hans.1]
  cases r with
  | ok v =>
    have hsame : mainNext ⟨.holding ip, false⟩ op (.ok v) = ⟨.holding ip, false⟩ := by
      cases op <;> first | rfl | cases hop
    show Q (.ok v) (mainNext ⟨.holding ip, false⟩ op (.ok v))
    rw [hsame]
    exact hok v
  | error e =>
    have hleak : mainNext ⟨.holding ip, false⟩ op (.error e) = ⟨.leaked ip, false⟩ := by
      cases op with
      | isTls => rfl
      | plain c => exact if_pos hop
      | _ => cases hop
    show Q (.error e) (mainNext ⟨.holding ip, false⟩ op (.error e))
    rw [hleak]
    exact herror e

/-- The connection still has its slot, or an unprotected call has raised. -/
def OrLeaks (ip : String) : Except RouterFailure Unit → MainPhase → Prop
  | .ok _, phase => phase = ⟨.holding ip, false⟩
  | .error _, phase => phase = ⟨.leaked ip, false⟩

/-- The connection has given its slot back, or an unprotected call has raised. -/
def OrReleased (ip : String) : Except RouterFailure Unit → MainPhase → Prop
  | .ok _, phase => phase = ⟨.released, false⟩
  | .error _, phase => phase = ⟨.leaked ip, false⟩

/-- No slot is left with the connection. -/
def MainEnds (_ : Except RouterFailure Unit) (phase : MainPhase) : Prop :=
  phase.slot.isHolding = false ∧ phase.owes = false

theorem OrReleased.mainEnds {r : Except RouterFailure Unit}
    (h : OrReleased ip r phase) : MainEnds r phase := by
  cases r with
  | ok v | error e =>
    rw [show phase = _ from h]
    exact ⟨rfl, rfl⟩

variable {c : RouterCall}

theorem wp_call_orLeaks (hc : RouterOp.isUnprotected (.plain c) = true) :
    wp mainMachine (call c) (OrLeaks ip) ⟨.holding ip, false⟩ :=
  wp_unprotected hc (fun _ => rfl) fun _ => rfl

theorem wp_callIf_orLeaks {condition : Bool} (hc : RouterOp.isUnprotected (.plain c) = true) :
    wp mainMachine (callIf condition c) (OrLeaks ip) ⟨.holding ip, false⟩ := by
  cases condition with
  | true => exact wp_call_orLeaks hc
  | false => exact rfl

theorem wp_bind_orLeaks {p : RouterProgram Unit} {f : Unit → RouterProgram Unit}
    {Q : Except RouterFailure Unit → MainPhase → Prop}
    (hp : wp mainMachine p (OrLeaks ip) ⟨.holding ip, false⟩)
    (herror : ∀ e, Q (.error e) ⟨.leaked ip, false⟩)
    (hf : wp mainMachine (f ()) Q ⟨.holding ip, false⟩) :
    wp mainMachine (p >>= f) Q ⟨.holding ip, false⟩ := by
  rw [wp_bind]
  refine wp_mono ?_ hp
  intro r phase hr
  cases r with
  | ok v =>
    rw [show phase = _ from hr]
    exact hf
  | error e =>
    rw [show phase = _ from hr]
    exact herror e

theorem wp_inspectConnection :
    wp mainMachine inspectConnection (OrLeaks ip) ⟨.holding ip, false⟩ := by
  refine wp_bind_orLeaks (wp_call_orLeaks rfl) (fun _ => rfl) ?_
  refine wp_bind_orLeaks (wp_call_orLeaks rfl) (fun _ => rfl) ?_
  refine wp_bind_orLeaks (wp_call_orLeaks rfl) (fun _ => rfl) ?_
  refine wp_unprotected rfl ?_ fun _ => rfl
  intro tls
  exact wp_callIf_orLeaks rfl

theorem wp_finishConnection (hasMultiplexer extOnConnectTriggered : Bool) :
    wp mainMachine (finishConnection ip hasMultiplexer extOnConnectTriggered) (OrReleased ip)
      ⟨.holding ip, false⟩ := by
  have hrel : wp mainMachine (perform (.releaseConnection ip)) (OrReleased ip)
      ⟨.holding ip, false⟩ := by
    refine ⟨rfl, ?_⟩
    intro r phase hans
    obtain ⟨v, rfl⟩ := hans.2 rfl
    rw [hans.1]
    rfl
  refine wp_bind_orLeaks (wp_callIf_orLeaks rfl) (fun _ => rfl) ?_
  refine wp_bind_orLeaks (wp_call_orLeaks rfl) (fun _ => rfl) ?_
  refine wp_bind_orLeaks (wp_callIf_orLeaks rfl) (fun _ => rfl) ?_
  exact wp_bind_orLeaks (wp_callIf_orLeaks rfl) (fun _ => rfl) hrel

theorem wp_call_holding (hc : RouterOp.isQuiet (.plain c) = true) :
    wp mainMachine (call c) (fun _ phase => phase = ⟨.holding ip, false⟩) ⟨.holding ip, false⟩ :=
  wp_quiet hc fun _ => rfl

theorem wp_bind_holding {α : Type} {p : RouterProgram α} {f : α → RouterProgram Unit}
    (hp : wp mainMachine p (fun _ phase => phase = ⟨.holding ip, false⟩) ⟨.holding ip, false⟩)
    (hf : ∀ a, wp mainMachine (f a) (fun _ phase => phase = ⟨.holding ip, false⟩)
      ⟨.holding ip, false⟩) :
    wp mainMachine (p >>= f) (fun _ phase => phase = ⟨.holding ip, false⟩)
      ⟨.holding ip, false⟩ := by
  rw [wp_bind]
  refine wp_mono ?_ hp
  intro r phase hphase
  subst hphase
  cases r with
  | ok a => exact hf a
  | error e => exact rfl

theorem wp_startThread : wp mainMachine (tryCatch (perform .startThread) fun err => do
        perform .releaseRequest
        throw err)
      (fun _ phase => phase = ⟨.holding ip, false⟩) ⟨.holding ip, true⟩ := by
  refine ⟨rfl, ?_⟩
  intro r phase hans
  obtain ⟨rfl, -⟩ := hans
  cases r with
  | ok v => exact rfl
  | error err =>
    show wp mainMachine (perform .releaseRequest >>= fun _ => throw err) _ ⟨.holding ip, true⟩
    refine ⟨rfl, ?_⟩
    intro r phase hans
    obtain ⟨v, rfl⟩ := hans.2 rfl
    rw [hans.1]
    exact rfl

/-- **The loop keeps the slot of the connection and passes on every request slot.** -/
theorem wp_acceptStreams (rounds : ℕ) :
    wp mainMachine (acceptStreams rounds) (fun _ phase => phase = ⟨.holding ip, false⟩)
      ⟨.holding ip, false⟩ := by
  induction rounds with
  | zero => exact wp_quiet rfl fun _ => rfl
  | succ rounds ih =>
    refine wp_bind_holding (wp_quiet rfl fun _ => rfl) ?_
    intro stream
    cases stream with
    | false => exact rfl
    | true =>
      show wp mainMachine (perform .acquireRequest >>= _) _ _
      rw [wp_bind]
      refine ⟨rfl, ?_⟩
      intro r phase hans
      obtain ⟨rfl, -⟩ := hans
      cases r with
      | error e => exact rfl
      | ok admission =>
        obtain ⟨allowed, scope, retryAfterSeconds⟩ := admission
        cases allowed with
        | false => exact wp_bind_holding (wp_call_holding rfl) fun _ => ih
        | true =>
          show wp mainMachine (tryCatch _ _ >>= fun _ => acceptStreams rounds) _ ⟨.holding ip, true⟩
          rw [wp_bind]
          refine wp_mono ?_ wp_startThread
          intro r phase hphase
          subst hphase
          cases r with
          | ok v => exact ih
          | error e => exact rfl

theorem wp_guarded {hasMultiplexer extOnConnectTriggered : Bool} {body rest : RouterProgram Unit}
    (hbody : wp mainMachine body (fun _ phase => phase = ⟨.holding ip, false⟩) ⟨.holding ip, false⟩)
    (hrest : wp mainMachine rest MainEnds ⟨.holding ip, false⟩) :
    wp mainMachine (guarded ip hasMultiplexer extOnConnectTriggered body >>= fun _ => rest) MainEnds
      ⟨.holding ip, false⟩ := by
  rw [wp_bind, guarded, wp_tryCatch]
  refine wp_mono ?_ hbody
  intro r phase hphase
  subst hphase
  cases r with
  | ok v => exact hrest
  | error err =>
    show wp mainMachine (finishConnection ip _ _ >>= fun _ => throw err) _ _
    rw [wp_bind]
    refine wp_mono ?_ (wp_finishConnection hasMultiplexer extOnConnectTriggered)
    intro r phase hr
    cases r with
    | ok v | error e =>
      rw [show phase = _ from hr]
      exact ⟨rfl, rfl⟩

theorem wp_serveConnection (rounds : ℕ) :
    wp mainMachine (serveConnection ip rounds) MainEnds ⟨.holding ip, false⟩ := by
  refine wp_bind_orLeaks wp_inspectConnection (fun _ => ⟨rfl, rfl⟩) ?_
  refine wp_guarded (wp_bind_holding (wp_call_holding rfl) fun _ => wp_call_holding rfl) ?_
  refine wp_guarded (wp_bind_holding (wp_call_holding rfl) fun _ => wp_call_holding rfl) ?_
  refine wp_guarded (wp_acceptStreams rounds) ?_
  exact wp_mono (fun _ _ h => h.mainEnds) (wp_finishConnection true true)

/-- **`handle_connection` keeps the discipline.** -/
theorem wp_handleConnection (rounds : ℕ) :
    wp mainMachine (handleConnection rounds) MainEnds ⟨.fresh, false⟩ := by
  refine wp_quiet rfl ?_
  intro r
  cases r with
  | error e => exact ⟨rfl, rfl⟩
  | ok ip =>
    show wp mainMachine (perform (.acquireConnection ip) >>= _) MainEnds ⟨.fresh, false⟩
    refine ⟨rfl, ?_⟩
    intro r phase hans
    obtain ⟨rfl, -⟩ := hans
    cases r with
    | error e => exact ⟨rfl, rfl⟩
    | ok admission =>
      obtain ⟨allowed, scope, retryAfterSeconds⟩ := admission
      cases allowed with
      | true => exact wp_serveConnection rounds
      | false =>
        show wp mainMachine (call .logRejection >>= fun _ => call .closeRejected) MainEnds
          ⟨.fresh, false⟩
        refine wp_quiet rfl ?_
        intro r
        cases r with
        | error e => exact ⟨rfl, rfl⟩
        | ok v => exact wp_quiet rfl fun _ => ⟨rfl, rfl⟩

end

/-! ### The discipline of a request -/

/-- The request slot after an answered call. -/
def requestNext (owes : Bool) : (op : RouterOp) → Except RouterFailure op.Result → Bool
  | .releaseRequest, .ok _ => false
  | _, _ => owes

/-- A request thread gives its slot back and otherwise leaves the slots alone. -/
def requestAllows (owes : Bool) : RouterOp → Prop
  | .releaseRequest => owes = true
  | .plain _ => True
  | _ => False

def requestMachine : Machine routerSignature RouterFailure Bool where
  allowed := requestAllows
  answers owes op r owes' := owes' = requestNext owes op r ∧ (op.isRelease = true → ∃ v, r = .ok v)

def RequestEnds (_ : Except RouterFailure Unit) (owes : Bool) : Prop := owes = false

theorem wp_request_call (c : RouterCall) :
    wp requestMachine (call c) (fun _ owes => owes = true) true := by
  refine ⟨trivial, ?_⟩
  intro r owes hans
  rw [hans.1]
  exact rfl

theorem wp_request_bind {p : RouterProgram Unit} {f : Unit → RouterProgram Unit}
    (hp : wp requestMachine p (fun _ owes => owes = true) true)
    (hf : wp requestMachine (f ()) (fun _ owes => owes = true) true) :
    wp requestMachine (p >>= f) (fun _ owes => owes = true) true := by
  rw [wp_bind]
  refine wp_mono ?_ hp
  intro r owes howes
  subst howes
  cases r with
  | ok v => exact hf
  | error e => exact rfl

theorem wp_request_release :
    wp requestMachine (perform .releaseRequest) (fun r owes => owes = false ∧ ∃ v, r = .ok v) true := by
  refine ⟨rfl, ?_⟩
  intro r owes hans
  obtain ⟨v, rfl⟩ := hans.2 rfl
  exact ⟨hans.1, v, rfl⟩

/-- **`_handle_request_with_admission` gives its slot back.** -/
theorem wp_handleRequestWithAdmission :
    wp requestMachine handleRequestWithAdmission RequestEnds true := by
  rw [handleRequestWithAdmission, wp_bind, wp_tryCatch, wp_tryCatch]
  refine wp_mono ?_ (wp_request_call .handleRequest)
  have hrel : ∀ err : RouterFailure, wp requestMachine
      (perform .releaseRequest >>= fun _ => (throw err : RouterProgram Unit))
        (andThen requestMachine (fun _ => perform .releaseRequest) RequestEnds) true := by
    intro err
    rw [wp_bind]
    refine wp_mono ?_ wp_request_release
    intro r owes hr
    obtain ⟨rfl, v, rfl⟩ := hr
    exact rfl
  have hlast : wp requestMachine (perform .releaseRequest) RequestEnds true :=
    wp_mono (fun _ _ h => h.1) wp_request_release
  intro r owes howes
  subst howes
  cases r with
  | ok v => exact hlast
  | error err =>
    cases err with
    | other => exact hrel .other
    | databasePool =>
      refine wp_mono ?_ (wp_request_bind (wp_request_call .loadPolicy)
        (wp_request_bind (wp_request_call .logDatabasePool) (wp_request_call .sendDatabaseBusy)))
      intro r owes howes
      subst howes
      cases r with
      | ok v => exact hlast
      | error e => exact hrel e

/-! ### The controller and the slots that are held -/

/-- The counters agree with the slots that are held, these are the acquisitions without a release,
and no acquisition went over a limit. -/
structure Balanced (slots : Slots) : Prop where
  connections : slots.controller.connections = slots.heldConnections.length
  connectionsByIp :
    Counter.Follows slots.controller.connectionsByIp (slots.heldConnections.map Prod.snd)
  requests : slots.controller.requests = slots.heldRequests.length
  requestsByConnection : Counter.Follows slots.controller.requestsByConnection slots.heldRequests
  connectionHistory : ∀ c, slots.history.countP (SlotEvent.acquiresConnection c) =
    slots.history.countP (SlotEvent.releasesConnection c) +
      slots.heldConnections.countP fun held => held.1 == c
  requestHistory : ∀ c, slots.history.countP (SlotEvent.acquiresRequest c) =
    slots.history.countP (SlotEvent.releasesRequest c) + slots.heldRequests.count c
  limits : ∀ event ∈ slots.history, event.withinLimits = true

section

variable {slots : Slots} {c : ℕ} {ip : String}

theorem acquireConnection_cases (h : Balanced slots) (c : ℕ) (policy : AdmissionControlPolicy)
    (ip : String) :
    ((slots.acquireConnection c policy ip).1.allowed = false ∧
        (slots.acquireConnection c policy ip).2 = slots) ∨
      ((slots.acquireConnection c policy ip).1.allowed = true ∧
        Balanced (slots.acquireConnection c policy ip).2 ∧
        (slots.acquireConnection c policy ip).2.heldConnections = (c, ip) :: slots.heldConnections ∧
        (slots.acquireConnection c policy ip).2.heldRequests = slots.heldRequests) := by
  unfold Slots.acquireConnection AdmissionController.acquireConnection
  by_cases hserver : slots.controller.connections ≥ policy.maxConnections
  · left
    simp [hserver]
  · by_cases hip : (slots.controller.connectionsByIp.lookup ip).getD 0 ≥ policy.maxConnectionsPerIp
    · left
      simp [hserver, hip]
    · right
      have hfollows := h.connectionsByIp.increment ip
      simp only [if_neg hserver, if_neg hip, if_true, true_and, and_true]
      refine ⟨?_, hfollows, h.requests, h.requestsByConnection, ?_, ?_, ?_⟩
      · rw [h.connections]
        rfl
      · intro c'
        have hhist := h.connectionHistory c'
        rw [countP_cons, countP_cons, countP_cons]
        simp only [SlotEvent.acquiresConnection, SlotEvent.releasesConnection, Bool.false_eq_true,
          if_false, beq_iff_eq] at hhist ⊢
        split_ifs at hhist ⊢ <;> omega
      · exact h.requestHistory
      · refine forall_mem_cons.mpr ⟨?_, h.limits⟩
        have hcount := Counter.getD_increment slots.controller.connectionsByIp ip
        simp only [SlotEvent.withinLimits, Bool.and_eq_true, decide_eq_true_eq]
        omega

theorem acquireRequest_cases (h : Balanced slots) (c : ℕ) (policy : AdmissionControlPolicy) :
    ((slots.acquireRequest c policy).1.allowed = false ∧ (slots.acquireRequest c policy).2 = slots) ∨
      ((slots.acquireRequest c policy).1.allowed = true ∧
        Balanced (slots.acquireRequest c policy).2 ∧
        (slots.acquireRequest c policy).2.heldConnections = slots.heldConnections ∧
        (slots.acquireRequest c policy).2.heldRequests = c :: slots.heldRequests) := by
  unfold Slots.acquireRequest AdmissionController.acquireRequest
  by_cases hserver : slots.controller.requests ≥ policy.maxInflightRequests
  · left
    simp [hserver]
  · by_cases hconn : (slots.controller.requestsByConnection.lookup c).getD 0 ≥
        policy.maxInflightRequestsPerConnection
    · left
      simp [hserver, hconn]
    · right
      have hfollows := h.requestsByConnection.increment c
      simp only [if_neg hserver, if_neg hconn, if_true, true_and, and_true]
      refine ⟨h.connections, h.connectionsByIp, ?_, hfollows, ?_, ?_, ?_⟩
      · rw [h.requests]
        rfl
      · exact h.connectionHistory
      · intro c'
        have hhist := h.requestHistory c'
        rw [countP_cons, countP_cons, count_cons]
        simp only [SlotEvent.acquiresRequest, SlotEvent.releasesRequest, Bool.false_eq_true,
          if_false, beq_iff_eq] at hhist ⊢
        split_ifs at hhist ⊢ <;> omega
      · refine forall_mem_cons.mpr ⟨?_, h.limits⟩
        have hcount := Counter.getD_increment slots.controller.requestsByConnection c
        simp only [SlotEvent.withinLimits, Bool.and_eq_true, decide_eq_true_eq]
        omega

theorem releaseConnection_of_mem (h : Balanced slots) (hmem : (c, ip) ∈ slots.heldConnections) :
    (slots.releaseConnection c ip).1 = .ok () ∧ Balanced (slots.releaseConnection c ip).2 ∧
      (slots.releaseConnection c ip).2.heldConnections = slots.heldConnections.erase (c, ip) ∧
      (slots.releaseConnection c ip).2.heldRequests = slots.heldRequests := by
  have hperm := perm_cons_erase hmem
  have hip : ip ∈ slots.heldConnections.map Prod.snd := mem_map_of_mem hmem
  have hbag : ((slots.heldConnections.map Prod.snd).erase ip).Perm
      ((slots.heldConnections.erase (c, ip)).map Prod.snd) := by
    have hmap := (hperm.map Prod.snd).erase ip
    rw [map_cons, erase_cons_head] at hmap
    exact hmap
  obtain ⟨counters, hdecrement, hfollows⟩ := h.connectionsByIp.decrement hip
  unfold Slots.releaseConnection AdmissionController.releaseConnection
  simp only [hdecrement, if_true, true_and, and_true]
  refine ⟨?_, hfollows.perm hbag, h.requests, h.requestsByConnection, ?_, ?_, ?_⟩
  · have hlen := hperm.length_eq
    rw [length_cons] at hlen
    rw [h.connections, hlen]
    push_cast
    ring
  · intro c'
    have hhist := h.connectionHistory c'
    rw [hperm.countP_eq, countP_cons] at hhist
    rw [countP_cons, countP_cons]
    simp only [SlotEvent.acquiresConnection, SlotEvent.releasesConnection, Bool.false_eq_true,
      if_false, beq_iff_eq] at hhist ⊢
    split_ifs at hhist ⊢ <;> omega
  · exact h.requestHistory
  · exact forall_mem_cons.mpr ⟨rfl, h.limits⟩

theorem releaseRequest_of_mem (h : Balanced slots) (hmem : c ∈ slots.heldRequests) :
    (slots.releaseRequest c).1 = .ok () ∧ Balanced (slots.releaseRequest c).2 ∧
      (slots.releaseRequest c).2.heldConnections = slots.heldConnections ∧
      (slots.releaseRequest c).2.heldRequests = slots.heldRequests.erase c := by
  have hperm := perm_cons_erase hmem
  obtain ⟨counters, hdecrement, hfollows⟩ := h.requestsByConnection.decrement hmem
  unfold Slots.releaseRequest AdmissionController.releaseRequest
  simp only [hdecrement, if_true, true_and, and_true]
  refine ⟨h.connections, h.connectionsByIp, ?_, hfollows, ?_, ?_, ?_⟩
  · have hlen := hperm.length_eq
    rw [length_cons] at hlen
    rw [h.requests, hlen]
    push_cast
    ring
  · exact h.connectionHistory
  · intro c'
    have hhist := h.requestHistory c'
    rw [hperm.count_eq, count_cons] at hhist
    rw [countP_cons, countP_cons]
    simp only [SlotEvent.acquiresRequest, SlotEvent.releasesRequest, Bool.false_eq_true,
      if_false, beq_iff_eq] at hhist ⊢
    split_ifs at hhist ⊢ <;> omega
  · exact forall_mem_cons.mpr ⟨rfl, h.limits⟩

end

/-! ### What a call does to the slots -/

def Slots.ofConnection (slots : Slots) (c : ℕ) : List String :=
  (slots.heldConnections.filter fun held => held.1 == c).map Prod.snd

/-- The slots of the other connections stay. -/
def SameElsewhere (slots slots' : Slots) (c : ℕ) : Prop :=
  ∀ c', c' ≠ c → slots'.ofConnection c' = slots.ofConnection c' ∧
    slots'.heldRequests.count c' = slots.heldRequests.count c'

section

variable {slots slots' : Slots} {c : ℕ} {ip : String}

theorem SameElsewhere.refl (slots : Slots) (c : ℕ) : SameElsewhere slots slots c :=
  fun _ _ => ⟨rfl, rfl⟩

theorem sameElsewhere_of_held (hconns : slots'.heldConnections = (c, ip) :: slots.heldConnections)
    (hreqs : slots'.heldRequests = slots.heldRequests) : SameElsewhere slots slots' c := by
  intro c' hne
  have hother : ((c, ip).1 == c') = false := beq_false_of_ne (Ne.symm hne)
  rw [Slots.ofConnection, hconns, filter_cons, hother, hreqs]
  exact ⟨rfl, rfl⟩

theorem ofConnection_cons (hconns : slots'.heldConnections = (c, ip) :: slots.heldConnections) :
    slots'.ofConnection c = ip :: slots.ofConnection c := by
  rw [Slots.ofConnection, hconns, filter_cons, beq_self_eq_true]
  rfl

theorem ofConnection_erase (hslots : slots.ofConnection c = [ip])
    (hconns : slots'.heldConnections = slots.heldConnections.erase (c, ip)) :
    (c, ip) ∈ slots.heldConnections ∧ slots'.ofConnection c = [] := by
  have hmem : (c, ip) ∈ slots.heldConnections := by
    have hip : ip ∈ slots.ofConnection c := by
      rw [hslots]
      exact mem_singleton_self ip
    obtain ⟨⟨c', ip'⟩, hheld, heq⟩ := mem_map.mp hip
    obtain ⟨hin, hc⟩ := mem_filter.mp hheld
    obtain rfl : c' = c := eq_of_beq hc
    obtain rfl : ip' = ip := heq
    exact hin
  refine ⟨hmem, ?_⟩
  have hperm := ((perm_cons_erase hmem).filter fun held => held.1 == c).map Prod.snd
  have hlen := hperm.length_eq
  rw [filter_cons, beq_self_eq_true, if_pos rfl, map_cons, length_cons] at hlen
  have hone : (slots.ofConnection c).length = 1 := by
    rw [hslots]
    rfl
  apply length_eq_zero_iff.mp
  rw [Slots.ofConnection, hconns]
  rw [Slots.ofConnection] at hone
  omega

theorem sameElsewhere_of_erase (hconns : slots'.heldConnections =
      slots.heldConnections.erase (c, ip)) (hreqs : slots'.heldRequests = slots.heldRequests) :
    SameElsewhere slots slots' c := by
  intro c' hne
  refine ⟨?_, by rw [hreqs]⟩
  have hnotin : (c, ip) ∉ slots.heldConnections.filter fun held => held.1 == c' := by
    intro hmem
    exact hne (eq_of_beq (mem_filter.mp hmem).2).symm
  rw [Slots.ofConnection, Slots.ofConnection, hconns, ← erase_filter, erase_of_not_mem hnotin]

theorem count_erase_add (hmem : c ∈ slots.heldRequests) :
    (slots.heldRequests.erase c).count c + 1 = slots.heldRequests.count c := by
  have hpos := count_pos_iff.mpr hmem
  rw [count_erase_self]
  omega

/-- What an answered call of the main thread does to the slots. -/
structure MainEffect (slots slots' : Slots) (c : ℕ) (phase phase' : MainPhase) (started : ℕ) :
    Prop where
  balanced : Balanced slots'
  elsewhere : SameElsewhere slots slots' c
  connectionSlots : slots'.ofConnection c = phase'.slot.held
  requestSlots : slots'.heldRequests.count c + phase.owes.toNat =
    slots.heldRequests.count c + phase'.owes.toNat + started

variable {phase : MainPhase}

theorem mainEffect_same (h : Balanced slots) {phase' : MainPhase} {started : ℕ}
    (hslots : slots.ofConnection c = phase'.slot.held)
    (howes : phase.owes.toNat = phase'.owes.toNat + started) :
    MainEffect slots slots c phase phase' started where
  balanced := h
  elsewhere := .refl slots c
  connectionSlots := hslots
  requestSlots := by omega

theorem SlotPhase.held_leak (phase : SlotPhase) : phase.leak.held = phase.held := by
  cases phase <;> rfl

variable {op : RouterOp} {err : RouterFailure}

theorem mainEffect_raises (h : Balanced slots) (hslots : slots.ofConnection c = phase.slot.held) :
    MainEffect slots slots c phase (mainNext phase op (.error err)) 0 := by
  have hnext : mainNext phase op (.error err) =
      if op.isUnprotected then { phase with slot := phase.slot.leak } else phase := by
    cases op <;> rfl
  rw [hnext]
  split
  · exact mainEffect_same h (hslots.trans phase.slot.held_leak.symm) rfl
  · exact mainEffect_same h hslots rfl

def startedThreads (op : RouterOp) (answer : RouterAnswer) : ℕ :=
  if op = .startThread ∧ answer = .returns then 1 else 0

variable {answer : RouterAnswer} {r : Except RouterFailure op.Result}

/-- **A call of a disciplined main thread.** -/
theorem respond_main (h : Balanced slots) (hall : mainAllows phase op)
    (hslots : slots.ofConnection c = phase.slot.held)
    (howes : phase.owes = true → c ∈ slots.heldRequests)
    (hresp : respond c slots op answer = some (r, slots')) :
    (op.isRelease = true → ∃ v, r = .ok v) ∧
      MainEffect slots slots' c phase (mainNext phase op r) (startedThreads op answer) := by
  have hraises : ∀ err, r = .error err → slots' = slots →
      startedThreads op answer = 0 → MainEffect slots slots' c phase (mainNext phase op r)
        (startedThreads op answer) := by
    intro err hr hsame hstart
    rw [hr, hsame, hstart]
    exact mainEffect_raises h hslots
  cases op with
  | getClientIp | isTls | acceptStream | plain call =>
    refine ⟨nofun, ?_⟩
    cases answer <;> simp only [respond, reduceCtorEq] at hresp
    · obtain ⟨rfl, rfl⟩ := hresp
      exact hraises _ rfl rfl rfl
    · obtain ⟨rfl, rfl⟩ := hresp
      exact mainEffect_same h hslots rfl
  | waitOn => cases answer <;> cases hresp
  | startThread =>
    refine ⟨nofun, ?_⟩
    have htrue : phase.owes = true := hall
    cases answer <;> simp only [respond, reduceCtorEq] at hresp
    · obtain ⟨rfl, rfl⟩ := hresp
      exact hraises _ rfl rfl rfl
    · obtain ⟨rfl, rfl⟩ := hresp
      refine mainEffect_same h hslots ?_
      rw [htrue]
      rfl
  | acquireConnection ip =>
    refine ⟨nofun, ?_⟩
    have hfresh : phase.slot = .fresh := hall
    cases answer <;> simp only [respond, some.injEq, reduceCtorEq] at hresp
    · obtain ⟨rfl, rfl⟩ := hresp
      exact hraises _ rfl rfl rfl
    · rename_i policy
      obtain ⟨rfl, rfl⟩ : Except.ok (slots.acquireConnection c policy ip).1 = r ∧
        (slots.acquireConnection c policy ip).2 = slots' := Prod.mk.inj hresp
      obtain ⟨hden, hsame⟩ | ⟨hallow, hbal, hheld, hreqs⟩ :=
        acquireConnection_cases h c policy ip
      · rw [hsame]
        simp only [mainNext, hden]
        exact mainEffect_same h hslots rfl
      · simp only [mainNext, hallow]
        refine ⟨hbal, sameElsewhere_of_held hheld hreqs, ?_, ?_⟩
        · rw [ofConnection_cons hheld, hslots, hfresh]
          rfl
        · rw [hreqs]
          rfl
  | releaseConnection ip =>
    have hhold : phase.slot = .holding ip := hall
    cases answer <;> simp only [respond, some.injEq, reduceCtorEq] at hresp
    have hip : slots.ofConnection c = [ip] := by
      rw [hslots, hhold]
      rfl
    have hr : r = (slots.releaseConnection c ip).1 := (congrArg Prod.fst hresp).symm
    have hslots' : slots' = (slots.releaseConnection c ip).2 := (congrArg Prod.snd hresp).symm
    have herase : slots'.heldConnections = slots.heldConnections.erase (c, ip) := by rw [hslots']; rfl
    obtain ⟨hmem, hnil⟩ := ofConnection_erase hip herase
    obtain ⟨hok, hbal, hheld, hreqs⟩ := releaseConnection_of_mem h hmem
    subst hr hslots'
    refine ⟨fun _ => ⟨(), hok⟩, hbal, sameElsewhere_of_erase hheld hreqs, ?_, ?_⟩
    · rw [hok, hnil]
      rfl
    · rw [hok]
      rfl
  | acquireRequest =>
    refine ⟨nofun, ?_⟩
    have hfalse : phase.owes = false := hall
    cases answer <;> simp only [respond, some.injEq, reduceCtorEq] at hresp
    · obtain ⟨rfl, rfl⟩ := hresp
      exact hraises _ rfl rfl rfl
    · rename_i policy
      obtain ⟨rfl, rfl⟩ : Except.ok (slots.acquireRequest c policy).1 = r ∧
        (slots.acquireRequest c policy).2 = slots' := Prod.mk.inj hresp
      obtain ⟨hden, hsame⟩ | ⟨hallow, hbal, hheld, hreqs⟩ :=
        acquireRequest_cases h c policy
      · rw [hsame]
        simp only [mainNext, hden]
        exact mainEffect_same h hslots rfl
      · simp only [mainNext, hallow]
        refine ⟨hbal, ?_, ?_, ?_⟩
        · intro c' hne
          rw [Slots.ofConnection, hheld, hreqs, count_cons_of_ne (Ne.symm hne)]
          exact ⟨rfl, rfl⟩
        · rw [Slots.ofConnection, hheld]
          exact hslots
        · rw [hreqs, count_cons_self, hfalse]
          rfl
  | releaseRequest =>
    have htrue : phase.owes = true := hall
    have hmem := howes htrue
    cases answer <;> simp only [respond, some.injEq, reduceCtorEq] at hresp
    obtain ⟨hok, hbal, hheld, hreqs⟩ := releaseRequest_of_mem h hmem
    have hr : r = (slots.releaseRequest c).1 := (congrArg Prod.fst hresp).symm
    have hslots' : slots' = (slots.releaseRequest c).2 := (congrArg Prod.snd hresp).symm
    subst hr hslots'
    refine ⟨fun _ => ⟨(), hok⟩, hbal, ?_, ?_, ?_⟩
    · intro c' hne
      rw [Slots.ofConnection, hreqs, count_erase_of_ne hne]
      exact ⟨rfl, rfl⟩
    · rw [hok, Slots.ofConnection]
      exact hslots
    · rw [hok, htrue]
      exact count_erase_add hmem

/-- What an answered call of a request thread does to the slots. -/
structure RequestEffect (slots slots' : Slots) (c : ℕ) (owes owes' : Bool) : Prop where
  balanced : Balanced slots'
  elsewhere : SameElsewhere slots slots' c
  connectionSlots : slots'.ofConnection c = slots.ofConnection c
  requestSlots : slots'.heldRequests.count c + owes.toNat = slots.heldRequests.count c + owes'.toNat

/-- **A call of a disciplined request thread.** -/
theorem respond_request {owes : Bool} (h : Balanced slots) (hall : requestAllows owes op)
    (howes : owes = true → c ∈ slots.heldRequests)
    (hresp : respond c slots op answer = some (r, slots')) :
    (op.isRelease = true → ∃ v, r = .ok v) ∧
      RequestEffect slots slots' c owes (requestNext owes op r) := by
  cases op with
  | plain call =>
    refine ⟨nofun, ?_⟩
    have hsame : slots' = slots := by
      cases answer <;> simp only [respond, some.injEq, Prod.mk.injEq, reduceCtorEq] at hresp
      · exact hresp.2.symm
      · exact hresp.2.symm
    rw [hsame]
    exact ⟨h, .refl slots c, rfl, rfl⟩
  | releaseRequest =>
    have htrue : owes = true := hall
    have hmem := howes htrue
    cases answer <;> simp only [respond, some.injEq, reduceCtorEq] at hresp
    obtain ⟨hok, hbal, hheld, hreqs⟩ := releaseRequest_of_mem h hmem
    have hr : r = (slots.releaseRequest c).1 := (congrArg Prod.fst hresp).symm
    have hslots' : slots' = (slots.releaseRequest c).2 := (congrArg Prod.snd hresp).symm
    subst hr hslots'
    refine ⟨fun _ => ⟨(), hok⟩, hbal, ?_, ?_, ?_⟩
    · intro c' hne
      rw [Slots.ofConnection, hreqs, count_erase_of_ne hne]
      exact ⟨rfl, rfl⟩
    · rw [Slots.ofConnection]
      rfl
    · rw [hok, htrue]
      exact count_erase_add hmem
  | _ => exact absurd hall id

theorem mainNext_isLeaked
    (h : phase.slot.isLeaked = false) (hok : op.isUnprotected = true → ∃ v, r = .ok v) :
    (mainNext phase op r).slot.isLeaked = false := by
  cases r with
  | error e =>
    have hnext : mainNext phase op (.error e) =
        if op.isUnprotected then { phase with slot := phase.slot.leak } else phase := by
      cases op <;> rfl
    rw [hnext]
    split
    · rename_i hop
      obtain ⟨v, hv⟩ := hok hop
      cases hv
    · exact h
  | ok v =>
    cases op with
    | acquireConnection ip =>
      show (if v.allowed then _ else phase : MainPhase).slot.isLeaked = false
      split
      · rfl
      · exact h
    | acquireRequest =>
      show (if v.allowed then _ else phase : MainPhase).slot.isLeaked = false
      split
      · exact h
      · exact h
    | releaseConnection ip => rfl
    | _ => exact h

theorem answer_raises (hop : op.isUnprotected = true)
    (hresp : respond c slots op answer = some (.error err, slots')) :
    ∃ err, answer = .raises err := by
  cases op with
  | isTls | plain call =>
    cases answer <;> simp only [respond, some.injEq, Prod.mk.injEq, reduceCtorEq, false_and]
      at hresp
    exact ⟨_, rfl⟩
  | _ => cases hop

end

/-! ### The server -/

/-- The threads of a connection keep their discipline and own the slots that it holds.  When
nothing unprotected raises, `leakFree`, no slot is lost. -/
structure Tended (leakFree : Prop) (slots : Slots) (c : ℕ) (threads : ConnectionThreads)
    (phase : MainPhase) (owes : List Bool) : Prop where
  main : wp mainMachine threads.main MainEnds phase
  requests : List.Forall₂ (fun program owes => wp requestMachine program RequestEnds owes)
    threads.requests owes
  connectionSlots : slots.ofConnection c = phase.slot.held
  requestSlots : slots.heldRequests.count c = phase.owes.toNat + owes.count true
  unleaked : leakFree → phase.slot.isLeaked = false

structure RouterInv (leakFree : Prop) (s : RouterServer) : Prop where
  balanced : Balanced s.slots
  threads : ∀ c threads, s.connections.lookup c = some threads →
    ∃ phase owes, Tended leakFree s.slots c threads phase owes
  unknown : ∀ c, s.connections.lookup c = none →
    s.slots.ofConnection c = [] ∧ s.slots.heldRequests.count c = 0

section

variable {leakFree : Prop} {s s' : RouterServer} {c : ℕ} {threads : ConnectionThreads}

variable {slots : Slots} {phase : MainPhase} {owes : List Bool}

theorem Tended.elsewhere {slots' : Slots} {c' : ℕ} (h : Tended leakFree slots c' threads phase owes)
    (hsame : SameElsewhere slots slots' c) (hne : c' ≠ c) :
    Tended leakFree slots' c' threads phase owes where
  main := h.main
  requests := h.requests
  connectionSlots := (hsame c' hne).1.trans h.connectionSlots
  requestSlots := (hsame c' hne).2.trans h.requestSlots
  unleaked := h.unleaked

theorem RouterInv.update (h : RouterInv leakFree s) {threads' : ConnectionThreads}
    (hthr : s.connections.lookup c = some threads) (hbal : Balanced slots)
    (hsame : SameElsewhere s.slots slots c)
    (htended : Tended leakFree slots c threads' phase owes) :
    RouterInv leakFree ⟨slots, s.connections.insert c threads'⟩ where
  balanced := hbal
  threads c' other hother := by
    cases Table.lookup_insert_eq_some hother with
    | inl hnew =>
      obtain ⟨rfl, rfl⟩ := hnew
      exact ⟨phase, owes, htended⟩
    | inr hold =>
      obtain ⟨phase', owes', htended'⟩ := h.threads c' other hold.2
      exact ⟨phase', owes', htended'.elsewhere hsame hold.1⟩
  unknown c' hnone := by
    have hne : c' ≠ c := by
      intro heq
      rw [heq, AList.lookup_insert] at hnone
      cases hnone
    rw [AList.lookup_insert_ne hne] at hnone
    obtain ⟨hconns, hreqs⟩ := h.unknown c' hnone
    exact ⟨(hsame c' hne).1.trans hconns, (hsame c' hne).2.trans hreqs⟩

theorem RouterInv.connect (h : RouterInv leakFree s) {rounds : ℕ}
    {connections : Table ℕ ConnectionThreads}
    (hconns : s.connections.insertNew c { main := handleConnection rounds } = some connections) :
    RouterInv leakFree { s with connections := connections } := by
  obtain ⟨hnone, rfl⟩ := Table.insertNew_eq_some hconns
  obtain ⟨hslots, hreqs⟩ := h.unknown c hnone
  refine ⟨h.balanced, ?_, ?_⟩
  · intro c' threads hthr
    cases Table.lookup_insert_eq_some hthr with
    | inl hnew =>
      obtain ⟨rfl, rfl⟩ := hnew
      exact ⟨⟨.fresh, false⟩, [], wp_handleConnection rounds, .nil, hslots, hreqs, fun _ => rfl⟩
    | inr hold => exact h.threads c' threads hold.2
  · intro c' hlook
    have hne : c' ≠ c := by
      intro heq
      rw [heq, AList.lookup_insert] at hlook
      cases hlook
    rw [AList.lookup_insert_ne hne] at hlook
    exact h.unknown c' hlook

variable {answer : RouterAnswer} {result : RouterProgram Unit × Slots}

theorem RouterInv.main (h : RouterInv leakFree s)
    (hkeeps : leakFree → keepsSlots s (.main c answer) = true)
    (hthr : s.connections.lookup c = some threads)
    (hres : advance (respond c) (threads.main, s.slots) answer = some result) :
    RouterInv leakFree ⟨result.2, s.connections.insert c (threads.afterMain result.1 answer)⟩ := by
  obtain ⟨phase, owes, htended⟩ := h.threads c threads hthr
  obtain ⟨op, next, r, slots', hmain, hresp, rfl⟩ := advance_eq_some.mp hres
  have hwp := htended.main
  rw [hmain] at hwp
  obtain ⟨hall, hnext⟩ := hwp
  have howes : phase.owes = true → c ∈ s.slots.heldRequests := by
    intro howes
    have hslots := htended.requestSlots
    rw [howes] at hslots
    apply count_pos_iff.mp
    rw [hslots]
    exact Nat.lt_add_right _ Nat.one_pos
  obtain ⟨hrel, heff⟩ :=
    respond_main h.balanced hall htended.connectionSlots howes hresp
  have hunleaked : leakFree → (mainNext phase op r).slot.isLeaked = false := by
    intro hfree
    apply mainNext_isLeaked (htended.unleaked hfree)
    intro hop
    cases r with
    | ok v => exact ⟨v, rfl⟩
    | error err =>
      obtain ⟨err, rfl⟩ := answer_raises hop hresp
      have hnot := hkeeps hfree
      have hop' : nextOp? threads.main = some op := by rw [hmain]; rfl
      simp only [keepsSlots, hthr, any_some, hop', hop, Bool.not_true, Bool.false_eq_true] at hnot
  have hmain' := hnext r _ ⟨rfl, hrel⟩
  have hslots := htended.requestSlots
  have hrequestSlots := heff.requestSlots
  by_cases hstart : op = .startThread ∧ answer = .returns
  · have hreqs : (threads.afterMain (next r) answer).requests =
        threads.requests ++ [handleRequestWithAdmission] := by
      refine if_pos ⟨?_, hstart.2⟩
      rw [hmain, ← hstart.1]
      rfl
    have htended' : Tended leakFree slots' c (threads.afterMain (next r) answer)
        (mainNext phase op r) (owes ++ [true]) := by
      refine ⟨hmain', ?_, heff.connectionSlots, ?_, hunleaked⟩
      · rw [hreqs]
        exact rel_append htended.requests (.cons wp_handleRequestWithAdmission .nil)
      · rw [startedThreads, if_pos hstart] at hrequestSlots
        rw [count_append]
        show slots'.heldRequests.count c = _ + (owes.count true + 1)
        omega
    exact h.update hthr heff.balanced heff.elsewhere htended'
  · have hreqs : (threads.afterMain (next r) answer).requests = threads.requests := by
      refine if_neg ?_
      intro hnew
      apply hstart
      rw [hmain] at hnew
      exact ⟨some.inj hnew.1, hnew.2⟩
    have htended' : Tended leakFree slots' c (threads.afterMain (next r) answer)
        (mainNext phase op r) owes := by
      refine ⟨hmain', ?_, heff.connectionSlots, ?_, hunleaked⟩
      · rw [hreqs]
        exact htended.requests
      · rw [startedThreads, if_neg hstart] at hrequestSlots
        omega
    exact h.update hthr heff.balanced heff.elsewhere htended'

variable {i : ℕ}

theorem forall₂_set {α β : Type} {R : α → β → Prop} {xs : List α} {ys : List β}
    (h : List.Forall₂ R xs ys) {x : α} (x' : α) (hx : xs[i]? = some x) :
    ∃ y, ys[i]? = some y ∧ R x y ∧ ∀ y', R x' y' → List.Forall₂ R (xs.set i x') (ys.set i y') := by
  induction h generalizing i with
  | nil => cases hx
  | cons hhead htail ih =>
    cases i with
    | zero =>
      cases hx
      exact ⟨_, rfl, hhead, fun y' hy' => .cons hy' htail⟩
    | succ i =>
      obtain ⟨y, hy, hxy, hset⟩ := ih hx
      exact ⟨y, hy, hxy, fun y' hy' => .cons hhead (hset y' hy')⟩

theorem count_set {flags : List Bool} {old : Bool} (hold : flags[i]? = some old) (new : Bool) :
    (flags.set i new).count true + old.toNat = flags.count true + new.toNat := by
  induction flags generalizing i with
  | nil => cases hold
  | cons flag rest ih =>
    cases i with
    | zero =>
      obtain rfl := some.inj hold
      cases flag <;> cases new <;> simp
    | succ i =>
      have hrest := ih hold
      rw [set_cons_succ, count_cons, count_cons]
      omega

theorem RouterInv.request (h : RouterInv leakFree s)
    {program : RouterProgram Unit} (hthr : s.connections.lookup c = some threads)
    (hprogram : threads.requests[i]? = some program)
    (hres : advance (respond c) (program, s.slots) answer = some result) :
    RouterInv leakFree ⟨result.2, s.connections.insert c
      { threads with requests := threads.requests.set i result.1 }⟩ := by
  obtain ⟨phase, owes, htended⟩ := h.threads c threads hthr
  obtain ⟨op, next, r, slots', rfl, hresp, rfl⟩ := advance_eq_some.mp hres
  obtain ⟨owed, howed, hwp, hset⟩ := forall₂_set htended.requests (next r) hprogram
  obtain ⟨hall, hnext⟩ := hwp
  have hmem : owed = true → c ∈ s.slots.heldRequests := by
    intro htrue
    have hin : true ∈ owes := htrue ▸ mem_of_getElem? howed
    have hpos := count_pos_iff.mpr hin
    apply count_pos_iff.mp
    rw [htended.requestSlots]
    omega
  obtain ⟨hrel, heff⟩ := respond_request h.balanced hall hmem hresp
  have hnext' := hnext r _ ⟨rfl, hrel⟩
  have hcount := count_set howed (requestNext owed op r)
  have hslots := htended.requestSlots
  have hrequestSlots := heff.requestSlots
  have htended' : Tended leakFree slots' c
      { threads with requests := threads.requests.set i (next r) } phase
        (owes.set i (requestNext owed op r)) := by
    refine ⟨htended.main, hset _ hnext', ?_, ?_, htended.unleaked⟩
    · rw [heff.connectionSlots]
      exact htended.connectionSlots
    · omega
  exact h.update hthr heff.balanced heff.elsewhere htended'

/-- **Every step keeps the threads in charge of the slots.** -/
theorem routerInv_step {a : RouterAction} (h : RouterInv leakFree s)
    (hkeeps : leakFree → keepsSlots s a = true) (hstep : routerStep s a = some s') :
    RouterInv leakFree s' := by
  cases a with simp only [routerStep, Option.bind_eq_bind, Option.bind_eq_some_iff, Option.pure_def,
      Option.some.injEq] at hstep
  | connect c rounds =>
    obtain ⟨connections, hconns, rfl⟩ := hstep
    exact h.connect hconns
  | main c answer =>
    obtain ⟨threads, hthr, result, hres, rfl⟩ := hstep
    exact h.main hkeeps hthr hres
  | request c i answer =>
    obtain ⟨threads, hthr, program, hprogram, result, hres, rfl⟩ := hstep
    exact h.request hthr hprogram hres

theorem routerInv_initial (leakFree : Prop) : RouterInv leakFree {} where
  balanced :=
    { connections := rfl
      connectionsByIp := Counter.follows_empty
      requests := rfl
      requestsByConnection := Counter.follows_empty
      connectionHistory := fun _ => rfl
      requestHistory := fun _ => rfl
      limits := nofun }
  threads _ _ h := absurd h Table.lookup_empty_ne_some
  unknown _ _ := ⟨rfl, rfl⟩

end

/-! ### Whole runs -/

structure Accounted (s : RouterServer) : Prop where
  connections : s.slots.controller.connections = s.slots.heldConnections.length
  connectionsByIp :
    Counter.total s.slots.controller.connectionsByIp = s.slots.controller.connections
  requests : s.slots.controller.requests = s.slots.heldRequests.length
  requestsByConnection :
    Counter.total s.slots.controller.requestsByConnection = s.slots.controller.requests
  /-- A counter that is there is positive. -/
  positiveByIp : ∀ ip count, s.slots.controller.connectionsByIp.lookup ip = some count → 0 < count
  positiveByConnection : ∀ c count,
    s.slots.controller.requestsByConnection.lookup c = some count → 0 < count
  /-- No acquisition went over a limit of the policy in force. -/
  limits : ∀ event ∈ s.slots.history, event.withinLimits = true
  /-- Every acquisition of a connection that has ended was given back once. -/
  matched : ∀ c threads, s.connections.lookup c = some threads → threads.haveEnded = true →
    s.slots.history.countP (SlotEvent.acquiresConnection c) =
        s.slots.history.countP (SlotEvent.releasesConnection c) ∧
      s.slots.history.countP (SlotEvent.acquiresRequest c) =
        s.slots.history.countP (SlotEvent.releasesRequest c)

section

variable {s : RouterServer}

theorem wp_of_hasEnded {S : Type} {M : Machine routerSignature RouterFailure S} {state : S}
    {program : RouterProgram Unit} {Q : Except RouterFailure Unit → S → Prop}
    (hwp : wp M program Q state) (hended : hasEnded program = true) : ∃ r, Q r state := by
  cases program with
  | done r => exact ⟨r, hwp⟩
  | call op next => cases hended

theorem nothing_owed {programs : List (RouterProgram Unit)} {owes : List Bool}
    (h : List.Forall₂ (fun program owes => wp requestMachine program RequestEnds owes) programs owes)
    (hended : programs.all hasEnded = true) : owes.count true = 0 := by
  induction h with
  | nil => rfl
  | cons hhead _ ih =>
    rw [all_cons, Bool.and_eq_true] at hended
    obtain ⟨_, rfl⟩ := wp_of_hasEnded hhead hended.1
    exact ih hended.2

theorem Tended.nothing_held {c : ℕ} {threads : ConnectionThreads} {phase : MainPhase}
    {owes : List Bool} (h : Tended True s.slots c threads phase owes)
    (hended : threads.haveEnded = true) :
    s.slots.ofConnection c = [] ∧ s.slots.heldRequests.count c = 0 := by
  obtain ⟨hmain, hreqs⟩ := (Bool.and_eq_true _ _).mp hended
  obtain ⟨-, hhold, howes⟩ := wp_of_hasEnded h.main hmain
  constructor
  · rw [h.connectionSlots]
    have hleaked := h.unleaked trivial
    cases hslot : phase.slot with
    | fresh | released => rfl
    | holding ip =>
      rw [hslot] at hhold
      cases hhold
    | leaked ip =>
      rw [hslot] at hleaked
      cases hleaked
  · rw [h.requestSlots, howes, nothing_owed h.requests hreqs]
    rfl

theorem RouterInv.accounted (h : RouterInv True s) : Accounted s where
  connections := h.balanced.connections
  connectionsByIp := by
    rw [h.balanced.connectionsByIp.total_eq, h.balanced.connections, length_map]
  requests := h.balanced.requests
  requestsByConnection := by
    rw [h.balanced.requestsByConnection.total_eq, h.balanced.requests]
  positiveByIp _ _ hcount := h.balanced.connectionsByIp.pos hcount
  positiveByConnection _ _ hcount := h.balanced.requestsByConnection.pos hcount
  limits := h.balanced.limits
  matched c threads hthr hended := by
    obtain ⟨phase, owes, htended⟩ := h.threads c threads hthr
    obtain ⟨hconns, hreqs⟩ := htended.nothing_held hended
    have hheld : s.slots.heldConnections.countP (fun held => held.1 == c) = 0 := by
      rw [countP_eq_length_filter, ← length_map Prod.snd]
      show (s.slots.ofConnection c).length = 0
      rw [hconns]
      rfl
    have hconn := h.balanced.connectionHistory c
    have hreq := h.balanced.requestHistory c
    omega

end

/-- **Slots are neither leaked nor given back twice**, in every run in which no call raises between
the acquisition of a connection slot and the `try`, or in the `finally` block before the release. -/
theorem slots_accounted {actions : List RouterAction} {s : RouterServer}
    (hmeets : Meets routerStep (fun s a => keepsSlots s a = true) {} actions)
    (hrun : run routerStep {} actions = some s) : Accounted s := by
  have hinv : RouterInv True s :=
    run_invariant (fun _ _ _ h hkeeps hstep => routerInv_step h (fun _ => hkeeps) hstep)
      (routerInv_initial True) hmeets hrun
  exact hinv.accounted

/-- **Whatever raises, no slot is given back twice and no request slot is lost.**  The counts by
address and by connection add up to the totals, no acquisition goes over a limit, and a connection
loses at most its own slot. -/
theorem slots_at_most_leak {actions : List RouterAction} {s : RouterServer}
    (hrun : run routerStep {} actions = some s) :
    Counter.total s.slots.controller.connectionsByIp = s.slots.controller.connections ∧
      Counter.total s.slots.controller.requestsByConnection = s.slots.controller.requests ∧
      (∀ event ∈ s.slots.history, event.withinLimits = true) ∧
      ∀ c, s.slots.history.countP (SlotEvent.releasesConnection c) ≤
          s.slots.history.countP (SlotEvent.acquiresConnection c) ∧
        s.slots.history.countP (SlotEvent.acquiresConnection c) ≤
          s.slots.history.countP (SlotEvent.releasesConnection c) + 1 ∧
        ∀ threads, s.connections.lookup c = some threads → threads.haveEnded = true →
          s.slots.history.countP (SlotEvent.acquiresRequest c) =
            s.slots.history.countP (SlotEvent.releasesRequest c) := by
  have h : RouterInv False s :=
    run_invariant (fun _ _ _ h _ hstep => routerInv_step h False.elim hstep)
      (routerInv_initial False) (meets_true actions) hrun
  refine ⟨?_, ?_, h.balanced.limits, ?_⟩
  · rw [h.balanced.connectionsByIp.total_eq, h.balanced.connections, length_map]
  · rw [h.balanced.requestsByConnection.total_eq, h.balanced.requests]
  intro c
  have hconn := h.balanced.connectionHistory c
  have hreq := h.balanced.requestHistory c
  have hheld : s.slots.heldConnections.countP (fun held => held.1 == c) ≤ 1 := by
    rw [countP_eq_length_filter, ← length_map Prod.snd]
    show (s.slots.ofConnection c).length ≤ 1
    cases hthr : s.connections.lookup c with
    | none =>
      rw [(h.unknown c hthr).1]
      exact Nat.zero_le 1
    | some threads =>
      obtain ⟨phase, owes, htended⟩ := h.threads c threads hthr
      rw [htended.connectionSlots]
      cases phase.slot <;> simp [SlotPhase.held]
  refine ⟨by omega, by omega, ?_⟩
  intro threads hthr hended
  obtain ⟨phase, owes, htended⟩ := h.threads c threads hthr
  obtain ⟨hmain, hreqs⟩ := (Bool.and_eq_true _ _).mp hended
  obtain ⟨-, -, howes⟩ := wp_of_hasEnded htended.main hmain
  have hslots := htended.requestSlots
  rw [howes, nothing_owed htended.requests hreqs, Bool.toNat_false] at hslots
  omega

/-- Room for two connections, one for each address. -/
def smallPolicy : AdmissionControlPolicy := ⟨2, 1, 4, 2, 5⟩

/-- A connection that is closed after one request, whose handler raises. -/
def oneRequest : List RouterAction :=
  [.connect 0 3, .main 0 (.returnsIp "192.0.2.1"), .main 0 (.underPolicy smallPolicy),
    .main 0 .returns, .main 0 .returns, .main 0 .returns, .main 0 (.returnsBool false),
    .main 0 .returns, .main 0 .returns, .main 0 .returns, .main 0 .returns,
    .main 0 (.returnsBool true), .main 0 (.underPolicy smallPolicy), .main 0 .returns,
    .request 0 0 (.raises .other), .main 0 (.returnsBool false), .main 0 .returns, .main 0 .returns,
    .main 0 .returns, .main 0 .returns, .request 0 0 .returns, .main 0 .returns]

def servedOne : RouterServer := (run routerStep {} oneRequest).getD {}

/-- Both slots are given back. -/
theorem one_request_accounted :
    run routerStep {} oneRequest = some servedOne ∧ Accounted servedOne := by
  have hrun : run routerStep {} oneRequest = some servedOne := run_eq_some_getD {} (by decide +kernel)
  exact ⟨hrun, slots_accounted (meets_of_meetsBool (by decide +kernel)) hrun⟩

/-- A connection whose peer is gone when its address is logged. -/
def failedHandshake : List RouterAction :=
  [.connect 0 0, .main 0 (.returnsIp "192.0.2.1"), .main 0 (.underPolicy smallPolicy),
    .main 0 .returns, .main 0 (.raises .other)]

theorem failed_handshake_at_most_leaks : ∃ s, run routerStep {} failedHandshake = some s ∧
    s.slots.history.countP (SlotEvent.acquiresConnection 0) ≤
      s.slots.history.countP (SlotEvent.releasesConnection 0) + 1 := by
  have hrun : run routerStep {} failedHandshake = some ((run routerStep {} failedHandshake).getD {}) :=
    run_eq_some_getD {} (by decide +kernel)
  exact ⟨_, hrun, ((slots_at_most_leak hrun).2.2.2 0).2.1⟩

/-- The connection has ended, and its slot is lost. -/
theorem failed_handshake_leaks_slot :
    ¬ ∀ actions s, run routerStep {} actions = some s → Accounted s := by
  intro h
  have hrun : run routerStep {} failedHandshake = some ((run routerStep {} failedHandshake).getD {}) :=
    run_eq_some_getD {} (by decide +kernel)
  have hmatch := (h _ _ hrun).matched 0
  generalize hs : (run routerStep {} failedHandshake).getD {} = s at hmatch
  have hacquired : s.slots.history.countP (SlotEvent.acquiresConnection 0) = 1 := by
    rw [← hs]
    decide +kernel
  have hreleased : s.slots.history.countP (SlotEvent.releasesConnection 0) = 0 := by
    rw [← hs]
    decide +kernel
  have hended : (s.connections.lookup 0).any ConnectionThreads.haveEnded = true := by
    rw [← hs]
    decide +kernel
  obtain ⟨threads, hthr, hends⟩ := any_eq_true _ _ |>.mp hended
  have heq := (hmatch threads hthr hends).1
  omega

end Cfms.Transport
