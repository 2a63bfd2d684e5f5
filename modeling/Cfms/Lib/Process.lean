import Cfms.Lib.Run

/-!
# Programs that call a system and may fail at every call

A program `Proc sig E α` calls operations of a signature one after another and ends with a value
or an exception.  Every call is answered from outside, with a result or with an exception, so a
program says nothing yet about what its calls do.  `Proc` is a monad with exceptions: `bind` stops
at the first exception and `tryCatch` hands it to a handler.

A machine answers calls in a state.  `wp M p Q s` says that every call `p` makes from `s` is
allowed and that `p` ends in `Q`, whatever the machine answers.  The rules for sequencing and for
handlers are `wp_bind` and `wp_tryCatch`.

A world answers the calls of a program one by one, as `advance` says.  `wp_run` carries `wp` along
a run of a world that a machine simulates, and `reaches_bind` and `reaches_tryCatch` put runs of
the parts of a program together.
-/

namespace Cfms.Lib.Process

open Lib.Run

/-- The operations a program may call, each with the type of its result. -/
structure Signature where
  Op : Type
  Result : Op → Type

/-- The operations with a property. -/
def Signature.only (sig : Signature) (P : sig.Op → Prop) : Signature where
  Op := { op // P op }
  Result op := sig.Result op

inductive Proc (sig : Signature) (E α : Type) : Type
  | done (outcome : Except E α)
  | call (op : sig.Op) (next : Except E (sig.Result op) → Proc sig E α)

namespace Proc

variable {sig : Signature} {E α β : Type}

/-- Go on with the value, stop at an exception. -/
def bind : Proc sig E α → (α → Proc sig E β) → Proc sig E β
  | .done (.ok a), f => f a
  | .done (.error e), _ => .done (.error e)
  | .call op next, f => .call op fun r => (next r).bind f

/-- Hand an exception to the handler. -/
def tryCatch : Proc sig E α → (E → Proc sig E α) → Proc sig E α
  | .done (.ok a), _ => .done (.ok a)
  | .done (.error e), handler => handler e
  | .call op next, handler => .call op fun r => (next r).tryCatch handler

def perform (op : sig.Op) : Proc sig E (sig.Result op) := .call op .done

instance : Monad (Proc sig E) where
  pure a := .done (.ok a)
  bind := Proc.bind

instance : MonadExceptOf E (Proc sig E) where
  throw e := .done (.error e)
  tryCatch := Proc.tryCatch

/-- A program for each element, one after another. -/
def each : List β → (β → Proc sig E Unit) → Proc sig E Unit
  | [], _ => .done (.ok ())
  | b :: rest, body => (body b).bind fun _ => each rest body

/-- A program over operations with a property, as one over all operations. -/
def widen {P : sig.Op → Prop} : Proc (sig.only P) E α → Proc sig E α
  | .done r => .done r
  | .call op next => .call op.1 fun r => (next r).widen

/-- The call a program makes next. -/
def next? : Proc sig E α → Option sig.Op
  | .done _ => none
  | .call op _ => some op

end Proc

/-- What may be called in a state, and how a call is answered. -/
structure Machine (sig : Signature) (E S : Type) where
  allowed : S → sig.Op → Prop
  answers : S → (op : sig.Op) → Except E (sig.Result op) → S → Prop

variable {sig : Signature} {E α β S : Type} {M : Machine sig E S} {Q Q' : Except E α → S → Prop}
  {s s' : S}

/-- Every call from `s` is allowed, and the program ends in `Q`. -/
def wp (M : Machine sig E S) : Proc sig E α → (Except E α → S → Prop) → S → Prop
  | .done r, Q, s => Q r s
  | .call op next, Q, s => M.allowed s op ∧ ∀ r s', M.answers s op r s' → wp M (next r) Q s'

variable {p : Proc sig E α}

theorem wp_mono (h : ∀ r s, Q r s → Q' r s) (hp : wp M p Q s) : wp M p Q' s := by
  induction p generalizing s with
  | done r => exact h r s hp
  | call op next ih => exact ⟨hp.1, fun r s' hr => ih r (hp.2 r s' hr)⟩

/-- What holds after a value, with the rest of the program. -/
def andThen (M : Machine sig E S) (f : α → Proc sig E β) (Q : Except E β → S → Prop) :
    Except E α → S → Prop
  | .ok a, s => wp M (f a) Q s
  | .error e, s => Q (.error e) s

@[simp] theorem andThen_ok {f : α → Proc sig E β} {Q : Except E β → S → Prop} {a : α} :
    andThen M f Q (.ok a) s ↔ wp M (f a) Q s := Iff.rfl

/-- What holds after an exception, with the handler. -/
def orElse (M : Machine sig E S) (handler : E → Proc sig E α) (Q : Except E α → S → Prop) :
    Except E α → S → Prop
  | .ok a, s => Q (.ok a) s
  | .error e, s => wp M (handler e) Q s

/-- **Sequencing.** -/
theorem wp_bind {f : α → Proc sig E β} {Q : Except E β → S → Prop} :
    wp M (p >>= f) Q s ↔ wp M p (andThen M f Q) s := by
  show wp M (p.bind f) Q s ↔ _
  induction p generalizing s with
  | done r =>
    cases r with
    | ok a | error e => exact Iff.rfl
  | call op next ih =>
    show _ ∧ (∀ r s', _ → wp M ((next r).bind f) Q s') ↔ _
    simp only [ih]
    exact Iff.rfl

/-- **Handlers.** -/
theorem wp_tryCatch {handler : E → Proc sig E α} :
    wp M (tryCatch p handler) Q s ↔ wp M p (orElse M handler Q) s := by
  show wp M (p.tryCatch handler) Q s ↔ _
  induction p generalizing s with
  | done r =>
    cases r with
    | ok a | error e => exact Iff.rfl
  | call op next ih =>
    show _ ∧ (∀ r s', _ → wp M ((next r).tryCatch handler) Q s') ↔ _
    simp only [ih]
    exact Iff.rfl

/-! ### What holds after a value -/

/-- A condition on the value, none after an exception. -/
def OnOk (R : α → S → Prop) : Except E α → S → Prop
  | .ok a, s => R a s
  | .error _, _ => True

section

variable {R R' : α → S → Prop}

theorem OnOk.mono (h : ∀ a s, R a s → R' a s) (r : Except E α) (s : S) (hr : OnOk R r s) :
    OnOk R' r s := by
  cases r with
  | ok a => exact h a s hr
  | error e => trivial

theorem wp_perform_onOk {op : sig.Op} {R : sig.Result op → S → Prop} (hallow : M.allowed s op)
    (h : ∀ v s', M.answers s op (.ok v) s' → R v s') : wp M (Proc.perform op) (OnOk R) s := by
  refine ⟨hallow, ?_⟩
  intro r s' hr
  cases r with
  | ok v => exact h v s' hr
  | error e => trivial

theorem wp_bind_onOk {p : Proc sig E α} {f : α → Proc sig E β} {R' : β → S → Prop}
    (hp : wp M p (OnOk R) s) (hf : ∀ a s', R a s' → wp M (f a) (OnOk R') s') :
    wp M (p >>= f) (OnOk R') s := by
  rw [wp_bind]
  refine wp_mono ?_ hp
  intro r s' hr
  cases r with
  | ok a => exact hf a s' hr
  | error e => trivial

theorem wp_tryCatch_onOk {p : Proc sig E α} {handler : E → Proc sig E α} (hp : wp M p (OnOk R) s)
    (hhand : ∀ e s', wp M (handler e) (OnOk R) s') : wp M (tryCatch p handler) (OnOk R) s := by
  rw [wp_tryCatch]
  refine wp_mono ?_ hp
  intro r s' hr
  cases r with
  | ok a => exact hr
  | error e => exact hhand e s'

end

/-! ### What holds however a program ends -/

section

variable {I J : S → Prop} {R : α → S → Prop} {p : Proc sig E α} {f : α → Proc sig E β}

theorem wp_bind_keeps (hp : wp M p (fun _ => I) s)
    (hf : ∀ a s', I s' → wp M (f a) (fun _ => I) s') : wp M (p >>= f) (fun _ => I) s := by
  rw [wp_bind]
  refine wp_mono ?_ hp
  intro r s' hr
  cases r with
  | ok a => exact hf a s' hr
  | error e => exact hr

theorem wp_tryCatch_keeps {handler : E → Proc sig E α}
    (hp : wp M p (fun _ => I) s) (hhand : ∀ e s', I s' → wp M (handler e) (fun _ => I) s') :
    wp M (tryCatch p handler) (fun _ => I) s := by
  rw [wp_tryCatch]
  refine wp_mono ?_ hp
  intro r s' hr
  cases r with
  | ok a => exact hr
  | error e => exact hhand e s' hr

/-- A condition on the value, and another after an exception. -/
def Ends (R : α → S → Prop) (I : S → Prop) : Except E α → S → Prop
  | .ok a, s => R a s
  | .error _, s => I s

theorem wp_bind_ends (hp : wp M p (Ends R I) s)
    (hf : ∀ a s', R a s' → wp M (f a) (fun _ => J) s') (hJ : ∀ s', I s' → J s') :
    wp M (p >>= f) (fun _ => J) s := by
  rw [wp_bind]
  refine wp_mono ?_ hp
  intro r s' hr
  cases r with
  | ok a => exact hf a s' hr
  | error e => exact hJ s' hr

theorem wp_ends_of_keeps (hp : wp M p (fun _ => I) s) : wp M p (Ends (fun _ => I) I) s := by
  refine wp_mono ?_ hp
  intro r s' hr
  cases r with
  | ok a | error e => exact hr

theorem wp_bind_then {R' : β → S → Prop}
    (hp : wp M p (Ends R I) s) (hf : ∀ a s', R a s' → wp M (f a) (Ends R' I) s') :
    wp M (p >>= f) (Ends R' I) s := by
  rw [wp_bind]
  refine wp_mono ?_ hp
  intro r s' hr
  cases r with
  | ok a => exact hf a s' hr
  | error e => exact hr

variable {body : β → Proc sig E Unit}

theorem wp_each {R : β → Prop}
    (hbody : ∀ b s, I s → wp M (body b) (Ends (fun _ s => I s ∧ R b) I) s) (l : List β) (hs : I s) :
    wp M (Proc.each l body) (Ends (fun _ s => I s ∧ ∀ b ∈ l, R b) I) s := by
  induction l generalizing s with
  | nil => exact ⟨hs, fun _ h => absurd h List.not_mem_nil⟩
  | cons b rest ih =>
    refine wp_bind_then (hbody b s hs) ?_
    intro _ s' hs'
    refine wp_mono ?_ (ih hs'.1)
    intro r s'' hr
    cases r with
    | ok a =>
      exact ⟨hr.1, List.forall_mem_cons.mpr ⟨hs'.2, hr.2⟩⟩
    | error e => exact hr

theorem wp_each_keeps (hbody : ∀ b s, I s → wp M (body b) (fun _ => I) s) (l : List β) (hs : I s) :
    wp M (Proc.each l body) (fun _ => I) s := by
  induction l generalizing s with
  | nil => exact hs
  | cons b rest ih => exact wp_bind_keeps (hbody b s hs) fun _ s' hs' => ih hs'

end

/-! ### Programs that do not raise -/

/-- The program returns, and takes one state to another. -/
def Returns (M : Machine sig E S) (p : Proc sig E α) (s s' : S) : Prop :=
  wp M p (fun r t => (∃ a, r = .ok a) ∧ t = s') s

section

variable {s'' : S}

theorem Returns.pure {a : α} : Returns M (pure a) s s := ⟨⟨a, rfl⟩, rfl⟩

theorem Returns.bind {p : Proc sig E α} {f : α → Proc sig E β} (hp : Returns M p s s')
    (hf : ∀ a, Returns M (f a) s' s'') : Returns M (p >>= f) s s'' := by
  rw [Returns, wp_bind]
  refine wp_mono ?_ hp
  rintro _ _ ⟨⟨a, rfl⟩, rfl⟩
  exact hf a

theorem Returns.tryCatch {p : Proc sig E α} {handler : E → Proc sig E α} (hp : Returns M p s s') :
    Returns M (tryCatch p handler) s s' := by
  rw [Returns, wp_tryCatch]
  refine wp_mono ?_ hp
  rintro _ _ ⟨⟨a, rfl⟩, rfl⟩
  exact ⟨⟨a, rfl⟩, rfl⟩

theorem Returns.each {body : β → Proc sig E Unit} {effect : S → β → S}
    (hbody : ∀ b s, Returns M (body b) s (effect s b)) (l : List β) :
    Returns M (Proc.each l body) s (l.foldl effect s) := by
  induction l generalizing s with
  | nil => exact Returns.pure
  | cons b rest ih => exact (hbody b s).bind fun _ => ih

end

/-! ### Programs by the calls they make -/

/-- Every call the program can make satisfies `P`. -/
def OnlyCalls (P : sig.Op → Prop) : Proc sig E α → Prop
  | .done _ => True
  | .call op next => P op ∧ ∀ r, OnlyCalls P (next r)

section

variable {P P' : sig.Op → Prop}

theorem onlyCalls_perform {op : sig.Op} (h : P op) :
    OnlyCalls P (Proc.perform op : Proc sig E (sig.Result op)) :=
  ⟨h, fun _ => trivial⟩

theorem onlyCalls_pure {a : α} : OnlyCalls P (pure a : Proc sig E α) := trivial

theorem onlyCalls_throw {e : E} : OnlyCalls P (throw e : Proc sig E α) := trivial

variable {p : Proc sig E α}

theorem OnlyCalls.mono (h : ∀ op, P op → P' op) (hp : OnlyCalls P p) : OnlyCalls P' p := by
  induction p with
  | done r => trivial
  | call op next ih => exact ⟨h op hp.1, fun r => ih r (hp.2 r)⟩

theorem OnlyCalls.bind {f : α → Proc sig E β} (hp : OnlyCalls P p)
    (hf : ∀ a, OnlyCalls P (f a)) : OnlyCalls P (p >>= f) := by
  show OnlyCalls P (p.bind f)
  induction p with
  | done r =>
    cases r with
    | ok a => exact hf a
    | error e => trivial
  | call op next ih => exact ⟨hp.1, fun r => ih r (hp.2 r)⟩

theorem onlyCalls_each {body : β → Proc sig E Unit} (hbody : ∀ b, OnlyCalls P (body b)) :
    ∀ l : List β, OnlyCalls P (Proc.each l body)
  | [] => trivial
  | b :: rest => (hbody b).bind fun _ => onlyCalls_each hbody rest

theorem OnlyCalls.tryCatch {handler : E → Proc sig E α} (hp : OnlyCalls P p)
    (hhand : ∀ e, OnlyCalls P (handler e)) : OnlyCalls P (tryCatch p handler) := by
  show OnlyCalls P (p.tryCatch handler)
  induction p with
  | done r =>
    cases r with
    | ok a => trivial
    | error e => exact hhand e
  | call op next ih => exact ⟨hp.1, fun r => ih r (hp.2 r)⟩

theorem onlyCalls_widen (p : Proc (sig.only P) E α) : OnlyCalls P p.widen := by
  induction p with
  | done r => trivial
  | call op next ih => exact ⟨op.2, ih⟩

theorem OnlyCalls.wp (hp : OnlyCalls P p)
    (hcalls : ∀ op, P op → M.allowed s op ∧ ∀ r s', M.answers s op r s' → s' = s)
    (hQ : ∀ r, Q r s) : wp M p Q s := by
  induction p with
  | done r => exact hQ r
  | call op next ih =>
    obtain ⟨hallow, hstays⟩ := hcalls op hp.1
    refine ⟨hallow, ?_⟩
    intro r s' hr
    rw [hstays r s' hr]
    exact ih r (hp.2 r)

theorem wp_of_onlyCalls {I : S → Prop} (hp : OnlyCalls P p)
    (hcalls : ∀ op s, P op → I s → M.allowed s op ∧ ∀ r s', M.answers s op r s' → I s')
    (hs : I s) : wp M p (fun _ => I) s := by
  induction p generalizing s with
  | done r => exact hs
  | call op next ih =>
    obtain ⟨hallow, hkeeps⟩ := hcalls op s hp.1 hs
    refine ⟨hallow, ?_⟩
    intro r s' hr
    exact ih r (hp.2 r) (hkeeps r s' hr)

end

/-! ### Runs against a world -/

section

variable {W A : Type} {respond : W → (op : sig.Op) → A → Option (Except E (sig.Result op) × W)}
  {p p' : Proc sig E α} {w w' w'' : W}

def advance (respond : W → (op : sig.Op) → A → Option (Except E (sig.Result op) × W)) :
    Proc sig E α × W → A → Option (Proc sig E α × W)
  | (.done _, _), _ => none
  | (.call op next, w), a => (respond w op a).map fun answer => (next answer.1, answer.2)

variable {c' : Proc sig E α × W} {a : A}

theorem advance_eq_some : advance respond (p, w) a = some c' ↔ ∃ op next r w', p = .call op next ∧
      respond w op a = some (r, w') ∧ c' = (next r, w') := by
  cases p with
  | done r =>
    rw [advance]
    simp
  | call op next =>
    rw [advance, Option.map_eq_some_iff]
    constructor
    · rintro ⟨⟨r, w'⟩, hr, rfl⟩
      exact ⟨op, next, r, w', rfl, hr, rfl⟩
    · rintro ⟨_, _, r, w', hp, hr, rfl⟩
      cases hp
      exact ⟨(r, w'), hr, rfl⟩

/-- The outcome of a program that has ended, and its world. -/
def finished : Proc sig E α × W → Option (Except E α × W)
  | (.done r, w) => some (r, w)
  | (.call _ _, _) => none

variable {c : Proc sig E α × W} {actions : List A} {r : Except E α}

theorem run_eq_done (h : (run (advance respond) c actions).bind finished = some (r, w)) :
    run (advance respond) c actions = some (.done r, w) := by
  obtain ⟨⟨p, w'⟩, hrun, hfin⟩ := Option.bind_eq_some_iff.mp h
  cases p with
  | done r' =>
    cases hfin
    exact hrun
  | call op next => cases hfin

theorem exists_run_done
    (h : ((run (advance respond) c actions).bind finished).map Prod.fst = some r) :
    ∃ w, run (advance respond) c actions = some (.done r, w) := by
  obtain ⟨⟨r', w⟩, hfin, hr⟩ := Option.map_eq_some_iff.mp h
  cases hr
  exact ⟨w, run_eq_done hfin⟩

theorem wp_advance (abs : W → S) (hsim : ∀ w op a r w', respond w op a = some (r, w') →
    M.answers (abs w) op r (abs w')) (hwp : wp M p Q (abs w))
    (h : advance respond (p, w) a = some c') : wp M c'.1 Q (abs c'.2) := by
  obtain ⟨op, next, r, w', rfl, hr, rfl⟩ := advance_eq_some.mp h
  exact hwp.2 r (abs w') (hsim w op a r w' hr)

/-- **`wp` along a run.** -/
theorem wp_run (abs : W → S) (hsim : ∀ w op a r w', respond w op a = some (r, w') →
    M.answers (abs w) op r (abs w')) (hwp : wp M p Q (abs w))
    (hrun : run (advance respond) (p, w) actions = some (p', w')) : wp M p' Q (abs w') :=
  run_invariant (C := fun _ _ => True) (I := fun c => wp M c.1 Q (abs c.2))
    (fun _ _ _ hc _ h => wp_advance abs hsim hc h) hwp (meets_true actions) hrun

variable {op : sig.Op}

theorem allowed_of_next? (hwp : wp M p Q s) (h : p.next? = some op) : M.allowed s op := by
  cases p with
  | done r => cases h
  | call op' next =>
    cases h
    exact hwp.1

/-- Some answers lead from one point of a program to another. -/
def Reaches (respond : W → (op : sig.Op) → A → Option (Except E (sig.Result op) × W))
    (c c' : Proc sig E α × W) : Prop := ∃ actions, run (advance respond) c actions = some c'

theorem Reaches.refl (c : Proc sig E α × W) : Reaches respond c c := ⟨[], rfl⟩

theorem Reaches.trans {c'' : Proc sig E α × W} (h : Reaches respond c c')
    (h' : Reaches respond c' c'') : Reaches respond c c'' := by
  obtain ⟨front, hfront⟩ := h
  obtain ⟨back, hback⟩ := h'
  exact ⟨front ++ back, run_append hfront hback⟩

theorem reaches_call {next : Except E (sig.Result op) → Proc sig E α} (a : A)
    {r : Except E (sig.Result op)} (h : respond w op a = some (r, w')) :
    Reaches respond (.call op next, w) (next r, w') := by
  refine ⟨[a], ?_⟩
  rw [run_cons_eq_some]
  exact ⟨(next r, w'), advance_eq_some.mpr ⟨op, next, r, w', rfl, h, rfl⟩, rfl⟩

theorem reaches_perform_bind {f : sig.Result op → Proc sig E β} (a : A)
    (v : sig.Result op) (h : respond w op a = some (.ok v, w')) :
    Reaches respond (Proc.perform op >>= f, w) (f v, w') := by
  show Reaches respond (.call op fun r => (Proc.done r).bind f, w) ((Proc.done (.ok v)).bind f, w')
  exact reaches_call a h

variable {handler : E → Proc sig E α}

theorem reaches_raise {f : sig.Result op → Proc sig E α}
    (a : A) (e : E) (h : respond w op a = some (.error e, w')) :
    Reaches respond (tryCatch (Proc.perform op >>= f) handler, w) (handler e, w') := by
  show Reaches respond (.call op fun r => ((Proc.done r).bind f).tryCatch handler, w)
    (((Proc.done (.error e)).bind f).tryCatch handler, w')
  exact reaches_call a h

theorem reaches_bind {f : α → Proc sig E β} (h : Reaches respond (p, w) (p', w')) :
    Reaches respond (p >>= f, w) (p' >>= f, w') := by
  obtain ⟨actions, hrun⟩ := h
  refine ⟨actions, ?_⟩
  induction actions generalizing p w with
  | nil =>
    cases hrun
    rfl
  | cons a rest ih =>
    obtain ⟨c, hstep, hrest⟩ := run_cons_eq_some.mp hrun
    obtain ⟨op, next, r, w₁, rfl, hr, rfl⟩ := advance_eq_some.mp hstep
    exact run_cons_eq_some.mpr ⟨(next r >>= f, w₁),
      advance_eq_some.mpr ⟨op, fun r => next r >>= f, r, w₁, rfl, hr, rfl⟩, ih hrest⟩

theorem reaches_tryCatch (h : Reaches respond (p, w) (p', w')) :
    Reaches respond (tryCatch p handler, w) (tryCatch p' handler, w') := by
  obtain ⟨actions, hrun⟩ := h
  refine ⟨actions, ?_⟩
  induction actions generalizing p w with
  | nil =>
    cases hrun
    rfl
  | cons a rest ih =>
    obtain ⟨c, hstep, hrest⟩ := run_cons_eq_some.mp hrun
    obtain ⟨op, next, r, w₁, rfl, hr, rfl⟩ := advance_eq_some.mp hstep
    exact run_cons_eq_some.mpr ⟨(tryCatch (next r) handler, w₁),
      advance_eq_some.mpr ⟨op, fun r => tryCatch (next r) handler, r, w₁, rfl, hr, rfl⟩, ih hrest⟩

end

end Cfms.Lib.Process
