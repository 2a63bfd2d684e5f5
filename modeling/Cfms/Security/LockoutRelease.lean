import Cfms.Security.LockDuration
import Cfms.Security.Lockouts

/-!
# The release of a lockout

`RequestUnlockAuthLockoutsHandler` deletes the records of its selectors in one transaction and then
empties their cache keys.  Evaluations run next to it, and one that read a record before it was
deleted may write the lock to the cache after the key was emptied.  Such a late write makes every
later evaluation deny until the lock would have ended.

Without late writes a finished unlock leaves no lock of its records (`isFree_of_run`), so that no
evaluation denies for them.  `listed_lockouts_can_be_released` says this about every item that is
listed after any failures.
-/

namespace Cfms.Security

open Lib Lib.Run List

/-! ### Evaluations step by step -/

inductive EvaluatorPhase
  | readCache (remaining : List ThrottleIdentity)
  | dropCache (identity : ThrottleIdentity) (remaining : List ThrottleIdentity)
  | readRecords (remaining : List ThrottleIdentity)
  | writeCache (identity : ThrottleIdentity) (lockedUntil : ℚ)
  | finished (decision : ThrottleDecision)
  deriving DecidableEq

def EvaluatorPhase.isFinished : EvaluatorPhase → Bool
  | .finished _ => true
  | _ => false

/-- A call of `evaluate` with its clock reading. -/
structure Evaluator where
  now : ℚ
  checks : List ThrottleIdentity
  phase : EvaluatorPhase
  deriving DecidableEq

variable (policy : AuthThrottlePolicy)

/-- The call up to its first look at the cache. -/
def Evaluator.start (banned : String → Bool) (now : ℚ) (check : LoginCheck) : Evaluator where
  now := now
  checks := check.identities
  phase :=
    if banned check.ipAddress then .finished { allowed := false, scope := some .bannedSubnet }
    else if policy.enabled then .readCache check.identities
    else .finished { allowed := true }

def Evaluator.advance (e : Evaluator) (instant : ℚ) (guard : LoginGuard) :
    Option (Evaluator × LoginGuard) :=
  match e.phase with
  | .readCache [] => some ({ e with phase := .readRecords e.checks }, guard)
  | .readCache (identity :: rest) =>
    match guard.cache.get instant identity.cacheKey with
    | none => some ({ e with phase := .readCache rest }, guard)
    | some expiry =>
      if 0 < ⌈expiry - e.now⌉ then
        some ({ e with phase := .finished (cachedDenial identity expiry e.now) }, guard)
      else some ({ e with phase := .dropCache identity rest }, guard)
  | .dropCache identity rest =>
    some ({ e with phase := .readCache rest },
      { guard with cache := guard.cache.delete identity.cacheKey })
  | .readRecords [] => some ({ e with phase := .finished { allowed := true } }, guard)
  | .readRecords (identity :: rest) =>
    match (guard.throttles.lockedUntil identity).filter (e.now < ·) with
    | none => some ({ e with phase := .readRecords rest }, guard)
    | some lock => some ({ e with phase := .writeCache identity lock }, guard)
  | .writeCache identity lock =>
    some ({ e with phase := .finished (denial identity lock e.now) },
      { guard with cache := cacheDecision identity lock e.now instant guard.cache })
  | .finished _ => none

/-! ### The unlock -/

/-- `session.get` finds the record. -/
def Throttles.hasRecord (throttles : Throttles) : ThrottleIdentity → Bool
  | .ip ipAddress => (throttles.traffic.lookup ipAddress).isSome
  | .account username factor => (throttles.accounts.lookup (username, factor)).isSome
  | .accountIp username ipAddress => (throttles.logins.lookup (username, ipAddress)).isSome

def Throttles.deleteRecord (throttles : Throttles) : ThrottleIdentity → Throttles
  | .ip ipAddress => { throttles with traffic := throttles.traffic.erase ipAddress }
  | .account username factor =>
    { throttles with accounts := throttles.accounts.erase (username, factor) }
  | .accountIp username ipAddress =>
    { throttles with logins := throttles.logins.erase (username, ipAddress) }

/-- The transaction of the unlock: the tables, `cleared` and `not_found`. -/
def unlockRecords : List ThrottleIdentity → Throttles →
    Throttles × List ThrottleIdentity × List ThrottleIdentity
  | [], throttles => (throttles, [], [])
  | identity :: rest, throttles =>
    if throttles.hasRecord identity then
      let result := unlockRecords rest (throttles.deleteRecord identity)
      (result.1, identity :: result.2.1, result.2.2)
    else
      let result := unlockRecords rest throttles
      (result.1, result.2.1, identity :: result.2.2)

inductive Unlocker
  | requested
  | invalidating (remaining : List ThrottleIdentity)
  deriving DecidableEq

structure UnlockState where
  guard : LoginGuard
  evaluators : List Evaluator
  unlocker : Unlocker

/-- A cache key may go at any time, by its size, or by the event that the unlock publishes. -/
inductive UnlockAction
  | evaluate (now : ℚ) (check : LoginCheck)
  | advance (i : ℕ) (instant : ℚ)
  | commit
  | invalidate
  | evict (key : List String)

section

variable (policy : AuthThrottlePolicy) (banned : String → Bool) (locks : List ThrottleIdentity)

variable (s : UnlockState)

def unlockStep : UnlockAction → Option UnlockState
  | .evaluate now check =>
    some { s with evaluators := s.evaluators ++ [Evaluator.start policy banned now check] }
  | .advance i instant =>
    s.evaluators[i]?.bind fun e => (e.advance instant s.guard).map fun result =>
      { s with guard := result.2, evaluators := s.evaluators.set i result.1 }
  | .commit =>
    match s.unlocker with
    | .requested => some { s with
        guard := { s.guard with throttles := (unlockRecords locks s.guard.throttles).1 }
        unlocker := .invalidating locks }
    | .invalidating _ => none
  | .invalidate =>
    match s.unlocker with
    | .invalidating (identity :: rest) => some { s with
        guard := { s.guard with cache := s.guard.cache.delete identity.cacheKey }
        unlocker := .invalidating rest }
    | _ => none
  | .evict key => some { s with guard := { s.guard with cache := s.guard.cache.delete key } }

/-- The unlock is requested, and no evaluation is running. -/
def UnlockState.start (guard : LoginGuard) : UnlockState := ⟨guard, [], .requested⟩

/-- The cache key of the record is still to be emptied. -/
def UnlockState.Awaits (identity : ThrottleIdentity) : Prop :=
  s.unlocker = .requested ∨ ∃ remaining, s.unlocker = .invalidating remaining ∧ identity ∈ remaining

/-- No evaluation writes the lock of an unlocked record after its key was emptied. -/
def NoLateWrite : UnlockAction → Prop
  | .advance i _ => ∀ e, s.evaluators[i]? = some e → ∀ identity ∈ locks, ∀ lock,
      e.phase = .writeCache identity lock → s.Awaits identity
  | _ => True

end

/-! ### What is left -/

section

variable {policy : AuthThrottlePolicy} {banned : String → Bool} {locks : List ThrottleIdentity}
variable {identity : ThrottleIdentity}

theorem lockedUntil_deleteRecord (throttles : Throttles) (other : ThrottleIdentity) :
    (throttles.deleteRecord other).lockedUntil identity =
      if identity = other then none else throttles.lockedUntil identity := by
  split
  · rename_i heq
    subst heq
    cases identity <;> simp [Throttles.deleteRecord, Throttles.lockedUntil]
  · rename_i hne
    cases identity <;> cases other <;>
      simp_all [Throttles.deleteRecord, Throttles.lockedUntil]

theorem lockedUntil_of_not_hasRecord {throttles : Throttles}
    (h : ¬ throttles.hasRecord identity = true) : throttles.lockedUntil identity = none := by
  cases identity <;> simp_all [Throttles.hasRecord, Throttles.lockedUntil]

theorem lockedUntil_unlockRecords (throttles : Throttles) :
    (unlockRecords locks throttles).1.lockedUntil identity =
      if identity ∈ locks then none else throttles.lockedUntil identity := by
  induction locks generalizing throttles with
  | nil => rfl
  | cons first rest ih =>
    rw [unlockRecords]
    split
    · show (unlockRecords rest (throttles.deleteRecord first)).1.lockedUntil identity = _
      rw [ih, lockedUntil_deleteRecord]
      by_cases hfirst : identity = first
      · simp [hfirst]
      · simp [hfirst]
    · rename_i hmiss
      show (unlockRecords rest throttles).1.lockedUntil identity = _
      rw [ih]
      by_cases hfirst : identity = first
      · subst hfirst
        simp [lockedUntil_of_not_hasRecord hmiss]
      · simp [hfirst]

variable {guard : LoginGuard}

theorem Evaluator.advance_cases {e e' : Evaluator} {instant : ℚ} {guard' : LoginGuard}
    (h : e.advance instant guard = some (e', guard')) :
    guard'.throttles = guard.throttles ∧ (guard'.cache = guard.cache ∨
        (∃ other : ThrottleIdentity, guard'.cache = guard.cache.delete other.cacheKey) ∨
        ∃ other lock, e.phase = .writeCache other lock ∧
          guard'.cache = cacheDecision other lock e.now instant guard.cache) := by
  unfold Evaluator.advance at h
  split at h
  · cases h
    exact ⟨rfl, .inl rfl⟩
  · split at h
    · cases h
      exact ⟨rfl, .inl rfl⟩
    · split at h
      all_goals
        cases h
        exact ⟨rfl, .inl rfl⟩
  · rename_i other rest _
    cases h
    exact ⟨rfl, .inr (.inl ⟨other, rfl⟩)⟩
  · cases h
    exact ⟨rfl, .inl rfl⟩
  · split at h
    all_goals
      cases h
      exact ⟨rfl, .inl rfl⟩
  · rename_i other lock hphase
    cases h
    exact ⟨rfl, .inr (.inr ⟨other, lock, hphase, rfl⟩)⟩
  · cases h

/-- After the commit the record is gone, and its key stays empty once it was emptied. -/
def Released (identity : ThrottleIdentity) (s : UnlockState) : Prop :=
  s.unlocker ≠ .requested → s.guard.throttles.lockedUntil identity = none ∧
    (¬ s.Awaits identity → s.guard.cache identity.cacheKey = none)

theorem LockCache.delete_eq_none {cache : LockCache} {key other : List String}
    (h : cache key = none) : (cache.delete other) key = none := by
  rw [LockCache.delete, Function.update_apply]
  split
  · rfl
  · exact h

/-- **Steps without late writes keep what was released.** -/
theorem Released.step {s s' : UnlockState} {action : UnlockAction} (hmem : identity ∈ locks)
    (hs : Released identity s) (hwrite : NoLateWrite locks s action)
    (h : unlockStep policy banned locks s action = some s') : Released identity s' := by
  cases action with
  | evaluate now check =>
    cases h
    exact hs
  | advance i instant =>
    obtain ⟨e, he, hadv⟩ := Option.bind_eq_some_iff.mp h
    obtain ⟨⟨e', guard'⟩, hres, rfl⟩ := Option.map_eq_some_iff.mp hadv
    obtain ⟨hthr, hcache⟩ := Evaluator.advance_cases hres
    intro hcomm
    obtain ⟨hrec, hkey⟩ := hs hcomm
    refine ⟨hthr ▸ hrec, fun hemp => ?_⟩
    have hempty := hkey hemp
    show guard'.cache identity.cacheKey = none
    rcases hcache with hsame | ⟨other, hdel⟩ | ⟨other, lock, hphase, hwrit⟩
    · rw [hsame]
      exact hempty
    · rw [hdel]
      exact LockCache.delete_eq_none hempty
    · have hother : other ≠ identity := by
        rintro rfl
        exact hemp (hwrite e he other hmem lock hphase)
      rw [hwrit, cacheDecision, LockCache.set, Function.update_of_ne]
      · exact hempty
      · exact fun heq => hother (ThrottleIdentity.cacheKey_injective heq).symm
  | commit =>
    simp only [unlockStep] at h
    split at h
    · cases h
      intro _
      refine ⟨?_, fun hemp => absurd (.inr ⟨locks, rfl, hmem⟩) hemp⟩
      show (unlockRecords locks s.guard.throttles).1.lockedUntil identity = none
      rw [lockedUntil_unlockRecords, if_pos hmem]
    · cases h
  | invalidate =>
    simp only [unlockStep] at h
    split at h
    · rename_i first rest hunlocker
      cases h
      intro _
      obtain ⟨hrec, hkey⟩ := hs (by rw [hunlocker]; nofun)
      refine ⟨hrec, fun hemp => ?_⟩
      show (s.guard.cache.delete first.cacheKey) identity.cacheKey = none
      by_cases hfirst : identity = first
      · rw [hfirst, LockCache.delete, Function.update_self]
      refine LockCache.delete_eq_none (hkey ?_)
      rintro (hreq | ⟨remaining, hrem, hin⟩)
      · rw [hunlocker] at hreq
        cases hreq
      · obtain rfl := Unlocker.invalidating.inj (hunlocker.symm.trans hrem)
        rcases mem_cons.mp hin with heq | hrest
        · exact hfirst heq
        · exact hemp (.inr ⟨rest, rfl, hrest⟩)
    · cases h
  | evict key =>
    cases h
    intro hcomm
    obtain ⟨hrec, hkey⟩ := hs hcomm
    exact ⟨hrec, fun hemp => LockCache.delete_eq_none (hkey hemp)⟩

/-- **A finished unlock leaves no lock, without late writes.** -/
theorem isFree_of_run {actions : List UnlockAction} {final : UnlockState} (hmem : identity ∈ locks)
    (hmeets : Meets (unlockStep policy banned locks) (NoLateWrite locks) (.start guard) actions)
    (hrun : run (unlockStep policy banned locks) (.start guard) actions = some final)
    (hdone : final.unlocker = .invalidating []) : final.guard.IsFree identity := by
  have hstart : Released identity (.start guard) := fun hcomm => absurd rfl hcomm
  have hfinal := run_invariant (I := Released identity)
    (fun _ _ _ hs hwrite hstep => hs.step hmem hwrite hstep) hstart hmeets hrun
  obtain ⟨hrec, hkey⟩ := hfinal (by rw [hdone]; nofun)
  refine ⟨hrec, hkey ?_⟩
  rintro (hreq | ⟨remaining, hrem, hin⟩)
  · rw [hdone] at hreq
    cases hreq
  · obtain rfl := Unlocker.invalidating.inj (hdone.symm.trans hrem)
    cases hin

end

/-! ### Listed lockouts -/

/-- The names that a request can have: an address of its column's length, and a username that every
table can hold. -/
def FailedLogin.IsNamed (failure : FailedLogin) : Prop :=
  lockoutAddress failure.ipAddress = true ∧ lockoutUsername failure.username = true

def LoginGuard.empty : LoginGuard := ⟨Throttles.empty, fun _ => none⟩

def reportFailures (failures : List (ℚ × FailedLogin)) (guard : LoginGuard) : LoginGuard :=
  failures.foldl (fun guard failure => (reportFailure policy failure.1 failure.2 guard).1) guard

def UnlockState.IsFinished (s : UnlockState) : Prop :=
  s.unlocker = .invalidating [] ∧ ∀ e ∈ s.evaluators, e.phase.isFinished = true

/-- When an unlock of the record has finished, in a run whose steps meet `C`, no evaluation denies
for the record. -/
def UnlockClears (guard : LoginGuard) (identity : ThrottleIdentity)
    (C : List ThrottleIdentity → UnlockState → UnlockAction → Prop) : Prop :=
  ∀ banned locks actions final, identity ∈ locks →
    run (unlockStep policy banned locks) (.start guard) actions = some final →
      Meets (unlockStep policy banned locks) (C locks) (.start guard) actions →
        final.IsFinished → ∀ now (check : LoginCheck), identity ∈ check.identities →
          (evaluate policy banned now check final.guard).1.scope ≠ some identity.scope

section

variable {policy : AuthThrottlePolicy} {failures : List (ℚ × FailedLogin)}

variable {identity : ThrottleIdentity}

theorem fitsLengths_of_mem_identities {err : FailedLogin}
    (hnamed : err.IsNamed) (h : identity ∈ err.identities) : identity.FitsLengths := by
  rw [FailedLogin.identities, mem_cons, mem_cons, mem_singleton] at h
  rcases h with rfl | rfl | rfl
  · exact hnamed.1
  · exact hnamed.2
  · exact hnamed.symm

theorem fitsLengths_of_locked (hnamed : ∀ err ∈ failures, err.2.IsNamed)
    {guard : LoginGuard} (hguard : ∀ identity : ThrottleIdentity,
      guard.throttles.lockedUntil identity ≠ none → identity.FitsLengths)
    (h : (reportFailures policy failures guard).throttles.lockedUntil identity ≠ none) :
    identity.FitsLengths := by
  induction failures generalizing guard with
  | nil => exact hguard identity h
  | cons err rest ih =>
    refine ih (fun later hlater => hnamed later (mem_cons_of_mem err hlater)) ?_ h
    intro other hother
    rw [reportFailure_throttles] at hother
    split at hother
    · by_cases hmem : other ∈ err.2.identities
      · exact fitsLengths_of_mem_identities (hnamed err mem_cons_self) hmem
      · rw [lockedUntil_countFailure_of_notMem hmem] at hother
        exact hguard other hother
    · exact hguard other hother

theorem lockedUntil_empty (identity : ThrottleIdentity) :
    LoginGuard.empty.throttles.lockedUntil identity = none := by
  cases identity <;> rfl

theorem hasListedFactor_iff {item : LockoutItem}
    (hscope : item.scope = identity.scope) (hsel : item.selector = identity.selector) :
    identity.hasListedFactor = true ↔
      (item.scope = .account → ∃ factor ∈ lockoutFactors, item.factor = some factor) := by
  have hitem : item.factor = identity.selector.factor := by
    rw [← hsel]
    rfl
  rw [hscope, hitem]
  cases identity with
  | ip ipAddress | accountIp username ipAddress => exact iff_of_true rfl nofun
  | account username factor =>
    show lockoutFactors.contains factor = true ↔
      (ThrottleScope.account = .account → ∃ f ∈ lockoutFactors, orNone factor = some f)
    rw [contains_iff_mem]
    constructor
    · intro hmem _
      refine ⟨factor, hmem, orNone_of_ne ?_⟩
      rintro rfl
      revert hmem
      decide
    · intro h
      obtain ⟨f, hf, hsame⟩ := h rfl
      obtain ⟨-, heq⟩ := Option.ite_none_left_eq_some.mp hsame
      rw [Option.some.inj heq]
      exact hf

/-- **Listed lockouts can be released.** An unlock accepts the selector of a listed item exactly
when the item is not of an account with another factor than it permits. A finished unlock leaves no
evaluation that denies for the record, if none writes the lock after its key was emptied. -/
theorem listed_lockouts_can_be_released (policy : AuthThrottlePolicy)
    (failures : List (ℚ × FailedLogin)) (hnamed : ∀ err ∈ failures, err.2.IsNamed)
    (request : LockoutListRequest) (now : ℚ) (item : LockoutItem)
    (hitem : item ∈ listLockouts request now (reportFailures policy failures .empty).throttles) :
    (item.selector.validate.isSome = true ↔
        (item.scope = .account → ∃ factor ∈ lockoutFactors, item.factor = some factor)) ∧
      ∀ identity, item.selector.validate = some identity →
        (reportFailures policy failures .empty).throttles.lockedUntil identity =
            some item.lockedUntil ∧
          UnlockClears policy (reportFailures policy failures .empty) identity NoLateWrite := by
  obtain ⟨identity, hlock, -, hscope, hsel⟩ := exists_identity_of_mem_listLockouts hitem
  have hfits : identity.FitsLengths := by
    refine fitsLengths_of_locked hnamed (fun other hother => ?_) (by rw [hlock]; nofun)
    exact absurd (lockedUntil_empty other) hother
  have hval := validate_selector hfits
  rw [← hsel] at hval
  refine ⟨?_, ?_⟩
  · rw [← hasListedFactor_iff hscope hsel, hval]
    cases identity.hasListedFactor <;> simp
  · intro named hnamedBy
    obtain ⟨-, hsame⟩ := Option.ite_none_right_eq_some.mp (hval.symm.trans hnamedBy)
    cases hsame
    refine ⟨hlock, ?_⟩
    intro banned locks actions final hmem hrun hmeets hfin later check hcheck
    exact evaluate_scope_ne (isFree_of_run hmem hmeets hrun hfin.1) hcheck

end

def aliceFails (factor : String) : List (ℚ × FailedLogin) := [(0, ⟨"203.0.113.9", "alice", factor⟩)]

theorem aliceFails_named (factor : String) : ∀ err ∈ aliceFails factor, err.2.IsNamed := by
  intro err hfail
  rw [mem_singleton.mp hfail]
  exact ⟨(by decide : lockoutAddress "203.0.113.9" = true),
    (by decide : lockoutUsername "alice" = true)⟩

def aliceItem (factor : String) : LockoutItem where
  scope := .account
  username := some "alice"
  factor := some factor
  ipAddress := none
  failedAttempts := 1
  windowStartedAt := none
  lastAttempt := 0
  lockedUntil := 30
  retryAfterSeconds := 29

theorem listed_lockouts_can_be_released_password :
    UnlockClears quickLocks (reportFailures quickLocks (aliceFails "password") .empty)
      (.account "alice" "password") NoLateWrite := by
  have hrel := listed_lockouts_can_be_released quickLocks (aliceFails "password")
    (aliceFails_named "password") { pageSize := 10 } 1 (aliceItem "password") (by decide +kernel)
  exact (hrel.2 _ (by decide)).2

/-- An evaluation from another address reads the lock of the account before the unlock deletes it,
and writes it to the cache after the unlock emptied the key. -/
def lateWrite : List UnlockAction :=
  [.evaluate 1 ⟨"198.51.100.7", some "alice", some "password"⟩, .advance 0 1, .advance 0 1,
    .advance 0 1, .advance 0 1, .advance 0 1, .advance 0 1, .commit, .invalidate, .advance 0 1]

/-- The selector of an account with a key factor is refused, and after a late write the account
stays locked. -/
theorem listed_lockout_stays :
    (¬ ∀ policy failures, (∀ err ∈ failures, err.2.IsNamed) → ∀ request now,
      ∀ item ∈ listLockouts request now (reportFailures policy failures .empty).throttles,
        item.selector.validate.isSome = true) ∧
      ¬ ∀ policy failures, (∀ err ∈ failures, err.2.IsNamed) → ∀ request now,
        ∀ item ∈ listLockouts request now (reportFailures policy failures .empty).throttles,
          ∀ identity, item.selector.validate = some identity →
            UnlockClears policy (reportFailures policy failures .empty) identity
              fun _ _ _ => True := by
  constructor
  · intro hall
    have hacc := hall quickLocks (aliceFails "publickey") (aliceFails_named "publickey")
      { pageSize := 10 } 1 (aliceItem "publickey") (by decide +kernel)
    revert hacc
    decide
  · intro hall
    have hclears := hall quickLocks (aliceFails "password") (aliceFails_named "password")
      { pageSize := 10 } 1 (aliceItem "password") (by decide +kernel) (.account "alice" "password")
      (by decide) (fun _ => false) [.account "alice" "password"] lateWrite _
      (mem_singleton_self _)
      (run_eq_some_getD (.start .empty) (by decide +kernel)) (meets_true _)
      ⟨by decide +kernel, by decide +kernel⟩ 2 ⟨"198.51.100.7", some "alice", some "password"⟩
      (by decide +kernel)
    exact hclears (by decide +kernel)

end Cfms.Security
