import Mathlib.Data.List.MinMax
import Mathlib.Data.Rat.Floor
import Cfms.Lib.Table

/-!
# Failed authentications

`report_failure` of `include/domains/security/guards/login.py` counts a failure in three records: of
the address, of the account with the factor, and of the account with the address.  Address records
count in fixed windows and lock for a fixed time, account records count until a pause and lock for a
time that doubles.  The longest lock goes to the cache.

A `report_failure` is one transaction under the write lock.  `Throttles.lockedUntil` is what
`evaluate` and the list of lockouts read of the records.  Instants are exact.
-/

namespace Cfms.Security

open Lib AList

/-! ### Policy -/

/-- `AuthThrottlePolicy` after validation. -/
structure AuthThrottlePolicy where
  enabled : Bool := true
  accountFailureThreshold : ℕ+ := 5
  accountBaseDelaySeconds : ℕ+ := 30
  accountMaxDelaySeconds : ℕ+ := 3600
  accountResetSeconds : ℕ+ := 86400
  accountIpFailureThreshold : ℕ+ := 5
  accountIpWindowSeconds : ℕ+ := 900
  accountIpBlockSeconds : ℕ+ := 900
  ipFailureThreshold : ℕ+ := 60
  ipWindowSeconds : ℕ+ := 600
  ipBlockSeconds : ℕ+ := 900
  recordRetentionDays : ℕ+ := 7
  base_le_max : accountBaseDelaySeconds ≤ accountMaxDelaySeconds

inductive ThrottleScope
  | bannedSubnet
  | ip
  | account
  | accountIp
  deriving DecidableEq

structure ThrottleDecision where
  allowed : Bool
  scope : Option ThrottleScope := none
  retryAfterSeconds : Option ℤ := none
  deriving DecidableEq

/-! ### Records -/

/-- A row of `traffic_throttles` or `login_throttles`. -/
structure WindowThrottle where
  failedAttempts : ℕ
  windowStartedAt : ℚ
  lastAttempt : ℚ
  lockedUntil : Option ℚ := none
  deriving DecidableEq

/-- A row of `account_throttles`. -/
structure AccountThrottle where
  failedAttempts : ℕ
  lastAttempt : ℚ
  lockedUntil : Option ℚ := none
  deriving DecidableEq

structure Throttles where
  traffic : Table String WindowThrottle
  accounts : Table (String × String) AccountThrottle
  logins : Table (String × String) WindowThrottle

/-- A record by its table and primary key. -/
inductive ThrottleIdentity
  | ip (ipAddress : String)
  | account (username factor : String)
  | accountIp (username ipAddress : String)
  deriving DecidableEq

def ThrottleIdentity.scope : ThrottleIdentity → ThrottleScope
  | .ip _ => .ip
  | .account _ _ => .account
  | .accountIp _ _ => .accountIp

/-- `make_cache_key`. -/
def ThrottleIdentity.cacheKey : ThrottleIdentity → List String
  | .ip ipAddress => ["ip", ipAddress]
  | .account username factor => ["account", username, factor]
  | .accountIp username ipAddress => ["user_ip", username, ipAddress]

theorem ThrottleIdentity.cacheKey_injective : Function.Injective ThrottleIdentity.cacheKey := by
  intro a b h
  cases a <;> cases b <;> simp_all [ThrottleIdentity.cacheKey]

def Throttles.empty : Throttles := ⟨∅, ∅, ∅⟩

/-- `locked_until` of a record. -/
def Throttles.lockedUntil (throttles : Throttles) : ThrottleIdentity → Option ℚ
  | .ip ipAddress => (throttles.traffic.lookup ipAddress).bind WindowThrottle.lockedUntil
  | .account username factor =>
    (throttles.accounts.lookup (username, factor)).bind AccountThrottle.lockedUntil
  | .accountIp username ipAddress =>
    (throttles.logins.lookup (username, ipAddress)).bind WindowThrottle.lockedUntil

def WindowThrottle.updateFixedWindow (record : WindowThrottle) (now : ℚ)
    (threshold windowSeconds blockSeconds : ℕ) : WindowThrottle :=
  let counted : WindowThrottle :=
    if record.windowStartedAt + windowSeconds ≤ now then
      { record with windowStartedAt := now, failedAttempts := 1 }
    else { record with failedAttempts := record.failedAttempts + 1 }
  { counted with
    lastAttempt := now
    lockedUntil := if threshold ≤ counted.failedAttempts then some (now + blockSeconds) else none }

variable (policy : AuthThrottlePolicy)

/-- The delay after so many failures. -/
def AuthThrottlePolicy.delay (failedAttempts : ℕ) : ℕ :=
  min (policy.accountBaseDelaySeconds * 2 ^ (failedAttempts - policy.accountFailureThreshold))
    policy.accountMaxDelaySeconds

def AccountThrottle.updateAccount (record : AccountThrottle) (now : ℚ)
    (policy : AuthThrottlePolicy) : AccountThrottle :=
  let failedAttempts :=
    if record.lastAttempt + (policy.accountResetSeconds : ℕ) ≤ now then 1
    else record.failedAttempts + 1
  { failedAttempts := failedAttempts
    lastAttempt := now
    lockedUntil :=
      if policy.accountFailureThreshold ≤ failedAttempts then
        some (now + policy.delay failedAttempts)
      else none }

/-! ### Failures -/

/-- The arguments of `report_failure`. -/
structure FailedLogin where
  ipAddress : String
  username : String
  factor : String
  deriving DecidableEq

/-- The records a failure is counted in. -/
def FailedLogin.identities (failure : FailedLogin) : List ThrottleIdentity :=
  [.ip failure.ipAddress, .account failure.username failure.factor,
    .accountIp failure.username failure.ipAddress]

section

variable (policy : AuthThrottlePolicy) (now : ℚ) (err : FailedLogin) (throttles : Throttles)

/-- `_get_or_create` and the update of the address record. -/
def trafficAfter : WindowThrottle :=
  let record := (throttles.traffic.lookup err.ipAddress).getD ⟨0, now, now, none⟩
  record.updateFixedWindow now policy.ipFailureThreshold policy.ipWindowSeconds
    policy.ipBlockSeconds

/-- `_get_or_create` and the update of the account record. -/
def accountAfter : AccountThrottle :=
  let record :=
    (throttles.accounts.lookup (err.username, err.factor)).getD ⟨0, now, none⟩
  record.updateAccount now policy

/-- `_get_or_create` and the update of the record of account and address. -/
def loginAfter : WindowThrottle :=
  let record :=
    (throttles.logins.lookup (err.username, err.ipAddress)).getD ⟨0, now, now, none⟩
  record.updateFixedWindow now policy.accountIpFailureThreshold policy.accountIpWindowSeconds
    policy.accountIpBlockSeconds

/-- The transaction of `report_failure`. -/
def countFailure : Throttles where
  traffic := throttles.traffic.insert err.ipAddress (trafficAfter policy now err throttles)
  accounts := throttles.accounts.insert (err.username, err.factor)
    (accountAfter policy now err throttles)
  logins := throttles.logins.insert (err.username, err.ipAddress)
    (loginAfter policy now err throttles)

end

/-! ### The cache -/

/-- A cached `locked_until` and the end of its time to live. -/
structure CachedLock where
  lockedUntil : ℚ
  expireAt : ℚ
  deriving DecidableEq

abbrev LockCache := List String → Option CachedLock

variable (cache : LockCache) (now : ℚ)

def LockCache.get (key : List String) : Option ℚ :=
  (cache key).bind fun entry => if entry.expireAt < now then none else some entry.lockedUntil

def LockCache.set (key : List String) (lockedUntil : ℚ) (ttl : ℤ) :
    LockCache := Function.update cache key (some ⟨lockedUntil, now + ttl⟩)

def LockCache.delete (key : List String) : LockCache :=
  Function.update cache key none

/-- `retry_after` of `_cache_decision`. -/
def retryAfter (lockedUntil now : ℚ) : ℤ := max 1 ⌈lockedUntil - now⌉

/-- The cache that `_cache_decision` leaves; it computes with `now` and writes at the instant
`written`. -/
def cacheDecision (identity : ThrottleIdentity) (lockedUntil now written : ℚ) (cache : LockCache) :
    LockCache :=
  cache.set written identity.cacheKey lockedUntil (retryAfter lockedUntil now)

def denial (identity : ThrottleIdentity) (lockedUntil now : ℚ) : ThrottleDecision where
  allowed := false
  scope := some identity.scope
  retryAfterSeconds := some (retryAfter lockedUntil now)

structure LoginGuard where
  throttles : Throttles
  cache : LockCache

/-- `locked`, without an instant that is zero, which is false in Python. -/
def locksOf (throttles : Throttles) (failure : FailedLogin) : List (ThrottleIdentity × ℚ) :=
  failure.identities.filterMap fun identity =>
    ((throttles.lockedUntil identity).filter (· ≠ 0)).map fun lock => (identity, lock)

/-- `report_failure`; `max(locked, key=...)` takes the first of the longest locks. -/
def reportFailure (failure : FailedLogin) (guard : LoginGuard) : LoginGuard × ThrottleDecision :=
  if policy.enabled then
    let throttles := countFailure policy now failure guard.throttles
    match (locksOf throttles failure).argmax Prod.snd with
    | none => (⟨throttles, guard.cache⟩, { allowed := true })
    | some (identity, lock) =>
      (⟨throttles, cacheDecision identity lock now now guard.cache⟩, denial identity lock now)
  else (guard, { allowed := true })

/-- `purge_expired_auth_throttle_records`. -/
def purgeExpired (throttles : Throttles) : Throttles :=
  let cutoff : ℚ := now - (policy.recordRetentionDays : ℕ) * 86400
  let stale (lastAttempt : ℚ) (lockedUntil : Option ℚ) : Bool :=
    lastAttempt < cutoff && lockedUntil.all fun lock => lock ≤ now
  { traffic := throttles.traffic.delete fun _ record => stale record.lastAttempt record.lockedUntil
    accounts :=
      throttles.accounts.delete fun _ record => stale record.lastAttempt record.lockedUntil
    logins := throttles.logins.delete fun _ record => stale record.lastAttempt record.lockedUntil }

/-! ### What a failure does -/

section

variable {policy : AuthThrottlePolicy} {now : ℚ} {err : FailedLogin}

theorem reportFailure_throttles (guard : LoginGuard) :
    (reportFailure policy now err guard).1.throttles =
      if policy.enabled then countFailure policy now err guard.throttles
      else guard.throttles := by
  unfold reportFailure
  split
  · dsimp only
    split <;> rfl
  · rfl

theorem lockedUntil_countFailure_of_notMem {throttles : Throttles} {identity : ThrottleIdentity}
    (h : identity ∉ err.identities) :
    (countFailure policy now err throttles).lockedUntil identity =
      throttles.lockedUntil identity := by
  simp only [FailedLogin.identities, List.mem_cons, List.not_mem_nil, or_false, not_or] at h
  obtain ⟨hip, hacct, hlogin⟩ := h
  cases identity with
  | ip ipAddress =>
    have hne : ipAddress ≠ err.ipAddress := fun heq => hip (heq ▸ rfl)
    simp only [Throttles.lockedUntil, countFailure, lookup_insert_ne hne]
  | account username factor =>
    have hne : (username, factor) ≠ (err.username, err.factor) := by
      intro heq
      cases heq
      exact hacct rfl
    simp only [Throttles.lockedUntil, countFailure, lookup_insert_ne hne]
  | accountIp username ipAddress =>
    have hne : (username, ipAddress) ≠ (err.username, err.ipAddress) := by
      intro heq
      cases heq
      exact hlogin rfl
    simp only [Throttles.lockedUntil, countFailure, lookup_insert_ne hne]

@[simp] theorem lockedUntil_countFailure_ip (throttles : Throttles) :
    (countFailure policy now err throttles).lockedUntil (.ip err.ipAddress) =
      (trafficAfter policy now err throttles).lockedUntil := by
  simp only [Throttles.lockedUntil, countFailure, lookup_insert, Option.bind_some]

@[simp] theorem lockedUntil_countFailure_account (throttles : Throttles) :
    (countFailure policy now err throttles).lockedUntil
        (.account err.username err.factor) =
      (accountAfter policy now err throttles).lockedUntil := by
  simp only [Throttles.lockedUntil, countFailure, lookup_insert, Option.bind_some]

@[simp] theorem lockedUntil_countFailure_accountIp (throttles : Throttles) :
    (countFailure policy now err throttles).lockedUntil
        (.accountIp err.username err.ipAddress) =
      (loginAfter policy now err throttles).lockedUntil := by
  simp only [Throttles.lockedUntil, countFailure, lookup_insert, Option.bind_some]

end

end Cfms.Security
