import Cfms.Lib.Largest
import Cfms.Lib.OrderedDict
import Cfms.Lib.TokenBucket
import Mathlib.Data.List.Dedup

/-!
# Rate limits

The two providers of `include/providers/rate_limits`, one in memory and one as a script that Redis
runs, the policy whose charges they get, and the token buckets that both stand for.  A call charges
several buckets at once; the charges are made one after another and stay when a later one is
denied.

Both providers forget a bucket that was idle for the retention time: the one in memory drops it at
the next call, and Redis lets the key expire.  Numbers are exact.
-/

namespace Cfms.Security

open Lib

/-! ### Charges and decisions -/

structure RateLimitCharge (κ : Type) where
  key : κ
  scope : String
  capacity : ℕ
  refillTokens : ℕ
  refillPeriodSeconds : ℕ
  cost : ℕ
  deriving DecidableEq

structure RateLimitDecision where
  allowed : Bool
  scope : Option String := none
  effectiveLimit : Option ℕ := none
  retryAfterSeconds : ℤ := 0
  deriving DecidableEq

variable {κ : Type} [DecidableEq κ]

def RateLimitCharge.refillRate (charge : RateLimitCharge κ) : ℚ :=
  charge.refillTokens / charge.refillPeriodSeconds

/-- The seconds until the tokens suffice. -/
def RateLimitCharge.retryAfter (charge : RateLimitCharge κ) (tokens : ℚ) : ℤ :=
  max 1 ⌈(charge.cost - tokens) / charge.refillRate⌉

def RateLimitCharge.denial (charge : RateLimitCharge κ) (retryAfter : ℤ) : RateLimitDecision where
  allowed := false
  scope := some charge.scope
  effectiveLimit := some (max 1 (charge.refillTokens / charge.cost))
  retryAfterSeconds := retryAfter

/-- `max(denied, key=...)` takes the first of the longest waits. -/
def decisionOf (denied : List (RateLimitCharge κ × ℤ)) : RateLimitDecision :=
  match largest Prod.snd denied with
  | none => { allowed := true }
  | some (limiting, retryAfter) => limiting.denial retryAfter

/-- One charge, for a provider with states of type `σ`: the wait if it is denied. -/
abbrev ChargeOne (κ σ : Type) := RateLimitCharge κ → σ → Option ℤ × σ

/-- The charges of a call, one after another, with the ones that are denied. -/
def chargeAll {σ : Type} (chargeOne : ChargeOne κ σ) :
    List (RateLimitCharge κ) → σ → List (RateLimitCharge κ × ℤ) × σ
  | [], state => ([], state)
  | charge :: rest, state =>
    let result := chargeOne charge state
    let others := chargeAll chargeOne rest result.2
    (match result.1 with
      | none => others.1
      | some retryAfter => (charge, retryAfter) :: others.1, others.2)

/-! ### In memory -/

variable (now : ℚ)

namespace MemoryRateLimitProvider

structure BucketState where
  tokens : ℚ
  lastRefillAt : ℚ
  lastSeenAt : ℚ
  deriving DecidableEq

abbrev Buckets (κ : Type) := OrderedDict κ BucketState

def refill (charge : RateLimitCharge κ) (now : ℚ) : Option BucketState → BucketState
  | none => ⟨charge.capacity, now, now⟩
  | some state =>
    if now > state.lastRefillAt then
      { state with
        tokens := min charge.capacity
          (state.tokens + (now - state.lastRefillAt) * charge.refillRate)
        lastRefillAt := now }
    else state

/-- The body of the loop over the charges. -/
def chargeOne : ChargeOne κ (Buckets κ) := fun charge buckets =>
  let state := refill charge now (buckets.lookup charge.key)
  let state := { state with tokens := min state.tokens charge.capacity, lastSeenAt := now }
  if (charge.cost : ℚ) ≤ state.tokens then
    let state := { state with tokens := state.tokens - charge.cost }
    (none, (buckets.assign charge.key state).moveToEnd charge.key)
  else
    (some (charge.retryAfter state.tokens), (buckets.assign charge.key state).moveToEnd charge.key)

def consume (maxEntries : ℕ) (retentionSeconds : ℕ) (now : ℚ) (charges : List (RateLimitCharge κ))
    (buckets : Buckets κ) : RateLimitDecision × Buckets κ :=
  if charges.isEmpty then ({ allowed := true }, buckets)
  else
    let staleBefore := now - retentionSeconds
    let buckets := buckets.popWhile fun state => decide (state.lastSeenAt < staleBefore)
    let result := chargeAll (chargeOne now) charges buckets
    (decisionOf result.1, result.2.trim maxEntries)

end MemoryRateLimitProvider

/-! ### In Redis -/

namespace RedisRateLimitProvider

/-- A hash with its fields and the instant at which the key expires. -/
structure RedisBucket where
  tokens : ℚ
  lastRefillAt : ℚ
  expireAt : ℚ
  deriving DecidableEq

abbrev Keyspace (κ : Type) := Table κ RedisBucket

/-- `HMGET`; a key that has expired is not there. -/
def hmget (key : κ) (keyspace : Keyspace κ) : Option RedisBucket :=
  (keyspace.lookup key).filter fun bucket => decide (now < bucket.expireAt)

/-- One round of the loop of `_CONSUME_SCRIPT`: the wait if the charge is denied. -/
def chargeOne (retentionSeconds : ℕ) (now : ℚ) : ChargeOne κ (Keyspace κ) := fun charge keyspace =>
  let values := hmget now charge.key keyspace
  let tokens := (values.map RedisBucket.tokens).getD charge.capacity
  let lastRefillAt := (values.map RedisBucket.lastRefillAt).getD now
  let refilled : ℚ × ℚ :=
    if now > lastRefillAt then
      (min charge.capacity (tokens + (now - lastRefillAt) * charge.refillRate), now)
    else (tokens, lastRefillAt)
  let tokens := min refilled.1 charge.capacity
  let expireAt := now + retentionSeconds
  if (charge.cost : ℚ) ≤ tokens then
    (none, keyspace.insert charge.key ⟨tokens - charge.cost, refilled.2, expireAt⟩)
  else
    (some (charge.retryAfter tokens), keyspace.insert charge.key ⟨tokens, refilled.2, expireAt⟩)

/-- The loop of `_CONSUME_SCRIPT` with its two variables, `limiting_index` and `longest_retry`. -/
def script (retentionSeconds : ℕ) (now : ℚ) :
    ℕ → List (RateLimitCharge κ) → ℕ × ℤ → Keyspace κ → (ℕ × ℤ) × Keyspace κ
  | _, [], best, keyspace => (best, keyspace)
  | index, charge :: rest, best, keyspace =>
    let result := chargeOne retentionSeconds now charge keyspace
    let best :=
      match result.1 with
      | none => best
      | some retry => if retry > best.2 then (index, retry) else best
    script retentionSeconds now (index + 1) rest best result.2

def consume (retentionSeconds : ℕ) (now : ℚ) (charges : List (RateLimitCharge κ))
    (keyspace : Keyspace κ) : RateLimitDecision × Keyspace κ :=
  if charges.isEmpty then ({ allowed := true }, keyspace)
  else
    let result := script retentionSeconds now 1 charges (0, 0) keyspace
    (if result.1.1 = 0 then { allowed := true }
      else
        match charges[result.1.1 - 1]? with
        | none => { allowed := true }
        | some limiting => limiting.denial (max 1 result.1.2), result.2)

end RedisRateLimitProvider

/-! ### The buckets they stand for -/

namespace IdealRateLimit

open TokenBucket

/-- One charge of a bucket that is never forgotten. -/
def chargeOne : ChargeOne κ (κ → Option Bucket) := fun charge buckets =>
  let result := take charge.capacity charge.refillRate charge.cost now (buckets charge.key)
  (if result.1 then none
    else some (charge.retryAfter (available charge.capacity charge.refillRate now
      (buckets charge.key))),
    Function.update buckets charge.key (some result.2))

def consume (charges : List (RateLimitCharge κ)) (buckets : κ → Option Bucket) :
    RateLimitDecision × (κ → Option Bucket) :=
  let result := chargeAll (chargeOne now) charges buckets
  (decisionOf result.1, result.2)

end IdealRateLimit

/-! ### The policy -/

/-- `RequestRateControlPolicy`, with what its validation checks. -/
structure RequestRateControlPolicy where
  connectionCapacity : ℕ
  connectionRefillTokens : ℕ
  connectionRefillPeriodSeconds : ℕ
  requestRefillPeriodSeconds : ℕ
  accountCapacity : ℕ
  accountRefillTokens : ℕ
  ipCapacity : ℕ
  ipRefillTokens : ℕ
  stateRetentionSeconds : ℕ
  connectionCapacity_pos : 0 < connectionCapacity
  connectionRefillTokens_pos : 0 < connectionRefillTokens
  connectionRefillPeriodSeconds_pos : 0 < connectionRefillPeriodSeconds
  requestRefillPeriodSeconds_pos : 0 < requestRefillPeriodSeconds
  accountCapacity_pos : 0 < accountCapacity
  accountRefillTokens_pos : 0 < accountRefillTokens
  ipCapacity_pos : 0 < ipCapacity
  ipRefillTokens_pos : 0 < ipRefillTokens
  /-- `_WindowCoverage`. -/
  connectionPeriod_covered : connectionRefillPeriodSeconds ≤ stateRetentionSeconds
  requestPeriod_covered : requestRefillPeriodSeconds ≤ stateRetentionSeconds

inductive BucketKind
  | connection
  | requestIp
  | requestAccount
  deriving DecidableEq

/-- `_bucket_key`: the namespace and the scope, and the digest of the identity. -/
structure BucketKey where
  kind : BucketKind
  digest : String
  deriving DecidableEq

variable (policy : RequestRateControlPolicy)

/-- The charges of `check_connection_attempt` and `check_request_rate`. -/
def RequestRateControlPolicy.charge (key : BucketKey) (cost : ℕ) : RateLimitCharge BucketKey :=
  match key.kind with
  | .connection =>
    ⟨key, "ip", policy.connectionCapacity, policy.connectionRefillTokens,
      policy.connectionRefillPeriodSeconds, cost⟩
  | .requestIp =>
    ⟨key, "ip", policy.ipCapacity, policy.ipRefillTokens, policy.requestRefillPeriodSeconds, cost⟩
  | .requestAccount =>
    ⟨key, "account", policy.accountCapacity, policy.accountRefillTokens,
      policy.requestRefillPeriodSeconds, cost⟩

/-- A call of `consume`: its instant, and the keys it charges with their costs. -/
structure ConsumeCall where
  now : ℚ
  costs : List (BucketKey × ℕ)
  deriving DecidableEq

def ConsumeCall.charges (call : ConsumeCall) (policy : RequestRateControlPolicy) :
    List (RateLimitCharge BucketKey) :=
  call.costs.map fun entry => policy.charge entry.1 entry.2

def ConsumeCall.keys (call : ConsumeCall) : List BucketKey := call.costs.map Prod.fst

def ConsumeCall.costOf (call : ConsumeCall) (key : BucketKey) : ℚ :=
  ((call.costs.filter fun entry => entry.1 = key).map fun entry => (entry.2 : ℚ)).sum

/-- The decisions of a provider on a sequence of calls. -/
def decisions {σ : Type} (consume : ConsumeCall → σ → RateLimitDecision × σ) :
    σ → List ConsumeCall → List RateLimitDecision
  | _, [] => []
  | state, call :: rest =>
    let result := consume call state
    result.1 :: decisions consume result.2 rest

namespace RequestRateControlPolicy

variable (policy : RequestRateControlPolicy)

def memoryDecisions (maxEntries : ℕ) (calls : List ConsumeCall) : List RateLimitDecision :=
  decisions (fun call => MemoryRateLimitProvider.consume maxEntries policy.stateRetentionSeconds
    call.now (call.charges policy)) ∅ calls

def redisDecisions (calls : List ConsumeCall) : List RateLimitDecision :=
  decisions (fun call => RedisRateLimitProvider.consume policy.stateRetentionSeconds call.now
    (call.charges policy)) ∅ calls

def idealDecisions (calls : List ConsumeCall) : List RateLimitDecision :=
  decisions (fun call => IdealRateLimit.consume call.now (call.charges policy))
    (fun _ => none) calls

end RequestRateControlPolicy

/-- The cost that is admitted on a key between two instants. -/
def admittedCost (key : BucketKey) (first last : ℚ) (calls : List ConsumeCall)
    (outcomes : List RateLimitDecision) : ℚ :=
  (((calls.zip outcomes).filter fun row =>
    row.2.allowed && decide (first ≤ row.1.now) && decide (row.1.now ≤ last)).map fun row =>
      row.1.costOf key).sum

/-- A sequence of calls with an instant that does not go back, over a bounded number of keys. -/
structure ValidCalls (maxEntries : ℕ) (calls : List ConsumeCall) : Prop where
  times : calls.Pairwise fun call later => call.now ≤ later.now
  distinct : ∀ call ∈ calls, call.keys.Nodup
  costs : ∀ call ∈ calls, ∀ entry ∈ call.costs, 0 < entry.2
  entries : (calls.flatMap ConsumeCall.keys).dedup.length ≤ maxEntries

/-- Both providers enforce the token buckets of the policy. -/
structure EnforcesBuckets (maxEntries : ℕ) : Prop where
  memory : ∀ calls, ValidCalls maxEntries calls →
    policy.memoryDecisions maxEntries calls = policy.idealDecisions calls
  redis : ∀ calls, ValidCalls maxEntries calls →
    policy.redisDecisions calls = policy.idealDecisions calls
  bound : ∀ calls, ValidCalls maxEntries calls → ∀ key first last, first ≤ last →
    admittedCost key first last calls (policy.memoryDecisions maxEntries calls) ≤
      (policy.charge key 1).capacity + (last - first) * (policy.charge key 1).refillRate

/-- The retention covers the time in which an empty bucket fills up. -/
def RequestRateControlPolicy.coversFilling : Bool :=
  decide (policy.connectionCapacity * policy.connectionRefillPeriodSeconds ≤
      policy.stateRetentionSeconds * policy.connectionRefillTokens) &&
    decide (policy.ipCapacity * policy.requestRefillPeriodSeconds ≤
      policy.stateRetentionSeconds * policy.ipRefillTokens) &&
    decide (policy.accountCapacity * policy.requestRefillPeriodSeconds ≤
      policy.stateRetentionSeconds * policy.accountRefillTokens)

end Cfms.Security
