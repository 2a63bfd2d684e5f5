import Cfms.Access.Model
import Mathlib.Data.Rat.Floor

/-!
# Limits on document creation

`check_document_creation_limits` with the token buckets of `guards/rate_limits.py` and the risk
assessment of `creation_risk.py`.  The function reads the number of pending documents once, under
the lock of the account's bucket, and the count decides unless a bucket has already denied the
request.  Here the count and the nearest deadline are arguments; the rows of the rate limits, which
the limits on downloads share, are a value that goes in and out.  The clock is a float in the source;
its readings and the differences between them are exact here.
-/

namespace Cfms.Documents

open Access (Instant)

/-! ### Policies -/

inductive RiskMode
  | observe
  | enforce
  deriving DecidableEq

/-- `DocumentCreationRiskPolicy` with its defaults. -/
structure DocumentCreationRiskPolicy where
  mode : RiskMode := .enforce
  refillPeriodSeconds : ℕ := 600
  accountCapacity : ℕ := 60
  accountRefillTokens : ℕ := 300
  ipCapacity : ℕ := 200
  ipRefillTokens : ℕ := 1000
  newAccountSeconds : ℕ := 7 * 24 * 60 * 60
  pendingElevatedRatio : ℚ := 1 / 2
  pendingHighRatio : ℚ := 3 / 4
  ipAccountWindowSeconds : ℕ := 600
  ipAccountsElevated : ℕ := 4
  ipAccountsHigh : ℕ := 10
  denialWindowSeconds : ℕ := 600
  denialsElevated : ℕ := 1
  denialsHigh : ℕ := 3
  elevatedCost : ℕ := 3
  highCost : ℕ := 10

/-- `DocumentDownloadRiskPolicy` with its defaults. -/
structure DocumentDownloadRiskPolicy where
  mode : RiskMode := .observe
  refillPeriodSeconds : ℕ := 600
  issueAccountCapacity : ℕ := 60
  issueAccountRefillTokens : ℕ := 300
  issueIpCapacity : ℕ := 200
  issueIpRefillTokens : ℕ := 1000
  transferAccountCapacity : ℕ := 60
  transferAccountRefillTokens : ℕ := 300
  transferIpCapacity : ℕ := 200
  transferIpRefillTokens : ℕ := 1000
  taskCapacity : ℕ := 5
  taskRefillTokens : ℕ := 10
  taskRefillPeriodSeconds : ℕ := 3600
  newAccountSeconds : ℕ := 7 * 24 * 60 * 60
  ipAccountWindowSeconds : ℕ := 600
  ipAccountsElevated : ℕ := 4
  ipAccountsHigh : ℕ := 10
  denialWindowSeconds : ℕ := 600
  denialsElevated : ℕ := 1
  denialsHigh : ℕ := 3
  elevatedCost : ℕ := 3
  highCost : ℕ := 10
  stateRetentionSeconds : ℕ := 86400

inductive RiskNamespace
  | documentCreation
  | downloadIssue
  | downloadTransfer
  deriving DecidableEq

/-- The buckets of the three namespaces. -/
inductive BucketKind
  | creationAccount
  | creationIp
  | issueAccount
  | issueIp
  | transferAccount
  | transferIp
  | task
  deriving DecidableEq

def BucketKind.space : BucketKind → RiskNamespace
  | .creationAccount | .creationIp => .documentCreation
  | .issueAccount | .issueIp => .downloadIssue
  | .transferAccount | .transferIp | .task => .downloadTransfer

def BucketKind.scope : BucketKind → String
  | .creationAccount | .issueAccount | .transferAccount => "account"
  | .creationIp | .issueIp | .transferIp => "ip"
  | .task => "task"

structure BucketLimits where
  capacity : ℕ
  refillTokens : ℕ
  refillPeriodSeconds : ℕ

def BucketLimits.rate (limits : BucketLimits) : ℚ := limits.refillTokens / limits.refillPeriodSeconds

structure RiskPolicies where
  creation : DocumentCreationRiskPolicy := {}
  creationRetentionSeconds : ℕ := 86400
  download : DocumentDownloadRiskPolicy := {}

namespace RiskPolicies

variable (policies : RiskPolicies)

def limits : BucketKind → BucketLimits
  | .creationAccount => ⟨policies.creation.accountCapacity, policies.creation.accountRefillTokens,
      policies.creation.refillPeriodSeconds⟩
  | .creationIp => ⟨policies.creation.ipCapacity, policies.creation.ipRefillTokens,
      policies.creation.refillPeriodSeconds⟩
  | .issueAccount => ⟨policies.download.issueAccountCapacity,
      policies.download.issueAccountRefillTokens, policies.download.refillPeriodSeconds⟩
  | .issueIp => ⟨policies.download.issueIpCapacity, policies.download.issueIpRefillTokens,
      policies.download.refillPeriodSeconds⟩
  | .transferAccount => ⟨policies.download.transferAccountCapacity,
      policies.download.transferAccountRefillTokens, policies.download.refillPeriodSeconds⟩
  | .transferIp => ⟨policies.download.transferIpCapacity, policies.download.transferIpRefillTokens,
      policies.download.refillPeriodSeconds⟩
  | .task => ⟨policies.download.taskCapacity, policies.download.taskRefillTokens,
      policies.download.taskRefillPeriodSeconds⟩

def denialWindow : RiskNamespace → ℕ
  | .documentCreation => policies.creation.denialWindowSeconds
  | _ => policies.download.denialWindowSeconds

def ipAccountWindow : RiskNamespace → ℕ
  | .documentCreation => policies.creation.ipAccountWindowSeconds
  | _ => policies.download.ipAccountWindowSeconds

def retention : RiskNamespace → ℕ
  | .documentCreation => policies.creationRetentionSeconds
  | _ => policies.download.stateRetentionSeconds

end RiskPolicies

/-! ### Risk -/

inductive CreationRiskLevel
  | normal
  | elevated
  | high
  deriving DecidableEq

structure CreationRiskSignals where
  newAccount : Bool
  pendingRatio : ℚ
  ipAccountCount : ℕ
  denialCount : ℕ

structure CreationRiskAssessment where
  level : CreationRiskLevel
  reasons : List String

/-- The `reasons` of `assess_creation_risk`. -/
def creationRiskReasons (signals : CreationRiskSignals) (policy : DocumentCreationRiskPolicy) :
    List String :=
  (if signals.newAccount then ["new_account"] else []) ++
  (if signals.pendingRatio ≥ policy.pendingElevatedRatio then ["pending_documents"] else []) ++
  (if signals.ipAccountCount ≥ policy.ipAccountsElevated then ["ip_account_fanout"] else []) ++
  (if signals.denialCount ≥ policy.denialsElevated then ["recent_denials"] else [])

def assessCreationRisk (signals : CreationRiskSignals) (policy : DocumentCreationRiskPolicy) :
    CreationRiskAssessment :=
  let reasons := creationRiskReasons signals policy
  let highRisk := decide (signals.pendingRatio ≥ policy.pendingHighRatio) ||
    decide (signals.ipAccountCount ≥ policy.ipAccountsHigh) ||
    decide (signals.denialCount ≥ policy.denialsHigh) || decide (reasons.length ≥ 2)
  let level :=
    if highRisk then .high else if reasons.isEmpty then .normal else .elevated
  { level, reasons }

def riskCost (assessment : CreationRiskAssessment) (policy : DocumentCreationRiskPolicy) : ℕ :=
  match assessment.level with
  | .high => policy.highCost
  | .elevated => policy.elevatedCost
  | .normal => 1

/-! ### Rows -/

/-- The fields of a `RateLimitBucket` beside its key. -/
structure BucketRow where
  tokens : ℚ
  lastRefillAt : Instant
  denialCount : ℕ := 0
  lastDeniedAt : Option Instant := none
  lastAttempt : Instant
  deriving DecidableEq

structure BucketKey where
  kind : BucketKind
  identity : String
  deriving DecidableEq

/-- A `RiskIPAccount`. -/
structure RiskIPAccount where
  space : RiskNamespace
  ipAddress : String
  userId : String
  lastAttempt : Instant
  deriving DecidableEq

structure RiskDb where
  buckets : BucketKey → Option BucketRow := fun _ => none
  ipAccounts : List RiskIPAccount := []

/-! ### `guards/rate_limits.py` -/

structure BucketDecision where
  allowed : Bool
  scope : String
  effectiveLimit : ℕ
  retryAfterSeconds : ℤ

def lockRateBucket (row : Option BucketRow) (now : Instant) (capacity : ℕ) : BucketRow :=
  row.getD { tokens := capacity, lastRefillAt := now, lastAttempt := now }

def touchRateBucket (row : BucketRow) (now : Instant) : BucketRow := { row with lastAttempt := now }

def recordIpAccount (space : RiskNamespace) (ipAddress userId : String) (now : Instant)
    (rows : List RiskIPAccount) : List RiskIPAccount :=
  ⟨space, ipAddress, userId, now⟩ :: rows.filter fun row =>
    !decide (row.space = space ∧ row.ipAddress = ipAddress ∧ row.userId = userId)

def countIpAccounts (space : RiskNamespace) (ipAddress : String) (cutoff : Instant)
    (rows : List RiskIPAccount) : ℕ :=
  (rows.filter fun row => decide (row.space = space ∧ row.ipAddress = ipAddress ∧
    cutoff ≤ row.lastAttempt)).length

def refreshDenials (row : BucketRow) (now : Instant) (windowSeconds : ℕ) : BucketRow :=
  if row.lastDeniedAt.all fun deniedAt => decide (now - deniedAt > windowSeconds) then
    { row with denialCount := 0, lastDeniedAt := none }
  else row

def recordDenial (row : BucketRow) (now : Instant) (windowSeconds : ℕ) : BucketRow :=
  let row := refreshDenials row now windowSeconds
  { row with denialCount := row.denialCount + 1, lastDeniedAt := some now, lastAttempt := now }

def refill (row : BucketRow) (now : Instant) (limits : BucketLimits) : ℚ × Instant :=
  if now > row.lastRefillAt then
    (min limits.capacity (row.tokens + (now - row.lastRefillAt) * limits.rate), now)
  else (row.tokens, row.lastRefillAt)

def consumeBucket (scope : String) (row : BucketRow) (now : Instant) (limits : BucketLimits) (cost : ℕ) :
    BucketDecision × BucketRow :=
  let refilled := refill row now limits
  let tokens := min refilled.1 limits.capacity
  let row := { row with tokens, lastRefillAt := refilled.2, lastAttempt := now }
  let effectiveLimit := max 1 (limits.refillTokens / cost)
  if tokens ≥ cost then (⟨true, scope, effectiveLimit, 0⟩, { row with tokens := tokens - cost })
  else (⟨false, scope, effectiveLimit, max 1 ⌈(cost - tokens) / limits.rate⌉⟩, row)

/-- `max` of the denied decisions with `retry_after_seconds` as the key. -/
def limitingDecision (first : BucketDecision) (rest : List BucketDecision) : BucketDecision :=
  rest.foldl
    (fun best decision =>
      if decision.retryAfterSeconds > best.retryAfterSeconds then decision else best) first

/-! ### Charges -/

section

variable (policies : RiskPolicies) (db : RiskDb) (now : Instant)

def lockedRow (key : BucketKey) : BucketRow :=
  refreshDenials (lockRateBucket (db.buckets key) now (policies.limits key.kind).capacity) now
    (policies.denialWindow key.kind.space)

/-- A task is charged one token, whatever the risk is. -/
def consumeRow (cost : ℕ) (key : BucketKey) : BucketDecision × BucketRow :=
  consumeBucket key.kind.scope (lockedRow policies db now key) now (policies.limits key.kind)
    (if key.kind = .task then 1 else cost)

/-- The decisions that deny, and the rows that are written. -/
def consumeRows (cost : ℕ) (keys : List BucketKey) : List BucketDecision × RiskDb :=
  let denied := (keys.map fun key => (consumeRow policies db now cost key).1).filter (!·.allowed)
  (denied, { db with
    buckets := fun key =>
      if key ∈ keys then
        let row := (consumeRow policies db now cost key).2
        some (if denied.isEmpty then row
          else recordDenial row now (policies.denialWindow key.kind.space))
      else db.buckets key })

def denialCount (db : RiskDb) (now : Instant) (keys : List BucketKey) : ℕ :=
  (keys.map fun key => (lockedRow policies db now key).denialCount).foldr max 0

def isNewAccount (accountCreatedAt : Option Instant) (now : Instant) (newAccountSeconds : ℕ) : Bool :=
  accountCreatedAt.all fun createdAt => decide (now - createdAt < newAccountSeconds)

end

/-! ### The decision -/

structure CreationLimitDecision where
  allowed : Bool
  scope : Option String := none
  limit : Option ℕ := none
  retryAfterSeconds : Option ℤ := none
  riskLevel : Option CreationRiskLevel := none
  riskReasons : List String := []
  wouldBlock : Bool := false

/-- `_pending_limit_decision`; the deadline is the earliest one of a live upload of the account, and
the delay is rounded up to whole seconds. -/
def pendingLimitDecision (nearestDeadline : Option Instant) (now : Instant)
    (pendingCount limit : ℕ) : Option CreationLimitDecision :=
  if pendingCount < limit then none
  else
    some
      { allowed := false, scope := some "pending_documents", limit := some limit
        retryAfterSeconds := some (max 1 ⌈nearestDeadline.getD (now + 1) - now⌉) }

/-- The arguments of `check_document_creation_limits` beside the session and the time. -/
structure CreationRequest where
  userId : String
  ipAddress : String
  bypassRateLimit : Bool
  accountCreatedAt : Option Instant

section

variable (policies : RiskPolicies) (limit pendingCount : ℕ)

/-- What the request would be denied by: the assessment, the decisions of the two buckets that are
denials, and the rows that are written. -/
def consumeCreation (request : CreationRequest) (now : Instant) (db : RiskDb) :
    CreationRiskAssessment × List BucketDecision × RiskDb :=
  let keys : List BucketKey :=
    [⟨.creationAccount, request.userId⟩, ⟨.creationIp, request.ipAddress⟩]
  let ipAccounts :=
    recordIpAccount .documentCreation request.ipAddress request.userId now db.ipAccounts
  let assessment := assessCreationRisk
    { newAccount := isNewAccount request.accountCreatedAt now policies.creation.newAccountSeconds
      pendingRatio := pendingCount / limit
      ipAccountCount := countIpAccounts .documentCreation request.ipAddress
        (now - policies.creation.ipAccountWindowSeconds) ipAccounts
      denialCount := denialCount policies db now keys } policies.creation
  (assessment,
    consumeRows policies { db with ipAccounts } now (riskCost assessment policies.creation) keys)

/-- `check_document_creation_limits` after the count, with the rows that it leaves. -/
def checkDocumentCreationLimits (nearestDeadline : Option Instant) (request : CreationRequest)
    (now : Instant) (db : RiskDb) : CreationLimitDecision × RiskDb :=
  let pendingDecision := pendingLimitDecision nearestDeadline now pendingCount limit
  if request.bypassRateLimit then
    let account : BucketKey := ⟨.creationAccount, request.userId⟩
    let row := lockRateBucket (db.buckets account) now policies.creation.accountCapacity
    (pendingDecision.getD { allowed := true },
      { db with buckets := Function.update db.buckets account (some (touchRateBucket row now)) })
  else
    let (assessment, denied, db) := consumeCreation policies limit pendingCount request now db
    let decision : CreationLimitDecision :=
      match denied, policies.creation.mode with
      | first :: rest, .enforce =>
        let limiting := limitingDecision first rest
        { allowed := false, scope := some limiting.scope, limit := some limiting.effectiveLimit
          retryAfterSeconds := some limiting.retryAfterSeconds, riskLevel := some assessment.level
          riskReasons := assessment.reasons, wouldBlock := true }
      | _, _ =>
        pendingDecision.getD
          { allowed := true, riskLevel := some assessment.level
            riskReasons := assessment.reasons, wouldBlock := !denied.isEmpty }
    (decision, db)

/-- A bucket denies the request, and the policy enforces the denial. -/
def deniedByBuckets (request : CreationRequest) (now : Instant) (db : RiskDb) : Bool :=
  !request.bypassRateLimit && decide (policies.creation.mode = .enforce) &&
    !(consumeCreation policies limit pendingCount request now db).2.1.isEmpty

end

/-! ### What the decision depends on -/

section

variable {policies : RiskPolicies} {limit pendingCount : ℕ}
variable {nearestDeadline : Option Instant} {request : CreationRequest} {db : RiskDb}
variable {now : Instant}

/-- An allowing decision stands only below the limit. -/
theorem pendingLimitDecision_getD_allowed {decision : CreationLimitDecision}
    (hdec : decision.allowed = true) :
    ((pendingLimitDecision nearestDeadline now pendingCount limit).getD decision).allowed = true ↔
      pendingCount < limit := by
  unfold pendingLimitDecision
  split
  · rename_i hlt
    simp only [Option.getD_none, hdec, hlt]
  · rename_i hge
    simp only [Option.getD_some, Bool.false_eq_true, hge]

/-- A creation is allowed below the limit, unless a bucket denies it. -/
theorem checkDocumentCreationLimits_allowed :
    (checkDocumentCreationLimits policies limit pendingCount nearestDeadline request now
        db).1.allowed = true ↔
      pendingCount < limit ∧
        deniedByBuckets policies limit pendingCount request now db = false := by
  unfold checkDocumentCreationLimits deniedByBuckets
  cases hbypass : request.bypassRateLimit with
  | true => simp [pendingLimitDecision_getD_allowed]
  | false =>
    cases hden : (consumeCreation policies limit pendingCount request now db).2.1 with
    | nil => simp [hden, pendingLimitDecision_getD_allowed]
    | cons first rest =>
      cases hmode : policies.creation.mode with
      | observe => simp [pendingLimitDecision_getD_allowed]
      | enforce => simp [hden]

end

end Cfms.Documents
