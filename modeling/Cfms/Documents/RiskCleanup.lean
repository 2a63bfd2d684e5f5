import Cfms.Documents.CreationLimits
import Cfms.Lib.TokenBucket

/-!
# Cleaning up risk state

The limits on creations and downloads keep token buckets, denial counters and the accounts seen from
an address; two jobs delete what was not used for a while.  A row is known by its view: the tokens and
the denials that a check at a later instant finds.  If the retention covers the filling of the buckets,
a deleted row has the view of a new one, and runs with and without the jobs take the same decisions.
-/

namespace Cfms.Documents

open List Function

namespace RiskPolicies

variable (policies : RiskPolicies)

/-- What the validation of the two policies checks. -/
structure Valid : Prop where
  positive : ∀ kind, 0 < (policies.limits kind).capacity ∧ 0 < (policies.limits kind).refillTokens ∧
    0 < (policies.limits kind).refillPeriodSeconds
  ratios : policies.creation.pendingElevatedRatio < policies.creation.pendingHighRatio
  ipAccounts : policies.creation.ipAccountsElevated < policies.creation.ipAccountsHigh ∧
    policies.download.ipAccountsElevated < policies.download.ipAccountsHigh
  denials : policies.creation.denialsElevated < policies.creation.denialsHigh ∧
    policies.download.denialsElevated < policies.download.denialsHigh
  costs : 0 < policies.creation.elevatedCost ∧ 0 < policies.creation.highCost ∧
    0 < policies.download.elevatedCost ∧ 0 < policies.download.highCost
  capacities : ∀ kind, kind ≠ .task → (if kind.space = .documentCreation then
    policies.creation.highCost else policies.download.highCost) ≤ (policies.limits kind).capacity
  /-- `_WindowCoverage`. -/
  windows : ∀ kind, (policies.limits kind).refillPeriodSeconds ≤ policies.retention kind.space ∧
    policies.ipAccountWindow kind.space ≤ policies.retention kind.space ∧
    policies.denialWindow kind.space ≤ policies.retention kind.space

/-- An empty bucket of every kind is full after the retention. -/
def CoversFilling : Prop :=
  ∀ kind, (policies.limits kind).capacity * (policies.limits kind).refillPeriodSeconds ≤
    policies.retention kind.space * (policies.limits kind).refillTokens

end RiskPolicies

namespace RiskCleanup

open Lib

def cleanupRateLimitState (space : RiskNamespace) (ipAccountCutoff bucketCutoff : ℚ)
    (db : RiskDb) : RiskDb where
  ipAccounts := db.ipAccounts.filter fun row =>
    !decide (row.space = space ∧ row.lastAttempt < ipAccountCutoff)
  buckets := fun key => (db.buckets key).filter fun row =>
    !decide (key.kind.space = space ∧ row.lastAttempt < bucketCutoff)

/-! ### The checks -/

section

variable (policies : RiskPolicies)

/-- `_check_download_limits`; an issue has an account and no task, a transfer has a task. -/
structure DownloadCheck where
  userId : Option String
  ipAddress : String
  accountCreatedAt : Option ℚ
  taskId : Option String
  bypassRateLimit : Bool
  activeDownloads : ℕ

structure DownloadLimitDecision where
  allowed : Bool
  scope : Option String := none
  limit : Option ℕ := none
  retryAfterSeconds : Option ℤ := none
  riskLevel : Option CreationRiskLevel := none
  riskReasons : List String := []
  wouldBlock : Bool := false
  activeDownloads : Option ℕ := none

def assessDownloadRisk (newAccount : Bool) (ipAccountCount denialCount : ℕ)
    (policy : DocumentDownloadRiskPolicy) : CreationRiskAssessment :=
  let reasons := (if newAccount then ["new_account"] else []) ++
    (if ipAccountCount ≥ policy.ipAccountsElevated then ["ip_account_fanout"] else []) ++
    (if denialCount ≥ policy.denialsElevated then ["recent_denials"] else [])
  let highRisk := decide (ipAccountCount ≥ policy.ipAccountsHigh) ||
    decide (denialCount ≥ policy.denialsHigh) || decide (reasons.length ≥ 2)
  { level := if highRisk then .high else if reasons.isEmpty then .normal else .elevated, reasons }

/-- `_risk_cost` of downloads. -/
def downloadRiskCost (assessment : CreationRiskAssessment) (policy : DocumentDownloadRiskPolicy) : ℕ :=
  match assessment.level with
  | .high => policy.highCost
  | .elevated => policy.elevatedCost
  | .normal => 1

def DownloadCheck.keys (check : DownloadCheck) (transfer : Bool) : List BucketKey :=
  (check.userId.map fun userId =>
      (⟨if transfer then .transferAccount else .issueAccount, userId⟩ : BucketKey)).toList ++
    [⟨if transfer then .transferIp else .issueIp, check.ipAddress⟩] ++
    (check.taskId.map fun taskId => (⟨.task, taskId⟩ : BucketKey)).toList

def checkDownloadLimits (transfer : Bool) (check : DownloadCheck) (now : ℚ) (db : RiskDb) :
    DownloadLimitDecision × RiskDb :=
  let space : RiskNamespace := if transfer then .downloadTransfer else .downloadIssue
  let activeDownloads := if transfer then some check.activeDownloads else none
  if check.bypassRateLimit then ({ allowed := true, activeDownloads }, db)
  else
    let keys := check.keys transfer
    let ipAccounts :=
      match check.userId with
      | none => db.ipAccounts
      | some userId => recordIpAccount space check.ipAddress userId now db.ipAccounts
    let assessment := assessDownloadRisk
      (check.userId.isSome &&
        isNewAccount check.accountCreatedAt now policies.download.newAccountSeconds)
      (if check.userId.isSome then countIpAccounts space check.ipAddress
        (now - policies.download.ipAccountWindowSeconds) ipAccounts else 0)
      (denialCount policies db now keys) policies.download
    let charged := consumeRows policies { db with ipAccounts } now
      (downloadRiskCost assessment policies.download) keys
    let decision : DownloadLimitDecision :=
      match charged.1, policies.download.mode with
      | first :: rest, .enforce =>
        let limiting := limitingDecision first rest
        { allowed := false, scope := some limiting.scope, limit := some limiting.effectiveLimit
          retryAfterSeconds := some limiting.retryAfterSeconds, riskLevel := some assessment.level
          riskReasons := assessment.reasons, wouldBlock := true, activeDownloads }
      | _, _ =>
        { allowed := true, riskLevel := some assessment.level, riskReasons := assessment.reasons
          wouldBlock := !charged.1.isEmpty, activeDownloads }
    (decision, charged.2)

/-! ### Runs -/

inductive Event
  /-- A creation, for an account with the count and the nearest deadline of its pending documents. -/
  | creation (limit pendingCount : ℕ) (nearestDeadline : Option ℚ) (request : CreationRequest)
  | issue (userId ipAddress : String) (accountCreatedAt : Option ℚ) (bypassRateLimit : Bool)
  | transfer (userId : Option String) (ipAddress taskId : String) (accountCreatedAt : Option ℚ)
    (bypassRateLimit : Bool) (activeDownloads : ℕ)
  | cleanupCreation
  | cleanupDownload

def Event.isCleanup : Event → Bool
  | .cleanupCreation | .cleanupDownload => true
  | _ => false

/-- `cleanup_document_creation_risk_state` and `cleanup_document_download_risk_state`, for one
namespace. -/
def cleanup (space : RiskNamespace) (now : ℚ) : RiskDb → RiskDb :=
  cleanupRateLimitState space (now - policies.ipAccountWindow space)
    (now - policies.retention space)

def step (now : ℚ) (db : RiskDb) :
    Event → Option (CreationLimitDecision ⊕ DownloadLimitDecision) × RiskDb
  | .creation limit pendingCount nearestDeadline request =>
    let result :=
      checkDocumentCreationLimits policies limit pendingCount nearestDeadline request now db
    (some (.inl result.1), result.2)
  | .issue userId ipAddress accountCreatedAt bypass =>
    let result := checkDownloadLimits policies false
      ⟨some userId, ipAddress, accountCreatedAt, none, bypass, 0⟩ now db
    (some (.inr result.1), result.2)
  | .transfer userId ipAddress taskId accountCreatedAt bypass active =>
    let result := checkDownloadLimits policies true
      ⟨userId, ipAddress, accountCreatedAt, some taskId, bypass, active⟩ now db
    (some (.inr result.1), result.2)
  | .cleanupCreation => (none, cleanup policies .documentCreation now db)
  | .cleanupDownload =>
    (none, cleanup policies .downloadTransfer now (cleanup policies .downloadIssue now db))

def decisions : RiskDb → List (ℚ × Event) → List (CreationLimitDecision ⊕ DownloadLimitDecision)
  | _, [] => []
  | db, (now, event) :: rest =>
    let result := step policies now db event
    result.1.toList ++ decisions result.2 rest

end

/-! ### Views -/

section

variable (policies : RiskPolicies)

def bucketOf (row : BucketRow) : TokenBucket.Bucket := ⟨row.tokens, row.lastRefillAt⟩

/-- What a check finds in a row: the tokens, and the denials with the last one. -/
def view (kind : BucketKind) (t : ℚ) (row : Option BucketRow) : ℚ × ℕ × Option ℚ :=
  let refreshed := refreshDenials (lockRateBucket row t (policies.limits kind).capacity) t
    (policies.denialWindow kind.space)
  (TokenBucket.available (policies.limits kind).capacity (policies.limits kind).rate t
    (row.map bucketOf), refreshed.denialCount, refreshed.lastDeniedAt)

/-- A row that was last used at `clock` or earlier. -/
structure Sound (clock : ℚ) (row : BucketRow) : Prop where
  refill : row.lastRefillAt ≤ row.lastAttempt
  attempt : row.lastAttempt ≤ clock
  tokens : 0 ≤ row.tokens
  denied : ∀ deniedAt ∈ row.lastDeniedAt, deniedAt ≤ row.lastAttempt

variable {policies} {now clock t : ℚ} {kind : BucketKind} {row : BucketRow}

theorem Sound.mono (h : Sound clock row) (hlater : clock ≤ now) : Sound now row :=
  ⟨h.refill, h.attempt.trans hlater, h.tokens, h.denied⟩

theorem rate_nonneg (limits : BucketLimits) : 0 ≤ limits.rate :=
  div_nonneg (Nat.cast_nonneg _) (Nat.cast_nonneg _)

/-- **A row that was idle for the retention** has the view of a new one. -/
theorem view_of_idle (hvalid : policies.Valid) (hcovers : policies.CoversFilling) (h : Sound clock row)
    (hidle : row.lastAttempt < t - policies.retention kind.space) :
    view policies kind t (some row) = view policies kind t none := by
  obtain ⟨-, -, hperiod⟩ := hvalid.positive kind
  have hcover : ((policies.limits kind).capacity : ℚ) ≤
      policies.retention kind.space * (policies.limits kind).rate := by
    rw [BucketLimits.rate, ← mul_div_assoc, le_div_iff₀ (Nat.cast_pos.mpr hperiod)]
    exact_mod_cast hcovers kind
  have hfull := @TokenBucket.available_of_idle _ _ t _ (rate_nonneg (policies.limits kind)) hcover
    (bucketOf row) h.tokens (show row.lastRefillAt + _ ≤ t by linarith [h.refill])
  have hwin : (policies.denialWindow kind.space : ℚ) ≤ policies.retention kind.space :=
    Nat.cast_le.mpr (hvalid.windows kind).2.2
  have hold : row.lastDeniedAt.all
      (fun deniedAt => decide (t - deniedAt > policies.denialWindow kind.space)) = true := by
    cases hden : row.lastDeniedAt with
    | none => rfl
    | some deniedAt => exact decide_eq_true (by linarith [h.denied deniedAt hden])
  refine Prod.ext hfull ?_
  simp [view, refreshDenials, lockRateBucket, hold]

def chargeView (kind : BucketKind) (limits : BucketLimits) (now : ℚ) (cost : ℕ) :
    ℚ × ℕ × Option ℚ → BucketDecision × BucketRow
  | (tokens, denialCount, lastDeniedAt) =>
    if tokens ≥ cost then
      (⟨true, kind.scope, max 1 (limits.refillTokens / cost), 0⟩,
        ⟨tokens - cost, now, denialCount, lastDeniedAt, now⟩)
    else
      (⟨false, kind.scope, max 1 (limits.refillTokens / cost), max 1 ⌈(cost - tokens) / limits.rate⌉⟩,
        ⟨tokens, now, denialCount, lastDeniedAt, now⟩)

variable {db : RiskDb} {key : BucketKey}

theorem refill_lockedRow (h : ∀ row, db.buckets key = some row → Sound now row) :
    min (refill (lockedRow policies db now key) now (policies.limits key.kind)).1
        (policies.limits key.kind).capacity = (view policies key.kind now (db.buckets key)).1 ∧
      (refill (lockedRow policies db now key) now (policies.limits key.kind)).2 = now := by
  have hlock : (lockedRow policies db now key).tokens = (lockRateBucket (db.buckets key) now
        (policies.limits key.kind).capacity).tokens ∧
      (lockedRow policies db now key).lastRefillAt = (lockRateBucket (db.buckets key) now
        (policies.limits key.kind).capacity).lastRefillAt := by
    unfold lockedRow refreshDenials
    split <;> exact ⟨rfl, rfl⟩
  rw [refill, hlock.1, hlock.2]
  cases hrow : db.buckets key with
  | none =>
    rw [show (lockRateBucket none now _).lastRefillAt = now from rfl, if_neg (lt_irrefl now)]
    exact ⟨min_self _, rfl⟩
  | some row =>
    have hpast := (h row hrow).refill.trans (h row hrow).attempt
    rw [show lockRateBucket (some row) now _ = row from rfl]
    by_cases hlater : now > row.lastRefillAt
    · rw [if_pos hlater]
      exact ⟨min_eq_left (min_le_left _ _), rfl⟩
    · have hnow : now = row.lastRefillAt := le_antisymm (not_lt.mp hlater) hpast
      rw [if_neg hlater]
      refine ⟨?_, hnow.symm⟩
      show min row.tokens _ = min _ (row.tokens + (now - row.lastRefillAt) * _)
      rw [hnow, sub_self, zero_mul, add_zero, min_comm]

/-- **A check sees the view** of a row only. -/
theorem consumeRow_eq (cost : ℕ) (h : ∀ row, db.buckets key = some row → Sound now row) :
    consumeRow policies db now cost key =
      chargeView key.kind (policies.limits key.kind) now (if key.kind = .task then 1 else cost)
        (view policies key.kind now (db.buckets key)) := by
  obtain ⟨htokens, hinstant⟩ := @refill_lockedRow policies now db key h
  unfold consumeRow consumeBucket
  simp only [htokens, hinstant]
  rfl

theorem chargeView_sound (cost : ℕ) (limits : BucketLimits)
    (h : ∀ row, db.buckets key = some row → Sound now row) :
    Sound now (chargeView key.kind limits now cost
      (view policies key.kind now (db.buckets key))).2 := by
  have hnonneg : 0 ≤ (view policies key.kind now (db.buckets key)).1 := by
    refine TokenBucket.available_nonneg (Nat.cast_nonneg _) (rate_nonneg _) ?_
    cases hrow : db.buckets key with
    | none => trivial
    | some row => exact ⟨(h row hrow).refill.trans (h row hrow).attempt, (h row hrow).tokens⟩
  have hden : ∀ deniedAt ∈ (view policies key.kind now (db.buckets key)).2.2, deniedAt ≤ now := by
    intro deniedAt hmem
    simp only [view, refreshDenials] at hmem
    split at hmem
    · cases hmem
    cases hrow : db.buckets key with
    | none =>
      rw [hrow] at hmem
      cases hmem
    | some row =>
      rw [hrow] at hmem
      exact ((h row hrow).denied deniedAt hmem).trans (h row hrow).attempt
  generalize view policies key.kind now (db.buckets key) = seen at hnonneg hden
  obtain ⟨tokens, denialCount, lastDeniedAt⟩ := seen
  rw [chargeView]
  by_cases henough : tokens ≥ cost
  · rw [if_pos henough]
    exact ⟨le_rfl, le_rfl, sub_nonneg.mpr henough, hden⟩
  · rw [if_neg henough]
    exact ⟨le_rfl, le_rfl, hnonneg, hden⟩

theorem Sound.recordDenial (h : Sound now row) (window : ℕ) :
    Sound now (recordDenial row now window) := by
  have hrefreshed : (refreshDenials row now window).lastRefillAt = row.lastRefillAt ∧
      (refreshDenials row now window).tokens = row.tokens := by
    unfold refreshDenials
    split <;> exact ⟨rfl, rfl⟩
  refine ⟨?_, le_rfl, ?_, ?_⟩
  · show (refreshDenials row now window).lastRefillAt ≤ now
    exact hrefreshed.1.trans_le (h.refill.trans h.attempt)
  · show 0 ≤ (refreshDenials row now window).tokens
    exact h.tokens.trans_eq hrefreshed.2.symm
  · intro deniedAt hmem
    cases hmem
    exact le_rfl

end

/-! ### States that checks do not tell apart -/

section

variable (policies : RiskPolicies)

/-- An account that counts at an instant. -/
def isRecent (t : ℚ) (row : RiskIPAccount) : Bool :=
  decide (t - policies.ipAccountWindow row.space ≤ row.lastAttempt)

/-- From `clock` on, checks find the same in both states. -/
structure Same (clock : ℚ) (db other : RiskDb) : Prop where
  sound : ∀ key row, db.buckets key = some row → Sound clock row
  soundOther : ∀ key row, other.buckets key = some row → Sound clock row
  views : ∀ key t, clock ≤ t →
    view policies key.kind t (db.buckets key) = view policies key.kind t (other.buckets key)
  ipAccounts : ∀ t, clock ≤ t →
    db.ipAccounts.filter (isRecent policies t) = other.ipAccounts.filter (isRecent policies t)

variable {policies} {now clock : ℚ} {db other : RiskDb}

theorem Same.mono (h : Same policies clock db other) (hlater : clock ≤ now) :
    Same policies now db other :=
  ⟨fun key row hrow => (h.sound key row hrow).mono hlater,
    fun key row hrow => (h.soundOther key row hrow).mono hlater,
    fun key t ht => h.views key t (hlater.trans ht), fun t ht => h.ipAccounts t (hlater.trans ht)⟩

/-- **A cleanup** goes unnoticed. -/
theorem Same.cleanup (hvalid : policies.Valid) (hcovers : policies.CoversFilling)
    (h : Same policies now db other) (space : RiskNamespace) :
    Same policies now (cleanup policies space now db) other := by
  refine ⟨fun key row hrow => ?_, h.soundOther, fun key t ht => ?_, fun t ht => ?_⟩
  · exact h.sound key row (Option.filter_eq_some_iff.mp hrow).1
  · rw [← h.views key t ht]
    show view policies key.kind t ((db.buckets key).filter _) = _
    cases hrow : db.buckets key with
    | none => rfl
    | some row =>
      rw [Option.filter_some]
      split
      · rfl
      next hgone =>
        simp only [Bool.not_eq_true, Bool.not_eq_false', decide_eq_true_eq] at hgone
        refine (view_of_idle hvalid hcovers (h.sound key row hrow) ?_).symm
        rw [hgone.1]
        linarith [hgone.2]
  · rw [← h.ipAccounts t ht]
    show (db.ipAccounts.filter _).filter _ = _
    rw [filter_filter]
    refine filter_congr fun row _ => ?_
    by_cases hrecent : isRecent policies t row = true
    · have hkept : ¬(row.space = space ∧ row.lastAttempt < now - policies.ipAccountWindow space) := by
        rintro ⟨rfl, hold⟩
        linarith [of_decide_eq_true hrecent]
      simp [hkept]
    · simp [hrecent]

variable (h : Same policies now db other)

include h

theorem Same.row (cost : ℕ) (key : BucketKey) :
    consumeRow policies db now cost key = consumeRow policies other now cost key := by
  rw [consumeRow_eq cost (h.sound key), consumeRow_eq cost (h.soundOther key), h.views key now le_rfl]

/-- **A charge** takes the same decisions and leaves the same rows. -/
theorem Same.rows (cost : ℕ) (keys : List BucketKey) :
    (consumeRows policies db now cost keys).1 = (consumeRows policies other now cost keys).1 ∧
      Same policies now (consumeRows policies db now cost keys).2
        (consumeRows policies other now cost keys).2 := by
  have hden : (consumeRows policies db now cost keys).1 =
      (consumeRows policies other now cost keys).1 :=
    congrArg (filter _) (map_congr_left fun key _ => by rw [h.row cost key])
  have hsame : ∀ key ∈ keys, (consumeRows policies db now cost keys).2.buckets key =
      (consumeRows policies other now cost keys).2.buckets key := by
    intro key hkey
    unfold consumeRows at hden ⊢
    simp only at hden
    simp only [if_pos hkey, hden, h.row cost key]
  have hother : ∀ key ∉ keys, (consumeRows policies db now cost keys).2.buckets key = db.buckets key ∧
      (consumeRows policies other now cost keys).2.buckets key = other.buckets key :=
    fun key hkey => ⟨if_neg hkey, if_neg hkey⟩
  have hsound : ∀ key ∈ keys, ∀ row,
      (consumeRows policies db now cost keys).2.buckets key = some row → Sound now row := by
    intro key hkey row hrow
    unfold consumeRows at hrow
    simp only [if_pos hkey, Option.some.injEq] at hrow
    have hcharged : Sound now (consumeRow policies db now cost key).2 := by
      rw [consumeRow_eq cost (h.sound key)]
      exact chargeView_sound _ _ (h.sound key)
    subst hrow
    split
    · exact hcharged
    · exact hcharged.recordDenial _
  refine ⟨hden, fun key row hrow => ?_, fun key row hrow => ?_, fun key t ht => ?_, h.ipAccounts⟩
  · by_cases hkey : key ∈ keys
    · exact hsound key hkey row hrow
    · exact h.sound key row ((hother key hkey).1 ▸ hrow)
  · by_cases hkey : key ∈ keys
    · exact hsound key hkey row ((hsame key hkey).trans hrow)
    · exact h.soundOther key row ((hother key hkey).2 ▸ hrow)
  · by_cases hkey : key ∈ keys
    · rw [hsame key hkey]
    · rw [(hother key hkey).1, (hother key hkey).2]
      exact h.views key t ht

theorem Same.denials (keys : List BucketKey) :
    denialCount policies db now keys = denialCount policies other now keys :=
  congrArg (foldr max 0) (map_congr_left fun key _ =>
    congrArg (fun seen => seen.2.1) (h.views key now le_rfl))

theorem Same.record (space : RiskNamespace)
    (ipAddress userId : String) :
    Same policies now
      { db with ipAccounts := recordIpAccount space ipAddress userId now db.ipAccounts }
      { other with ipAccounts := recordIpAccount space ipAddress userId now other.ipAccounts } := by
  refine ⟨h.sound, h.soundOther, h.views, fun t ht => ?_⟩
  simp only [recordIpAccount, filter_cons, filter_filter]
  have hrest := congrArg (filter fun row : RiskIPAccount =>
    !decide (row.space = space ∧ row.ipAddress = ipAddress ∧ row.userId = userId)) (h.ipAccounts t ht)
  simp only [filter_filter] at hrest
  simp only [Bool.and_comm, hrest]

theorem Same.count (space : RiskNamespace) (ipAddress : String) :
    countIpAccounts space ipAddress (now - policies.ipAccountWindow space) db.ipAccounts =
      countIpAccounts space ipAddress (now - policies.ipAccountWindow space) other.ipAccounts := by
  have hcount : ∀ rows, countIpAccounts space ipAddress (now - policies.ipAccountWindow space) rows =
      ((rows.filter (isRecent policies now)).filter fun row : RiskIPAccount =>
        decide (row.space = space ∧ row.ipAddress = ipAddress)).length := by
    intro rows
    rw [filter_filter]
    refine congrArg length (filter_congr fun row _ => ?_)
    by_cases hspace : row.space = space
    · simp [isRecent, hspace]
    · simp [hspace]
  rw [hcount, hcount, h.ipAccounts now le_rfl]

omit h

theorem touch_sound {row : Option BucketRow} (capacity : ℕ)
    (h : ∀ held, row = some held → Sound now held) :
    Sound now (touchRateBucket (lockRateBucket row now capacity) now) := by
  cases row with
  | none => exact ⟨le_rfl, le_rfl, Nat.cast_nonneg _, fun _ hnone => by cases hnone⟩
  | some held =>
    have hpast := h held rfl
    exact ⟨hpast.refill.trans hpast.attempt, le_rfl, hpast.tokens,
      fun deniedAt hmem => (hpast.denied deniedAt hmem).trans hpast.attempt⟩

theorem view_touch (kind : BucketKind) (row : Option BucketRow) {t : ℚ} (ht : now ≤ t) :
    view policies kind t (some (touchRateBucket (lockRateBucket row now
      (policies.limits kind).capacity) now)) = view policies kind t row := by
  cases row with
  | none =>
    have hflow : 0 ≤ (t - now) * (policies.limits kind).rate :=
      mul_nonneg (sub_nonneg.mpr ht) (rate_nonneg _)
    exact Prod.ext (min_eq_left (le_add_of_nonneg_right hflow)) rfl
  | some held =>
    refine Prod.ext rfl ?_
    by_cases hold : held.lastDeniedAt.all
        (fun deniedAt => decide (t - deniedAt > policies.denialWindow kind.space)) = true
    · simp [view, refreshDenials, lockRateBucket, touchRateBucket, hold]
    · simp [view, refreshDenials, lockRateBucket, touchRateBucket, hold]

theorem Same.touch (h : Same policies now db other) (key : BucketKey) : Same policies now
      { db with buckets := update db.buckets key (some (touchRateBucket
          (lockRateBucket (db.buckets key) now (policies.limits key.kind).capacity) now)) }
      { other with buckets := update other.buckets key (some (touchRateBucket
          (lockRateBucket (other.buckets key) now (policies.limits key.kind).capacity) now)) } := by
  have hsound : ∀ buckets : BucketKey → Option BucketRow,
      (∀ key row, buckets key = some row → Sound now row) → ∀ written row,
      update buckets key (some (touchRateBucket (lockRateBucket (buckets key) now
        (policies.limits key.kind).capacity) now)) written = some row → Sound now row := by
    intro buckets hall written row hrow
    by_cases hkey : written = key
    · subst hkey
      rw [update_self] at hrow
      exact Option.some.inj hrow ▸ touch_sound _ (hall written)
    · exact hall written row ((update_of_ne hkey _ _).symm.trans hrow)
  refine ⟨hsound _ h.sound, hsound _ h.soundOther, fun written t ht => ?_, h.ipAccounts⟩
  by_cases hkey : written = key
  · subst hkey
    simp only [update_self, view_touch _ _ ht]
    exact h.views written t ht
  · simp only [update_of_ne hkey]
    exact h.views written t ht

/-- **A check of a creation** decides the same. -/
theorem Same.creation (h : Same policies now db other) (limit pendingCount : ℕ)
    (nearestDeadline : Option ℚ) (request : CreationRequest) :
    (checkDocumentCreationLimits policies limit pendingCount nearestDeadline request now db).1 =
        (checkDocumentCreationLimits policies limit pendingCount nearestDeadline request now other).1 ∧
      Same policies now
        (checkDocumentCreationLimits policies limit pendingCount nearestDeadline request now db).2
        (checkDocumentCreationLimits policies limit pendingCount nearestDeadline request now
          other).2 := by
  unfold checkDocumentCreationLimits
  cases request.bypassRateLimit with
  | true => exact ⟨rfl, h.touch ⟨.creationAccount, request.userId⟩⟩
  | false =>
    have hrec := h.record .documentCreation request.ipAddress request.userId
    have hcount := hrec.count .documentCreation request.ipAddress
    have hdenials := h.denials [⟨.creationAccount, request.userId⟩, ⟨.creationIp, request.ipAddress⟩]
    simp only [RiskPolicies.ipAccountWindow] at hcount
    simp only [Bool.false_eq_true, if_false, consumeCreation, hcount, hdenials]
    generalize assessCreationRisk _ policies.creation = assessment
    obtain ⟨hden, hafter⟩ := hrec.rows (riskCost assessment policies.creation)
      [⟨.creationAccount, request.userId⟩, ⟨.creationIp, request.ipAddress⟩]
    exact ⟨by rw [hden], hafter⟩

/-- **A check of a download** decides the same. -/
theorem Same.download (h : Same policies now db other) (transfer : Bool) (check : DownloadCheck) :
    (checkDownloadLimits policies transfer check now db).1 =
        (checkDownloadLimits policies transfer check now other).1 ∧
      Same policies now (checkDownloadLimits policies transfer check now db).2
        (checkDownloadLimits policies transfer check now other).2 := by
  unfold checkDownloadLimits
  have hwin : policies.ipAccountWindow (if transfer then .downloadTransfer else .downloadIssue) =
      policies.download.ipAccountWindowSeconds := by
    cases transfer <;> rfl
  have hdenials := h.denials (check.keys transfer)
  cases check.bypassRateLimit with
  | true => exact ⟨rfl, h⟩
  | false =>
    cases check.userId with
    | none =>
      simp only [Bool.false_eq_true, if_false, hdenials, Option.isSome_none]
      generalize assessDownloadRisk _ _ _ policies.download = assessment
      obtain ⟨hden, hafter⟩ :=
        h.rows (downloadRiskCost assessment policies.download) (check.keys transfer)
      exact ⟨by rw [hden], hafter⟩
    | some userId =>
      have hrec := h.record (if transfer then .downloadTransfer else .downloadIssue)
        check.ipAddress userId
      have hcount := hrec.count (if transfer then .downloadTransfer else .downloadIssue)
        check.ipAddress
      rw [hwin] at hcount
      simp only [Bool.false_eq_true, if_false, hdenials, hcount]
      generalize assessDownloadRisk _ _ _ policies.download = assessment
      obtain ⟨hden, hafter⟩ :=
        hrec.rows (downloadRiskCost assessment policies.download) (check.keys transfer)
      exact ⟨by rw [hden], hafter⟩

/-- **A run**: leaving the cleanups out changes no decision. -/
theorem Same.run (hvalid : policies.Valid) (hcovers : policies.CoversFilling)
    {events : List (ℚ × Event)} (htimes : (events.map Prod.fst).Pairwise (· ≤ ·))
    (hclock : ∀ event ∈ events, clock ≤ event.1) (h : Same policies clock db other) :
    decisions policies db events =
      decisions policies other (events.filter fun event => !event.2.isCleanup) := by
  induction events generalizing clock db other with
  | nil => rfl
  | cons event rest ih =>
    obtain ⟨now, event⟩ := event
    obtain ⟨hfirst, hrest⟩ := pairwise_cons.mp htimes
    have hlater : ∀ later ∈ rest, now ≤ later.1 :=
      fun later hlater => hfirst _ (mem_map_of_mem hlater)
    have hnow := h.mono (hclock _ mem_cons_self)
    cases event with
    | creation limit pendingCount nearestDeadline request =>
      obtain ⟨hsame, hafter⟩ := hnow.creation limit pendingCount nearestDeadline request
      exact congrArg₂ cons (congrArg Sum.inl hsame) (ih hrest hlater hafter)
    | issue userId ipAddress accountCreatedAt bypass =>
      obtain ⟨hsame, hafter⟩ := hnow.download false
        ⟨some userId, ipAddress, accountCreatedAt, none, bypass, 0⟩
      exact congrArg₂ cons (congrArg Sum.inr hsame) (ih hrest hlater hafter)
    | transfer userId ipAddress taskId accountCreatedAt bypass active =>
      obtain ⟨hsame, hafter⟩ := hnow.download true
        ⟨userId, ipAddress, accountCreatedAt, some taskId, bypass, active⟩
      exact congrArg₂ cons (congrArg Sum.inr hsame) (ih hrest hlater hafter)
    | cleanupCreation => exact ih hrest hlater (hnow.cleanup hvalid hcovers .documentCreation)
    | cleanupDownload =>
      exact ih hrest hlater ((hnow.cleanup hvalid hcovers .downloadIssue).cleanup hvalid hcovers
        .downloadTransfer)

end

/-- **Cleaning up is invisible** if the retention covers the filling of the buckets. -/
theorem cleanup_invisible {policies : RiskPolicies} (hvalid : policies.Valid)
    (hcovers : policies.CoversFilling) {events : List (ℚ × Event)}
    (htimes : (events.map Prod.fst).Pairwise (· ≤ ·)) :
    decisions policies {} events =
      decisions policies {} (events.filter fun event => !event.2.isCleanup) := by
  cases events with
  | nil => rfl
  | cons event rest =>
    have hstart : Same policies event.1 {} {} :=
      ⟨fun _ _ hnone => (nomatch hnone), fun _ _ hnone => (nomatch hnone), fun _ _ _ => rfl,
        fun _ _ => rfl⟩
    refine hstart.run hvalid hcovers htimes fun later hlater => ?_
    rcases mem_cons.mp hlater with rfl | hrest
    · exact le_rfl
    · exact (pairwise_cons.mp htimes).1 _ (mem_map_of_mem hrest)

/-- A creation of an account with three pending documents of at most four, which is a high risk and
takes ten tokens, a cleanup and the same creation once more. -/
def twoCreations : List (ℚ × Event) :=
  [(0, .creation 4 3 (some 3600) ⟨"alice", "10.0.0.1", false, none⟩), (601, .cleanupCreation),
    (601, .creation 4 3 (some 3600) ⟨"alice", "10.0.0.1", false, none⟩)]

theorem default_cleanup_invisible : decisions {} {} twoCreations =
    decisions {} {} (twoCreations.filter fun event => !event.2.isCleanup) := by
  refine cleanup_invisible ⟨?_, by decide +kernel, by decide, by decide, by decide, ?_, ?_⟩ ?_
    (by decide +kernel)
  all_goals
    intro kind
    cases kind <;> decide

/-- The bucket of an account has ten tokens and gains one in ten minutes; the retention is ten
minutes. -/
def slowPolicies : RiskPolicies where
  creation := { accountCapacity := 10, accountRefillTokens := 1 }
  creationRetentionSeconds := 600

def isAllowed : CreationLimitDecision ⊕ DownloadLimitDecision → Bool
  | .inl decision => decision.allowed
  | .inr decision => decision.allowed

/-- The cleanup deletes the emptied bucket, and the second creation finds a full one. -/
theorem cleanup_refills : slowPolicies.Valid ∧
    (decisions slowPolicies {} twoCreations).map isAllowed = [true, true] ∧
    (decisions slowPolicies {} (twoCreations.filter fun event => !event.2.isCleanup)).map isAllowed =
      [true, false] := by
  refine ⟨⟨?_, by decide +kernel, by decide, by decide, by decide, ?_, ?_⟩, by decide +kernel,
    by decide +kernel⟩
  all_goals
    intro kind
    cases kind <;> decide

end RiskCleanup

end Cfms.Documents
