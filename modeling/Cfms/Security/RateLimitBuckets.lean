import Cfms.Security.RateLimits

/-!
# Rate limits as token buckets

Both providers forget buckets, and the decisions are those of buckets that are never forgotten
exactly if a forgotten bucket would be full by then.  That is so when the retention is at least the
time in which an empty bucket fills up; the validation of the policy only asks that it covers the
refill periods.

The step lemmas are about one charge, and the run lemmas about any sequence of calls.
-/

namespace Cfms.Security

open Lib Lib.TokenBucket Function AList

/-! ### The buckets of a policy -/

namespace RequestRateControlPolicy

variable (policy : RequestRateControlPolicy)

def capacity (key : BucketKey) : ℕ := (policy.charge key 1).capacity

def rate (key : BucketKey) : ℚ := (policy.charge key 1).refillRate

variable {policy} {key : BucketKey} {cost : ℕ}

@[simp] theorem charge_key : (policy.charge key cost).key = key := by
  obtain ⟨kind, digest⟩ := key
  cases kind <;> rfl

@[simp] theorem charge_cost : (policy.charge key cost).cost = cost := by
  obtain ⟨kind, digest⟩ := key
  cases kind <;> rfl

@[simp] theorem charge_capacity : (policy.charge key cost).capacity = policy.capacity key := by
  obtain ⟨kind, digest⟩ := key
  cases kind <;> rfl

@[simp] theorem charge_refillRate : (policy.charge key cost).refillRate = policy.rate key := by
  obtain ⟨kind, digest⟩ := key
  cases kind <;> rfl

theorem capacity_pos : 0 < policy.capacity key := by
  obtain ⟨kind, digest⟩ := key
  cases kind with
  | connection => exact policy.connectionCapacity_pos
  | requestIp => exact policy.ipCapacity_pos
  | requestAccount => exact policy.accountCapacity_pos

theorem rate_pos : 0 < policy.rate key := by
  have hconn : (0 : ℚ) < policy.connectionRefillPeriodSeconds :=
    Nat.cast_pos.mpr policy.connectionRefillPeriodSeconds_pos
  have hreq : (0 : ℚ) < policy.requestRefillPeriodSeconds :=
    Nat.cast_pos.mpr policy.requestRefillPeriodSeconds_pos
  obtain ⟨kind, digest⟩ := key
  cases kind with
  | connection => exact div_pos (Nat.cast_pos.mpr policy.connectionRefillTokens_pos) hconn
  | requestIp => exact div_pos (Nat.cast_pos.mpr policy.ipRefillTokens_pos) hreq
  | requestAccount => exact div_pos (Nat.cast_pos.mpr policy.accountRefillTokens_pos) hreq

theorem le_retention_mul_div {capacity period tokens retention : ℕ} (hperiod : 0 < period) :
    capacity * period ≤ retention * tokens ↔
      (capacity : ℚ) ≤ retention * ((tokens : ℚ) / period) := by
  have hpos : (0 : ℚ) < period := Nat.cast_pos.mpr hperiod
  rw [← mul_div_assoc, le_div_iff₀ hpos]
  exact_mod_cast Iff.rfl

/-- **The retention covers the filling** of each bucket. -/
theorem coversFilling_iff : policy.coversFilling = true ↔
    ∀ key, (policy.capacity key : ℚ) ≤ policy.stateRetentionSeconds * policy.rate key := by
  unfold coversFilling
  rw [Bool.and_eq_true, Bool.and_eq_true, decide_eq_true_iff, decide_eq_true_iff,
    decide_eq_true_iff, le_retention_mul_div policy.connectionRefillPeriodSeconds_pos,
    le_retention_mul_div policy.requestRefillPeriodSeconds_pos,
    le_retention_mul_div policy.requestRefillPeriodSeconds_pos]
  constructor
  · rintro ⟨⟨hconn, hip⟩, hacct⟩ ⟨kind, digest⟩
    cases kind with
    | connection => exact hconn
    | requestIp => exact hip
    | requestAccount => exact hacct
  · intro h
    exact ⟨⟨h ⟨.connection, ""⟩, h ⟨.requestIp, ""⟩⟩, h ⟨.requestAccount, ""⟩⟩

end RequestRateControlPolicy

/-! ### What a charge does -/

section

variable {κ : Type}

namespace RateLimitCharge

variable (charge : RateLimitCharge κ) (now : ℚ)

/-- The tokens that a charge finds; a bucket that is not there is full. -/
def found : Option Bucket → ℚ
  | none => charge.capacity
  | some bucket =>
    min charge.capacity (bucket.level + max 0 (now - bucket.usedAt) * charge.refillRate)

/-- The bucket can pay. -/
def passes (bucket : Option Bucket) : Prop := (charge.cost : ℚ) ≤ charge.found now bucket

instance (bucket : Option Bucket) : Decidable (charge.passes now bucket) :=
  inferInstanceAs (Decidable ((charge.cost : ℚ) ≤ _))

def left (bucket : Option Bucket) : Bucket where
  level := if charge.passes now bucket then charge.found now bucket - charge.cost
    else charge.found now bucket
  usedAt := (bucket.map fun bucket => max now bucket.usedAt).getD now

def wait (bucket : Option Bucket) : Option ℤ :=
  if charge.passes now bucket then none else some (charge.retryAfter (charge.found now bucket))

variable {charge now} {bucket : Option Bucket}

theorem left_usedAt (h : Sound now bucket) : (charge.left now bucket).usedAt = now := by
  cases bucket with
  | none => rfl
  | some bucket => exact max_eq_left h.1

theorem found_eq_available (h : Sound now bucket) :
    charge.found now bucket = available charge.capacity charge.refillRate now bucket := by
  cases bucket with
  | none => rfl
  | some bucket =>
    show min _ (bucket.level + max 0 (now - bucket.usedAt) * _) = _
    rw [max_eq_right (sub_nonneg.mpr h.1)]
    rfl

theorem take_eq (h : Sound now bucket) :
    take charge.capacity charge.refillRate charge.cost now bucket =
      (decide (charge.passes now bucket), charge.left now bucket) := by
  have hused : (charge.left now bucket).usedAt = now := left_usedAt h
  have hleft : charge.left now bucket = ⟨if charge.passes now bucket then
      charge.found now bucket - charge.cost else charge.found now bucket, now⟩ :=
    (Bucket.mk.injEq ..).mpr ⟨rfl, hused⟩
  rw [hleft, take, ← found_eq_available h]
  by_cases hpass : charge.passes now bucket
  · rw [if_pos hpass, decide_eq_true hpass]
    exact if_pos hpass
  · rw [if_neg hpass, decide_eq_false hpass]
    exact if_neg hpass

theorem congr_found {other : Option Bucket}
    (hfound : charge.found now bucket = charge.found now other)
    (hused : (charge.left now bucket).usedAt = (charge.left now other).usedAt) :
    charge.wait now bucket = charge.wait now other ∧ charge.left now bucket = charge.left now other := by
  have hpass : charge.passes now bucket ↔ charge.passes now other := by
    unfold passes
    rw [hfound]
  constructor
  · simp only [wait, hpass, hfound]
  · refine (Bucket.mk.injEq ..).mpr ⟨?_, hused⟩
    simp only [hpass, hfound]

end RateLimitCharge

theorem found_some (charge : RateLimitCharge κ) (now tokens usedAt : ℚ) :
    charge.found now (some ⟨tokens, usedAt⟩) = min (if now > usedAt then
      min (charge.capacity : ℚ) (tokens + (now - usedAt) * charge.refillRate) else tokens)
        charge.capacity := by
  show min (charge.capacity : ℚ) (tokens + max 0 (now - usedAt) * charge.refillRate) = _
  by_cases hlater : now > usedAt
  · rw [if_pos hlater, max_eq_right (sub_nonneg.mpr (le_of_lt hlater)),
      min_eq_left (min_le_left _ _)]
  · rw [if_neg hlater, max_eq_left (sub_nonpos.mpr (not_lt.mp hlater)), zero_mul, add_zero, min_comm]

structure ReadsOwn [DecidableEq κ] {σ γ : Type} (look : κ → σ → Option γ)
    (view : Option γ → Option Bucket) (write : Bucket → γ) (now : ℚ) (chargeOne : ChargeOne κ σ) :
    Prop where
  wait : ∀ charge state,
    (chargeOne charge state).1 = charge.wait now (view (look charge.key state))
  look : ∀ charge state key, look key (chargeOne charge state).2 =
    if key = charge.key then some (write (charge.left now (view (look charge.key state))))
    else look key state

end

/-! ### Charges in step -/

section

variable {κ σ τ : Type} {chargeOne : ChargeOne κ σ} {chargeOne' : ChargeOne κ τ} {s : σ} {t : τ}

theorem chargeAll_simulates {Rel : σ → τ → Prop} {charges : List (RateLimitCharge κ)}
    (hstep : ∀ charge ∈ charges, ∀ s t, Rel s t → (chargeOne charge s).1 = (chargeOne' charge t).1 ∧
        Rel (chargeOne charge s).2 (chargeOne' charge t).2) (h : Rel s t) :
    (chargeAll chargeOne charges s).1 = (chargeAll chargeOne' charges t).1 ∧
      Rel (chargeAll chargeOne charges s).2 (chargeAll chargeOne' charges t).2 := by
  induction charges generalizing s t with
  | nil => exact ⟨rfl, h⟩
  | cons charge rest ih =>
    obtain ⟨hsame, hrel⟩ := hstep charge List.mem_cons_self s t h
    obtain ⟨hsame', hrel'⟩ := ih (fun later hlater =>
      hstep later (List.mem_cons_of_mem _ hlater)) hrel
    constructor
    · simp only [chargeAll, hsame, hsame']
    · exact hrel'

theorem decisions_simulates {consume : ConsumeCall → σ → RateLimitDecision × σ}
    {consume' : ConsumeCall → τ → RateLimitDecision × τ} (Rel : ℚ → σ → τ → Prop)
    {calls : List ConsumeCall} {clock : ℚ}
    (hclock : ∀ call ∈ calls, clock ≤ call.now)
    (htimes : calls.Pairwise fun call later => call.now ≤ later.now)
    (hstep : ∀ call ∈ calls, ∀ clock ≤ call.now, ∀ s t, Rel clock s t →
      (consume call s).1 = (consume' call t).1 ∧
        Rel call.now (consume call s).2 (consume' call t).2)
    (h : Rel clock s t) : decisions consume s calls = decisions consume' t calls := by
  induction calls generalizing clock s t with
  | nil => rfl
  | cons call rest ih =>
    rw [List.pairwise_cons] at htimes
    obtain ⟨hsame, hrel⟩ := hstep call List.mem_cons_self clock (hclock call List.mem_cons_self) s t h
    have hrest :=
      ih htimes.1 htimes.2 (fun later hlater => hstep later (List.mem_cons_of_mem _ hlater)) hrel
    simp only [decisions, hsame, hrest]

end

/-! ### What the buckets hold -/

def FullFrom (policy : RequestRateControlPolicy) (now : ℚ) (key : BucketKey)
    (bucket : Option Bucket) : Prop :=
  ∀ later, now ≤ later →
    available (policy.capacity key) (policy.rate key) later bucket = policy.capacity key

variable {policy : RequestRateControlPolicy} {now clock : ℚ} {key : BucketKey}
  {ideal : BucketKey → Option Bucket}

theorem FullFrom.later {bucket : Option Bucket} (h : FullFrom policy clock key bucket)
    (hclock : clock ≤ now) : FullFrom policy now key bucket :=
  fun later hlater => h later (hclock.trans hlater)

theorem fullFrom_none : FullFrom policy now key none := fun _ _ => rfl

/-- **A bucket that was idle for the retention time is full.** -/
theorem fullFrom_of_idle (hcover : policy.coversFilling = true) {bucket : Bucket}
    (hlevel : 0 ≤ bucket.level) (hidle : bucket.usedAt + policy.stateRetentionSeconds ≤ now) :
    FullFrom policy now key (some bucket) :=
  fun _ hlater => available_of_idle RequestRateControlPolicy.rate_pos.le
    (RequestRateControlPolicy.coversFilling_iff.mp hcover key) hlevel (hidle.trans hlater)

def AllSound (now : ℚ) (ideal : BucketKey → Option Bucket) : Prop := ∀ key, Sound now (ideal key)

theorem AllSound.later (h : AllSound clock ideal) (hclock : clock ≤ now) : AllSound now ideal := by
  intro key
  have hkey : Sound clock (ideal key) := h key
  cases hbucket : ideal key with
  | none => trivial
  | some bucket =>
    rw [hbucket] at hkey
    exact ⟨hkey.1.trans hclock, hkey.2⟩

theorem chargeOne_ideal (cost : ℕ) (h : Sound now (ideal key)) :
    IdealRateLimit.chargeOne now (policy.charge key cost) ideal =
      ((policy.charge key cost).wait now (ideal key),
        Function.update ideal key (some ((policy.charge key cost).left now (ideal key)))) := by
  unfold IdealRateLimit.chargeOne
  rw [RequestRateControlPolicy.charge_key, RateLimitCharge.take_eq h,
    ← RateLimitCharge.found_eq_available h, RateLimitCharge.wait]
  by_cases hpass : (policy.charge key cost).passes now (ideal key)
  · simp only [hpass, decide_true]
  · simp only [hpass, decide_false, Bool.false_eq_true]

theorem chargeOne_sound (policy : RequestRateControlPolicy) (key : BucketKey) (cost : ℕ)
    (h : AllSound now ideal) :
    AllSound now (IdealRateLimit.chargeOne now (policy.charge key cost) ideal).2 := by
  intro other
  show Sound now (update ideal _ _ other)
  rw [RequestRateControlPolicy.charge_key]
  by_cases hkey : other = key
  · subst hkey
    rw [update_self]
    exact take_sound (Nat.cast_nonneg _)
      (RequestRateControlPolicy.charge_refillRate ▸ RequestRateControlPolicy.rate_pos.le) (h other)
  · rw [update_of_ne hkey]
    exact h other

/-! ### The provider in memory -/

namespace MemoryRateLimitProvider

section

variable {κ : Type} [DecidableEq κ] {now : ℚ}

def bucketOf (state : BucketState) : Bucket := ⟨state.tokens, state.lastRefillAt⟩

theorem chargeOne_left (charge : RateLimitCharge κ) (buckets : Buckets κ) :
    chargeOne now charge buckets = (charge.wait now ((buckets.lookup charge.key).map bucketOf),
        (buckets.assign charge.key
          ⟨(charge.left now ((buckets.lookup charge.key).map bucketOf)).level,
            (charge.left now ((buckets.lookup charge.key).map bucketOf)).usedAt, now⟩).moveToEnd
          charge.key) := by
  have hfound : min (refill charge now (buckets.lookup charge.key)).tokens charge.capacity =
        charge.found now ((buckets.lookup charge.key).map bucketOf) ∧
      (refill charge now (buckets.lookup charge.key)).lastRefillAt =
        (charge.left now ((buckets.lookup charge.key).map bucketOf)).usedAt := by
    cases buckets.lookup charge.key with
    | none => exact ⟨min_self _, rfl⟩
    | some state =>
      show _ = charge.found now (some ⟨state.tokens, state.lastRefillAt⟩) ∧
        _ = max now state.lastRefillAt
      rw [found_some, refill]
      by_cases hlater : now > state.lastRefillAt
      · rw [if_pos hlater, if_pos hlater]
        exact ⟨rfl, (max_eq_left hlater.le).symm⟩
      · rw [if_neg hlater, if_neg hlater]
        exact ⟨rfl, (max_eq_right (not_lt.mp hlater)).symm⟩
  unfold chargeOne
  simp only [hfound.1, hfound.2]
  by_cases hpass : charge.passes now ((buckets.lookup charge.key).map bucketOf)
  · rw [RateLimitCharge.wait, RateLimitCharge.left, if_pos hpass, if_pos hpass]
    exact if_pos hpass
  · rw [RateLimitCharge.wait, RateLimitCharge.left, if_neg hpass, if_neg hpass]
    exact if_neg hpass

theorem readsOwn (now : ℚ) : ReadsOwn (fun key (buckets : Buckets κ) => buckets.lookup key)
    (Option.map bucketOf) (fun bucket => ⟨bucket.level, bucket.usedAt, now⟩) now
    (chargeOne now) := by
  constructor
  · intro charge buckets
    rw [chargeOne_left]
  · intro charge buckets key
    rw [chargeOne_left, OrderedDict.lookup_moveToEnd, OrderedDict.lookup_assign]

end

/-- The provider's buckets stand for the ideal ones. -/
structure Matches (policy : RequestRateControlPolicy) (known : List BucketKey) (now : ℚ)
    (buckets : Buckets BucketKey) (ideal : BucketKey → Option Bucket) : Prop where
  sound : AllSound now ideal
  held : ∀ key state, buckets.lookup key = some state →
    ideal key = some ⟨state.tokens, state.lastRefillAt⟩ ∧ state.lastSeenAt = state.lastRefillAt
  forgotten : ∀ key, buckets.lookup key = none → FullFrom policy now key (ideal key)
  keys : ∀ key state, buckets.lookup key = some state → key ∈ known

variable {known : List BucketKey} {buckets : Buckets BucketKey}

theorem Matches.popWhile (hcover : policy.coversFilling = true)
    (h : Matches policy known clock buckets ideal) (hclock : clock ≤ now) :
    Matches policy known now (buckets.popWhile fun state =>
      decide (state.lastSeenAt < now - policy.stateRetentionSeconds)) ideal := by
  refine ⟨h.sound.later hclock, ?_, ?_, ?_⟩
  · intro key state hstate
    exact h.held key state (OrderedDict.lookup_popWhile_eq_some hstate)
  · intro key hnone
    cases hbef : buckets.lookup key with
    | none => exact (h.forgotten key hbef).later hclock
    | some state =>
      -- the bucket is dropped now
      have hstale := OrderedDict.lookup_popWhile_eq_none hnone hbef
      rw [decide_eq_true_iff] at hstale
      obtain ⟨hideal, hseen⟩ := h.held key state hbef
      have hsound : Sound clock (ideal key) := h.sound key
      rw [hideal] at hsound
      rw [hideal]
      apply fullFrom_of_idle hcover hsound.2
      show state.lastRefillAt + _ ≤ now
      linarith
  · intro key state hstate
    exact h.keys key state (OrderedDict.lookup_popWhile_eq_some hstate)

theorem Matches.found (h : Matches policy known now buckets ideal) (key : BucketKey) (cost : ℕ) :
    (policy.charge key cost).found now ((buckets.lookup key).map bucketOf) =
        (policy.charge key cost).found now (ideal key) ∧
      ((policy.charge key cost).left now ((buckets.lookup key).map bucketOf)).usedAt = now := by
  have hsound : Sound now (ideal key) := h.sound key
  cases hstate : buckets.lookup key with
  | none =>
    refine ⟨?_, rfl⟩
    rw [RateLimitCharge.found_eq_available hsound, RequestRateControlPolicy.charge_refillRate,
      RequestRateControlPolicy.charge_capacity, h.forgotten key hstate now le_rfl]
    exact congrArg Nat.cast RequestRateControlPolicy.charge_capacity
  | some state =>
    have hideal : ideal key = some (bucketOf state) := (h.held key state hstate).1
    rw [hideal] at hsound ⊢
    exact ⟨rfl, RateLimitCharge.left_usedAt hsound⟩

theorem Matches.write (h : Matches policy known now buckets ideal) (hkey : key ∈ known)
    {bucket : Bucket} (hused : bucket.usedAt = now)
    (hsound : AllSound now (Function.update ideal key (some bucket))) :
    Matches policy known now ((buckets.assign key ⟨bucket.level, bucket.usedAt, now⟩).moveToEnd key)
      (Function.update ideal key (some bucket)) := by
  refine ⟨hsound, ?_, ?_, ?_⟩
  · intro other state hstate
    rw [OrderedDict.lookup_moveToEnd, OrderedDict.lookup_assign] at hstate
    by_cases hother : other = key
    · rw [if_pos hother, Option.some.injEq] at hstate
      subst hother hstate
      exact ⟨update_self _ _ _, hused.symm⟩
    · rw [if_neg hother] at hstate
      rw [update_of_ne hother]
      exact h.held other state hstate
  · intro other hnone
    rw [OrderedDict.lookup_moveToEnd, OrderedDict.lookup_assign] at hnone
    by_cases hother : other = key
    · rw [if_pos hother] at hnone
      cases hnone
    · rw [if_neg hother] at hnone
      rw [update_of_ne hother]
      exact h.forgotten other hnone
  · intro other state hstate
    rw [OrderedDict.lookup_moveToEnd, OrderedDict.lookup_assign] at hstate
    by_cases hother : other = key
    · rw [hother]
      exact hkey
    · rw [if_neg hother] at hstate
      exact h.keys other state hstate

/-- **One charge** in memory is a charge of the ideal bucket. -/
theorem chargeOne_simulates (cost : ℕ) (hkey : key ∈ known)
    (h : Matches policy known now buckets ideal) :
    (chargeOne now (policy.charge key cost) buckets).1 =
        (IdealRateLimit.chargeOne now (policy.charge key cost) ideal).1 ∧
      Matches policy known now (chargeOne now (policy.charge key cost) buckets).2
        (IdealRateLimit.chargeOne now (policy.charge key cost) ideal).2 := by
  have hsound := chargeOne_sound policy key cost h.sound
  obtain ⟨hfound, hused⟩ := h.found key cost
  obtain ⟨hwait, hleft⟩ := RateLimitCharge.congr_found hfound
    (hused.trans (RateLimitCharge.left_usedAt (h.sound key)).symm)
  rw [chargeOne_ideal cost (h.sound key)] at hsound ⊢
  rw [chargeOne_left, RequestRateControlPolicy.charge_key, hwait, hleft]
  exact ⟨rfl, h.write hkey (RateLimitCharge.left_usedAt (h.sound key)) hsound⟩

/-- **One call** in memory is a call on the ideal buckets. -/
theorem consume_simulates {maxEntries : ℕ} {call : ConsumeCall}
    (hcover : policy.coversFilling = true)
    (hknown : call.keys ⊆ known) (hents : known.length ≤ maxEntries) (hclock : clock ≤ call.now)
    (h : Matches policy known clock buckets ideal) :
    (consume maxEntries policy.stateRetentionSeconds call.now (call.charges policy) buckets).1 =
        (IdealRateLimit.consume call.now (call.charges policy) ideal).1 ∧
      Matches policy known call.now
        (consume maxEntries policy.stateRetentionSeconds call.now (call.charges policy) buckets).2
        (IdealRateLimit.consume call.now (call.charges policy) ideal).2 := by
  have hstep : ∀ charge ∈ call.charges policy, ∀ buckets ideal,
      Matches policy known call.now buckets ideal →
      (chargeOne call.now charge buckets).1 = (IdealRateLimit.chargeOne call.now charge ideal).1 ∧
        Matches policy known call.now (chargeOne call.now charge buckets).2
          (IdealRateLimit.chargeOne call.now charge ideal).2 := by
    intro charge hchg buckets ideal hmatch
    obtain ⟨entry, hentry, rfl⟩ := List.mem_map.mp hchg
    exact chargeOne_simulates entry.2 (hknown (List.mem_map_of_mem hentry)) hmatch
  unfold consume IdealRateLimit.consume
  cases hcharges : call.charges policy with
  | nil => exact ⟨rfl, h.sound.later hclock, h.held,
      fun key hnone => (h.forgotten key hnone).later hclock, h.keys⟩
  | cons charge rest =>
    rw [← hcharges, if_neg (by rw [hcharges]; exact Bool.false_ne_true)]
    obtain ⟨hden, hmatch⟩ := chargeAll_simulates hstep (h.popWhile hcover hclock)
    simp only
    rw [OrderedDict.trim_eq_self ((OrderedDict.size_le_of_lookup hmatch.keys).trans hents), hden]
    exact ⟨rfl, hmatch⟩

end MemoryRateLimitProvider

/-! ### The script -/

namespace RedisRateLimitProvider

section

variable {κ : Type} [DecidableEq κ] {now : ℚ} {retentionSeconds : ℕ}

def bucketOf (bucket : RedisBucket) : Bucket := ⟨bucket.tokens, bucket.lastRefillAt⟩

/-- The bucket that a call finds, unless its key has expired. -/
def find (t : ℚ) (key : κ) (keyspace : Keyspace κ) : Option Bucket :=
  (hmget t key keyspace).map bucketOf

theorem chargeOne_left (charge : RateLimitCharge κ) (keyspace : Keyspace κ) :
    chargeOne retentionSeconds now charge keyspace =
      (charge.wait now (find now charge.key keyspace),
        keyspace.insert charge.key ⟨(charge.left now (find now charge.key keyspace)).level,
          (charge.left now (find now charge.key keyspace)).usedAt, now + retentionSeconds⟩) := by
  unfold chargeOne find
  cases hmget now charge.key keyspace with
  | none =>
    simp only [Option.map_none, Option.getD_none, lt_irrefl, if_false, min_self,
      RateLimitCharge.wait, RateLimitCharge.left]
    by_cases hpass : charge.passes now none
    · rw [if_pos hpass, if_pos hpass]
      exact if_pos hpass
    · rw [if_neg hpass, if_neg hpass]
      exact if_neg hpass
  | some bucket =>
    have hused : (if now > bucket.lastRefillAt then now else bucket.lastRefillAt) =
        max now bucket.lastRefillAt := by
      split
      next hlater => exact (max_eq_left hlater.le).symm
      next hearlier => exact (max_eq_right (not_lt.mp hearlier)).symm
    have hfound : charge.found now (some (bucketOf bucket)) = min (if now > bucket.lastRefillAt then
          min (charge.capacity : ℚ) (bucket.tokens + (now - bucket.lastRefillAt) * charge.refillRate)
          else bucket.tokens) charge.capacity := found_some ..
    simp only [Option.map_some, Option.getD_some, hused, apply_ite Prod.fst, apply_ite Prod.snd,
      ← hfound, RateLimitCharge.wait, RateLimitCharge.left]
    by_cases hpass : charge.passes now (some (bucketOf bucket))
    · rw [if_pos hpass, if_pos hpass]
      exact if_pos hpass
    · rw [if_neg hpass, if_neg hpass]
      exact if_neg hpass

/-- What a call reads of a hash. -/
def view (now : ℚ) (bucket : Option RedisBucket) : Option Bucket :=
  (bucket.filter fun bucket => decide (now < bucket.expireAt)).map bucketOf

theorem readsOwn (retentionSeconds : ℕ) (now : ℚ) :
    ReadsOwn (fun key (keyspace : Keyspace κ) => keyspace.lookup key) (view now)
      (fun bucket => ⟨bucket.level, bucket.usedAt, now + retentionSeconds⟩) now
      (chargeOne retentionSeconds now) := by
  constructor
  · intro charge keyspace
    rw [chargeOne_left]
    rfl
  · intro charge keyspace key
    rw [chargeOne_left]
    split
    next heq =>
      rw [heq]
      exact lookup_insert _
    next hne => exact lookup_insert_ne hne

end

/-- The hashes stand for the ideal buckets; one that is there may have expired. -/
structure Matches (policy : RequestRateControlPolicy) (now : ℚ) (keyspace : Keyspace BucketKey)
    (ideal : BucketKey → Option Bucket) : Prop where
  sound : AllSound now ideal
  held : ∀ key bucket, keyspace.lookup key = some bucket →
    ideal key = some ⟨bucket.tokens, bucket.lastRefillAt⟩ ∧
      bucket.expireAt = bucket.lastRefillAt + policy.stateRetentionSeconds
  absent : ∀ key, keyspace.lookup key = none → ideal key = none

variable {keyspace : Keyspace BucketKey}

theorem Matches.later (h : Matches policy clock keyspace ideal) (hclock : clock ≤ now) :
    Matches policy now keyspace ideal :=
  ⟨h.sound.later hclock, h.held, h.absent⟩

theorem Matches.found (hcover : policy.coversFilling = true) (h : Matches policy now keyspace ideal)
    (key : BucketKey) (cost : ℕ) :
    (policy.charge key cost).found now (find now key keyspace) =
        (policy.charge key cost).found now (ideal key) ∧
      ((policy.charge key cost).left now (find now key keyspace)).usedAt = now := by
  have hsound : Sound now (ideal key) := h.sound key
  unfold find hmget
  cases hbucket : keyspace.lookup key with
  | none =>
    rw [h.absent key hbucket]
    exact ⟨rfl, rfl⟩
  | some bucket =>
    obtain ⟨hideal, hexpire⟩ := h.held key bucket hbucket
    rw [hideal] at hsound ⊢
    rw [Option.filter_some]
    split
    · exact ⟨rfl, RateLimitCharge.left_usedAt hsound⟩
    next hexp =>
      -- an expired bucket is full
      rw [decide_eq_true_iff, not_lt, hexpire] at hexp
      refine ⟨?_, rfl⟩
      rw [RateLimitCharge.found_eq_available hsound, RequestRateControlPolicy.charge_refillRate,
        RequestRateControlPolicy.charge_capacity,
        fullFrom_of_idle hcover hsound.2 hexp now le_rfl]
      exact congrArg Nat.cast RequestRateControlPolicy.charge_capacity

theorem Matches.write (h : Matches policy now keyspace ideal) {bucket : Bucket}
    (hused : bucket.usedAt = now)
    (hsound : AllSound now (Function.update ideal key (some bucket))) :
    Matches policy now
      (keyspace.insert key ⟨bucket.level, bucket.usedAt, now + policy.stateRetentionSeconds⟩)
      (Function.update ideal key (some bucket)) := by
  refine ⟨hsound, ?_, ?_⟩
  · intro other found hfound
    by_cases hother : other = key
    · subst hother
      rw [lookup_insert, Option.some.injEq] at hfound
      subst hfound
      exact ⟨update_self _ _ _, by rw [hused]⟩
    · rw [lookup_insert_ne hother] at hfound
      rw [update_of_ne hother]
      exact h.held other found hfound
  · intro other hnone
    by_cases hother : other = key
    · subst hother
      rw [lookup_insert] at hnone
      cases hnone
    · rw [lookup_insert_ne hother] at hnone
      rw [update_of_ne hother]
      exact h.absent other hnone

/-- **One round of the script** is a charge of the ideal bucket. -/
theorem chargeOne_simulates (cost : ℕ) (hcover : policy.coversFilling = true)
    (h : Matches policy now keyspace ideal) :
    (chargeOne policy.stateRetentionSeconds now (policy.charge key cost) keyspace).1 =
        (IdealRateLimit.chargeOne now (policy.charge key cost) ideal).1 ∧
      Matches policy now
        (chargeOne policy.stateRetentionSeconds now (policy.charge key cost) keyspace).2
        (IdealRateLimit.chargeOne now (policy.charge key cost) ideal).2 := by
  have hsound := chargeOne_sound policy key cost h.sound
  obtain ⟨hfound, hused⟩ := h.found hcover key cost
  obtain ⟨hwait, hleft⟩ := RateLimitCharge.congr_found hfound
    (hused.trans (RateLimitCharge.left_usedAt (h.sound key)).symm)
  rw [chargeOne_ideal cost (h.sound key)] at hsound ⊢
  rw [chargeOne_left, RequestRateControlPolicy.charge_key, hwait, hleft]
  exact ⟨rfl, h.write (RateLimitCharge.left_usedAt (h.sound key)) hsound⟩

section

variable {κ : Type} [DecidableEq κ] {all : List (RateLimitCharge κ)} {best : ℕ × ℤ}
  {retentionSeconds : ℕ}

/-- The two variables of the loop name the charge that limits so far. -/
def Limits (all : List (RateLimitCharge κ)) (best : ℕ × ℤ) :
    Option (RateLimitCharge κ × ℤ) → Prop
  | none => best = (0, 0)
  | some (limiting, retry) =>
    ∃ index, best = (index + 1, retry) ∧ all[index]? = some limiting ∧ 1 ≤ retry

variable {charge : RateLimitCharge κ} {retry : ℤ}

theorem one_le_of_chargeOne {keyspace : Keyspace κ}
    (h : (chargeOne retentionSeconds now charge keyspace).1 = some retry) : 1 ≤ retry := by
  unfold chargeOne at h
  simp only [apply_ite Prod.fst] at h
  split_ifs at h <;> cases h <;> exact le_max_left _ _

variable {acc : Option (RateLimitCharge κ × ℤ)}

omit [DecidableEq κ] in
theorem Limits.step {index : ℕ} (h : Limits all best acc) (hretry : 1 ≤ retry)
    (hchg : all[index]? = some charge) :
    Limits all (if retry > best.2 then (index + 1, retry) else best)
      (List.argAux (fun b c => c.2 < b.2) acc (charge, retry)) := by
  cases acc with
  | none =>
    have hbest : best = (0, 0) := h
    rw [hbest, if_pos (show retry > 0 by omega)]
    exact ⟨index, rfl, hchg, hretry⟩
  | some limiting =>
    obtain ⟨pos, hbest, hposition, hlimiting⟩ := h
    rw [hbest]
    show Limits all (if retry > limiting.2 then _ else _)
      (if limiting.2 < retry then some (charge, retry) else some limiting)
    by_cases hlong : limiting.2 < retry
    · rw [if_pos hlong, if_pos hlong]
      exact ⟨index, rfl, hchg, hretry⟩
    · rw [if_neg hlong, if_neg hlong]
      exact ⟨pos, rfl, hposition, hlimiting⟩

/-- **The loop of the script** makes all the charges and keeps the one that limits. -/
theorem script_limits (retentionSeconds : ℕ) (now : ℚ) (keyspace : Keyspace κ)
    {made rest : List (RateLimitCharge κ)} {best : ℕ × ℤ}
    (hall : all = made ++ rest) (h : Limits all best acc) :
    Limits all (script retentionSeconds now (made.length + 1) rest best keyspace).1
        ((chargeAll (chargeOne retentionSeconds now) rest keyspace).1.foldl
          (List.argAux fun b c => c.2 < b.2) acc) ∧
      (script retentionSeconds now (made.length + 1) rest best keyspace).2 =
        (chargeAll (chargeOne retentionSeconds now) rest keyspace).2 := by
  induction rest generalizing made best keyspace acc with
  | nil => exact ⟨h, rfl⟩
  | cons charge rest ih =>
    have hall' : all = (made ++ [charge]) ++ rest := by
      rw [hall, List.append_assoc]
      rfl
    have hchg : all[made.length]? = some charge := by
      rw [hall, List.getElem?_append_right le_rfl, Nat.sub_self]
      rfl
    have hlen : (made ++ [charge]).length = made.length + 1 := List.length_append
    simp only [script, chargeAll]
    cases hres : (chargeOne retentionSeconds now charge keyspace).1 with
    | none =>
      have hrest := ih (chargeOne retentionSeconds now charge keyspace).2 hall' h
      rw [hlen] at hrest
      exact hrest
    | some retry =>
      have hrest := ih (chargeOne retentionSeconds now charge keyspace).2 hall'
        (h.step (one_le_of_chargeOne hres) hchg)
      rw [hlen] at hrest
      exact hrest

theorem consume_eq (charges : List (RateLimitCharge κ)) (keyspace : Keyspace κ) :
    consume retentionSeconds now charges keyspace =
      (decisionOf (chargeAll (chargeOne retentionSeconds now) charges keyspace).1,
        (chargeAll (chargeOne retentionSeconds now) charges keyspace).2) := by
  unfold consume
  cases hcharges : charges with
  | nil => rfl
  | cons charge rest =>
    rw [← hcharges, if_neg (by rw [hcharges]; exact Bool.false_ne_true)]
    have hstart : Limits charges (0, 0) none := rfl
    obtain ⟨hlimits, hstate⟩ :=
      script_limits retentionSeconds now keyspace (List.nil_append charges).symm hstart
    simp only [List.length_nil] at hlimits hstate
    change Limits charges _ (largest Prod.snd _) at hlimits
    simp only [hstate, decisionOf]
    cases hargmax : largest Prod.snd (chargeAll (chargeOne retentionSeconds now) charges keyspace).1 with
    | none =>
      rw [hargmax] at hlimits
      have hbest : (script retentionSeconds now 1 charges (0, 0) keyspace).1 = (0, 0) := hlimits
      rw [hbest]
      rfl
    | some limiting =>
      rw [hargmax] at hlimits
      obtain ⟨index, hbest, hindex, hretry⟩ := hlimits
      simp only [hbest, Nat.add_sub_cancel, hindex, Nat.succ_ne_zero, if_false, max_eq_right hretry]

end

/-- **One call** of the script is a call on the ideal buckets. -/
theorem consume_simulates {call : ConsumeCall} (hcover : policy.coversFilling = true)
    (hclock : clock ≤ call.now) (h : Matches policy clock keyspace ideal) :
    (consume policy.stateRetentionSeconds call.now (call.charges policy) keyspace).1 =
        (IdealRateLimit.consume call.now (call.charges policy) ideal).1 ∧
      Matches policy call.now
        (consume policy.stateRetentionSeconds call.now (call.charges policy) keyspace).2
        (IdealRateLimit.consume call.now (call.charges policy) ideal).2 := by
  have hstep : ∀ charge ∈ call.charges policy, ∀ keyspace ideal,
      Matches policy call.now keyspace ideal →
      (chargeOne policy.stateRetentionSeconds call.now charge keyspace).1 =
          (IdealRateLimit.chargeOne call.now charge ideal).1 ∧
        Matches policy call.now (chargeOne policy.stateRetentionSeconds call.now charge keyspace).2
          (IdealRateLimit.chargeOne call.now charge ideal).2 := by
    intro charge hchg keyspace ideal hmatch
    obtain ⟨entry, -, rfl⟩ := List.mem_map.mp hchg
    exact chargeOne_simulates entry.2 hcover hmatch
  obtain ⟨hden, hmatch⟩ := chargeAll_simulates hstep (h.later hclock)
  rw [consume_eq, hden]
  exact ⟨rfl, hmatch⟩

end RedisRateLimitProvider

end Cfms.Security
