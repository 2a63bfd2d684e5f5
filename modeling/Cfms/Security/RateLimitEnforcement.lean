import Cfms.Security.RateLimitBuckets
import Mathlib.Algebra.Order.BigOperators.Group.List

/-!
# What the rate limits enforce

Over any run of calls the decisions of both providers are those of the ideal buckets, if the
retention covers the filling, and the admitted cost is bounded.  If it does not, a burst that empties
a bucket, the retention time and a second burst admit more than the bucket allows.
-/

namespace Cfms.Security

open Lib Lib.TokenBucket List

variable {policy : RequestRateControlPolicy} {calls : List ConsumeCall} {maxEntries : ℕ}
  {key : BucketKey} {ideal : BucketKey → Option Bucket} {now clock first last : ℚ}

/-! ### Runs of calls -/

theorem ValidCalls.exists_clock (h : ValidCalls maxEntries calls) :
    ∃ clock, ∀ call ∈ calls, clock ≤ call.now := by
  cases calls with
  | nil => exact ⟨0, fun call hmem => absurd hmem not_mem_nil⟩
  | cons call rest =>
    refine ⟨call.now, ?_⟩
    intro later hlater
    cases hlater with
    | head => exact le_rfl
    | tail _ hrest => exact (pairwise_cons.mp h.times).1 later hrest

/-- **A run in memory** decides as the ideal buckets do. -/
theorem memoryDecisions_eq (hcover : policy.coversFilling = true)
    (h : ValidCalls maxEntries calls) :
    policy.memoryDecisions maxEntries calls = policy.idealDecisions calls := by
  obtain ⟨clock, hclock⟩ := h.exists_clock
  apply decisions_simulates (MemoryRateLimitProvider.Matches policy
    (calls.flatMap ConsumeCall.keys).dedup) hclock h.times
  · intro call hcall clock hnow buckets ideal hmatch
    apply MemoryRateLimitProvider.consume_simulates hcover _ h.entries hnow hmatch
    intro key hkey
    rw [mem_dedup]
    exact mem_flatMap_of_mem hcall hkey
  · exact ⟨fun _ => trivial, fun key state hstate => absurd hstate Table.lookup_empty_ne_some,
      fun key _ => fullFrom_none, fun key state hstate => absurd hstate Table.lookup_empty_ne_some⟩

/-- **A run of the script** decides as the ideal buckets do. -/
theorem redisDecisions_eq (hcover : policy.coversFilling = true) (h : ValidCalls maxEntries calls) :
    policy.redisDecisions calls = policy.idealDecisions calls := by
  obtain ⟨clock, hclock⟩ := h.exists_clock
  apply decisions_simulates (RedisRateLimitProvider.Matches policy) hclock h.times
  · intro call _ clock hnow keyspace ideal hmatch
    exact RedisRateLimitProvider.consume_simulates hcover hnow hmatch
  · exact ⟨fun _ => trivial, fun key bucket hbucket => absurd hbucket Table.lookup_empty_ne_some,
      fun key _ => rfl⟩

/-! ### The admitted cost -/

def requestsOf (key : BucketKey) (now : ℚ) (entries : List (BucketKey × ℕ)) : List (ℚ × ℚ) :=
  (entries.filter fun entry => entry.1 = key).map fun entry => (now, (entry.2 : ℚ))

theorem decisionOf_allowed {κ : Type} [DecidableEq κ] {denied : List (RateLimitCharge κ × ℤ)} :
    (decisionOf denied).allowed = true ↔ denied = [] := by
  rw [← largest_eq_none (f := Prod.snd)]
  unfold decisionOf
  cases largest Prod.snd denied with
  | none => exact ⟨fun _ => rfl, fun _ => rfl⟩
  | some limiting =>
    exact ⟨fun h => absurd h Bool.false_ne_true, fun h => absurd h (Option.some_ne_none _)⟩

theorem costs_nonneg (key : BucketKey) (entries : List (BucketKey × ℕ)) :
    0 ≤ ((entries.filter fun entry => entry.1 = key).map fun entry => (entry.2 : ℚ)).sum := by
  apply sum_nonneg
  intro cost hcost
  obtain ⟨entry, -, rfl⟩ := mem_map.mp hcost
  exact Nat.cast_nonneg _

theorem chargeOne_self (cost : ℕ) :
    (IdealRateLimit.chargeOne now (policy.charge key cost) ideal).2 key =
      some (take (policy.capacity key) (policy.rate key) cost now (ideal key)).2 := by
  unfold IdealRateLimit.chargeOne
  simp only [RequestRateControlPolicy.charge_key, RequestRateControlPolicy.charge_capacity,
    RequestRateControlPolicy.charge_cost, RequestRateControlPolicy.charge_refillRate,
    Function.update_self]

theorem chargeOne_of_ne {other : BucketKey} (cost : ℕ) (hkey : key ≠ other) :
    (IdealRateLimit.chargeOne now (policy.charge other cost) ideal).2 key = ideal key := by
  unfold IdealRateLimit.chargeOne
  simp only [RequestRateControlPolicy.charge_key]
  exact Function.update_of_ne hkey _ _

theorem chargeOne_eq_none {cost : ℕ}
    (h : (IdealRateLimit.chargeOne now (policy.charge key cost) ideal).1 = none) :
    (take (policy.capacity key) (policy.rate key) cost now (ideal key)).1 = true := by
  unfold IdealRateLimit.chargeOne at h
  simp only [RequestRateControlPolicy.charge_key, RequestRateControlPolicy.charge_capacity,
    RequestRateControlPolicy.charge_cost, RequestRateControlPolicy.charge_refillRate] at h
  by_contra hden
  rw [if_neg hden] at h
  cases h

theorem charges_le_grantedCost (policy : RequestRateControlPolicy) (key : BucketKey)
    (first last now : ℚ) (entries : List (BucketKey × ℕ)) (later : List (ℚ × ℚ))
    (ideal : BucketKey → Option Bucket) :
    (if (chargeAll (IdealRateLimit.chargeOne now)
        (entries.map fun entry => policy.charge entry.1 entry.2) ideal).1 = [] ∧
          first ≤ now ∧ now ≤ last then
        ((entries.filter fun entry => entry.1 = key).map fun entry => (entry.2 : ℚ)).sum else 0) +
        grantedCost (policy.capacity key) (policy.rate key) first last
          ((chargeAll (IdealRateLimit.chargeOne now)
            (entries.map fun entry => policy.charge entry.1 entry.2) ideal).2 key) later ≤
      grantedCost (policy.capacity key) (policy.rate key) first last (ideal key)
        (requestsOf key now entries ++ later) := by
  induction entries generalizing ideal with
  | nil =>
    simp only [map_nil, filter_nil, sum_nil, ite_self, zero_add]
    exact le_rfl
  | cons entry rest ih =>
    obtain ⟨other, cost⟩ := entry
    have hih := ih (IdealRateLimit.chargeOne now (policy.charge other cost) ideal).2
    have hrest := costs_nonneg key rest
    simp only [map_cons, chargeAll]
    by_cases hkey : other = key
    · subst hkey
      rw [chargeOne_self] at hih
      have hreqs : requestsOf other now ((other, cost) :: rest) =
          (now, (cost : ℚ)) :: requestsOf other now rest := by
        simp only [requestsOf, filter_cons_of_pos, decide_true, map_cons]
      have hfilt : ((other, cost) :: rest).filter (fun entry => entry.1 = other) =
          (other, cost) :: rest.filter fun entry => entry.1 = other :=
        filter_cons_of_pos (decide_eq_true rfl)
      rw [hreqs, cons_append, grantedCost, hfilt, map_cons, sum_cons]
      cases hres : (IdealRateLimit.chargeOne now (policy.charge other cost) ideal).1 with
      | none =>
        simp only [chargeOne_eq_none hres]
        split_ifs at hih ⊢ <;> first | linarith | (exfalso; tauto)
      | some retry =>
        rw [if_neg fun h => absurd h.1 (cons_ne_nil _ _)]
        split_ifs at hih ⊢ <;> linarith
    · have hreqs : requestsOf key now ((other, cost) :: rest) = requestsOf key now rest := by
        simp only [requestsOf, filter_cons_of_neg, hkey, decide_false, Bool.false_eq_true,
          not_false_eq_true]
      rw [chargeOne_of_ne cost (Ne.symm hkey)] at hih
      rw [hreqs, filter_cons_of_neg (by simpa using hkey)]
      cases hres : (IdealRateLimit.chargeOne now (policy.charge other cost) ideal).1 with
      | none => exact hih
      | some retry =>
        rw [if_neg fun h => absurd h.1 (cons_ne_nil _ _)]
        split_ifs at hih <;> linarith

theorem admittedCost_le_grantedCost (key : BucketKey) (first last : ℚ) (calls : List ConsumeCall)
    (ideal : BucketKey → Option Bucket) :
    admittedCost key first last calls (decisions
        (fun call => IdealRateLimit.consume call.now (call.charges policy)) ideal calls) ≤
      grantedCost (policy.capacity key) (policy.rate key) first last (ideal key)
        (calls.flatMap fun call => requestsOf key call.now call.costs) := by
  induction calls generalizing ideal with
  | nil => exact le_rfl
  | cons call rest ih =>
    have hih := ih (IdealRateLimit.consume call.now (call.charges policy) ideal).2
    have hcall := charges_le_grantedCost policy key first last call.now call.costs
      (rest.flatMap fun call => requestsOf key call.now call.costs) ideal
    change (if (chargeAll (IdealRateLimit.chargeOne call.now) (call.charges policy) ideal).1 = [] ∧ _
      then call.costOf key else 0) + _ ≤ _ at hcall
    have hallow : ((decisionOf (chargeAll (IdealRateLimit.chargeOne call.now)
        (call.charges policy) ideal).1).allowed && decide (first ≤ call.now) &&
          decide (call.now ≤ last)) = true ↔
        (chargeAll (IdealRateLimit.chargeOne call.now) (call.charges policy) ideal).1 = [] ∧
          first ≤ call.now ∧ call.now ≤ last := by
      rw [Bool.and_eq_true, Bool.and_eq_true, decide_eq_true_iff, decide_eq_true_iff,
        decisionOf_allowed, and_assoc]
    have hsplit : admittedCost key first last (call :: rest) (decisions
        (fun call => IdealRateLimit.consume call.now (call.charges policy)) ideal (call :: rest)) =
        (if (chargeAll (IdealRateLimit.chargeOne call.now) (call.charges policy) ideal).1 = [] ∧
          first ≤ call.now ∧ call.now ≤ last then call.costOf key else 0) +
        admittedCost key first last rest (decisions
          (fun call => IdealRateLimit.consume call.now (call.charges policy))
          (IdealRateLimit.consume call.now (call.charges policy) ideal).2 rest) := by
      simp only [admittedCost, decisions, zip_cons_cons, filter_cons]
      simp only [IdealRateLimit.consume, hallow]
      split_ifs
      · rw [map_cons, sum_cons]
      · rw [zero_add]
    rw [hsplit]
    exact (add_le_add_right hih _).trans hcall

theorem nondecreasing_of_le {clock : ℚ} {requests : List (ℚ × ℚ)} (hclock : clock ≤ now)
    (h : Nondecreasing now requests) : Nondecreasing clock requests := by
  cases requests with
  | nil => trivial
  | cons request rest => exact ⟨hclock.trans h.1, h.2⟩

theorem nondecreasing_requestsOf {entries : List (BucketKey × ℕ)} {later : List (ℚ × ℚ)}
    (h : Nondecreasing now later) : Nondecreasing now (requestsOf key now entries ++ later) := by
  unfold requestsOf
  induction entries.filter fun entry => entry.1 = key with
  | nil => exact h
  | cons entry rest ih => exact ⟨le_rfl, ih⟩

theorem nondecreasing_calls (hclock : ∀ call ∈ calls, clock ≤ call.now)
    (htimes : calls.Pairwise fun call later => call.now ≤ later.now) :
    Nondecreasing clock (calls.flatMap fun call => requestsOf key call.now call.costs) := by
  induction calls generalizing clock with
  | nil => trivial
  | cons call rest ih =>
    rw [pairwise_cons] at htimes
    exact nondecreasing_of_le (hclock call mem_cons_self)
      (nondecreasing_requestsOf (ih htimes.1 htimes.2))

/-- **The admitted cost is bounded** by the capacity and what flows in. -/
theorem admittedCost_idealDecisions_le (h : ValidCalls maxEntries calls) (hint : first ≤ last) :
    admittedCost key first last calls (policy.idealDecisions calls) ≤
      policy.capacity key + (last - first) * policy.rate key := by
  obtain ⟨clock, hclock⟩ := h.exists_clock
  have hsound : Sound clock none := trivial
  apply (admittedCost_le_grantedCost key first last calls fun _ => none).trans
  apply grantedCost_le (Nat.cast_nonneg _) RequestRateControlPolicy.rate_pos.le _
    (nondecreasing_calls hclock h.times) hsound hint
  intro request hreq
  obtain ⟨call, -, hcall⟩ := mem_flatMap.mp hreq
  obtain ⟨entry, -, rfl⟩ := mem_map.mp hcall
  exact Nat.cast_nonneg _

/-! ### A retention that is too short -/

/-- The smallest request on a key. -/
def singleCall (key : BucketKey) (now : ℚ) : ConsumeCall := ⟨now, [(key, 1)]⟩

/-- As many requests as an empty bucket can grant once it is full. -/
def burst (policy : RequestRateControlPolicy) (key : BucketKey) (now : ℚ) : List ConsumeCall :=
  List.replicate (policy.capacity key) (singleCall key now)

/-- Both bursts, with the retention time between them. -/
def twoBursts (policy : RequestRateControlPolicy) (key : BucketKey) (later : ℚ) : List ConsumeCall :=
  burst policy key 0 ++ burst policy key later

def consumeOne (policy : RequestRateControlPolicy) (call : ConsumeCall) :
    MemoryRateLimitProvider.Buckets BucketKey →
      RateLimitDecision × MemoryRateLimitProvider.Buckets BucketKey :=
  MemoryRateLimitProvider.consume 1 policy.stateRetentionSeconds call.now (call.charges policy)

section

open MemoryRateLimitProvider

variable {buckets : Buckets BucketKey} {tokens : ℚ}

theorem consumeOne_eq {kept : Buckets BucketKey} (hkept : (buckets.popWhile fun state =>
      decide (state.lastSeenAt < now - policy.stateRetentionSeconds)) = kept) :
    consumeOne policy (singleCall key now) buckets =
      let result := chargeAll (chargeOne now) [policy.charge key 1] kept
      (decisionOf result.1, result.2.trim 1) := by
  subst hkept
  rfl

theorem consumeOne_fresh (hdrop : (buckets.popWhile fun state =>
      decide (state.lastSeenAt < now - policy.stateRetentionSeconds)) = ∅) :
    consumeOne policy (singleCall key now) buckets =
      ({ allowed := true }, OrderedDict.single key ⟨policy.capacity key - 1, now, now⟩) := by
  have hcost : (1 : ℚ) ≤ policy.capacity key := Nat.one_le_cast.mpr RequestRateControlPolicy.capacity_pos
  have hlook : (∅ : Buckets BucketKey).lookup (policy.charge key 1).key = none :=
    AList.lookup_empty _
  rw [consumeOne_eq hdrop]
  simp only [chargeAll, chargeOne, hlook, refill, RequestRateControlPolicy.charge_key,
    RequestRateControlPolicy.charge_capacity, RequestRateControlPolicy.charge_cost, min_self,
    Nat.cast_one, hcost, OrderedDict.assign_empty, OrderedDict.moveToEnd_singleton]
  rfl

theorem consumeOne_again (htokens : 1 ≤ tokens) (hcap : tokens ≤ policy.capacity key) :
    consumeOne policy (singleCall key now) (OrderedDict.single key ⟨tokens, now, now⟩) =
      ({ allowed := true }, OrderedDict.single key ⟨tokens - 1, now, now⟩) := by
  have hkept : ((OrderedDict.single key (⟨tokens, now, now⟩ : BucketState)).popWhile fun state =>
      decide (state.lastSeenAt < now - policy.stateRetentionSeconds)) =
        OrderedDict.single key ⟨tokens, now, now⟩ := by
    apply OrderedDict.popWhile_singleton_of_not
    rw [decide_eq_true_iff]
    linarith
  have hlook : (OrderedDict.single key (⟨tokens, now, now⟩ : BucketState)).lookup
      (policy.charge key 1).key = some ⟨tokens, now, now⟩ := by
    rw [RequestRateControlPolicy.charge_key]
    exact OrderedDict.lookup_singleton
  rw [consumeOne_eq hkept]
  simp only [chargeAll, chargeOne, hlook, refill, lt_irrefl, if_false,
    RequestRateControlPolicy.charge_key, RequestRateControlPolicy.charge_capacity,
    RequestRateControlPolicy.charge_cost, min_eq_left hcap, Nat.cast_one, htokens,
    OrderedDict.assign_singleton, OrderedDict.moveToEnd_singleton]
  rfl

theorem decisions_replicate {rest : List ConsumeCall} (n : ℕ)
    (hcap : tokens ≤ policy.capacity key) (htokens : (n : ℚ) ≤ tokens) :
    decisions (consumeOne policy) (OrderedDict.single key ⟨tokens, now, now⟩)
        (List.replicate n (singleCall key now) ++ rest) =
      List.replicate n { allowed := true } ++
        decisions (consumeOne policy) (OrderedDict.single key ⟨tokens - n, now, now⟩) rest := by
  induction n generalizing tokens with
  | zero =>
    rw [Nat.cast_zero, sub_zero]
    rfl
  | succ n ih =>
    have hleft : tokens - ((n + 1 : ℕ) : ℚ) = tokens - 1 - n := by
      rw [Nat.cast_succ]
      ring
    rw [replicate_succ, cons_append, decisions, consumeOne_again (by linarith) hcap]
    show _ :: decisions _ _ (replicate n _ ++ rest) = _
    rw [ih (by linarith) (by linarith), hleft]
    rfl

/-- **A burst on a forgotten bucket** is admitted and leaves it empty. -/
theorem decisions_burst (key : BucketKey) (rest : List ConsumeCall)
    (hdrop : (buckets.popWhile fun state =>
      decide (state.lastSeenAt < now - policy.stateRetentionSeconds)) = ∅) :
    decisions (consumeOne policy) buckets (burst policy key now ++ rest) =
      List.replicate (policy.capacity key) { allowed := true } ++
        decisions (consumeOne policy) (OrderedDict.single key ⟨0, now, now⟩) rest := by
  obtain ⟨n, hn⟩ : ∃ n, policy.capacity key = n + 1 :=
    Nat.exists_eq_succ_of_ne_zero RequestRateControlPolicy.capacity_pos.ne'
  have hcast : (policy.capacity key : ℚ) - 1 = n := by
    rw [hn, Nat.cast_succ]
    ring
  have hle : (policy.capacity key : ℚ) - 1 ≤ policy.capacity key := by linarith
  unfold burst
  rw [hn, replicate_succ, cons_append, decisions, consumeOne_fresh hdrop]
  show _ :: decisions _ _ (replicate n _ ++ rest) = _
  rw [decisions_replicate n hle hcast.ge, hcast, sub_self]
  rfl

end

variable {later : ℚ}

theorem memoryDecisions_twoBursts (hlater : (policy.stateRetentionSeconds : ℚ) < later) :
    policy.memoryDecisions 1 (twoBursts policy key later) =
      List.replicate (policy.capacity key) { allowed := true } ++
        replicate (policy.capacity key) { allowed := true } := by
  show decisions (consumeOne policy) ∅ (burst policy key 0 ++ burst policy key later) = _
  have hdrop : ((OrderedDict.single key (⟨0, 0, 0⟩ : MemoryRateLimitProvider.BucketState)).popWhile
      fun state => decide (state.lastSeenAt < later - policy.stateRetentionSeconds)) = ∅ := by
    apply OrderedDict.popWhile_singleton
    rw [decide_eq_true_iff]
    linarith
  have hsnd := decisions_burst key [] hdrop
  rw [append_nil] at hsnd
  rw [decisions_burst key _ rfl, hsnd]
  exact congrArg _ (append_nil _)

variable {call : ConsumeCall}

theorem mem_twoBursts (h : call ∈ twoBursts policy key later) :
    call = singleCall key 0 ∨ call = singleCall key later := by
  cases mem_append.mp h with
  | inl hfirst => exact Or.inl (eq_of_mem_replicate hfirst)
  | inr hsnd => exact Or.inr (eq_of_mem_replicate hsnd)

theorem costs_twoBursts (h : call ∈ twoBursts policy key later) : call.costs = [(key, 1)] := by
  cases mem_twoBursts h with
  | inl hfirst => rw [hfirst, singleCall]
  | inr hsnd => rw [hsnd, singleCall]

theorem validCalls_twoBursts (policy : RequestRateControlPolicy) (key : BucketKey)
    (hlater : 0 ≤ later) : ValidCalls 1 (twoBursts policy key later) := by
  constructor
  · apply pairwise_append.mpr
    refine ⟨pairwise_replicate.mpr (Or.inr le_rfl), pairwise_replicate.mpr (Or.inr le_rfl), ?_⟩
    intro call hcall after hafter
    rw [eq_of_mem_replicate hcall, eq_of_mem_replicate hafter]
    exact hlater
  · intro call hcall
    rw [ConsumeCall.keys, costs_twoBursts hcall]
    exact nodup_singleton key
  · intro call hcall entry hentry
    rw [costs_twoBursts hcall, mem_singleton] at hentry
    rw [hentry]
    exact Nat.one_pos
  · have hsub : ((twoBursts policy key later).flatMap ConsumeCall.keys).dedup ⊆ [key] := by
      intro other hother
      obtain ⟨call, hcall, hkey⟩ := mem_flatMap.mp (mem_dedup.mp hother)
      rw [ConsumeCall.keys, costs_twoBursts hcall] at hkey
      exact hkey
    exact (subperm_of_subset (nodup_dedup _) hsub).length_le

theorem admittedCost_replicate (h : ∀ call ∈ calls,
      first ≤ call.now ∧ call.now ≤ last ∧ call.costs = [(key, 1)]) :
    admittedCost key first last calls (List.replicate calls.length { allowed := true }) =
      calls.length := by
  induction calls with
  | nil => rfl
  | cons call rest ih =>
    obtain ⟨hfirst, hlast, hcosts⟩ := h call mem_cons_self
    have hcost : call.costOf key = 1 := by
      simp [ConsumeCall.costOf, hcosts]
    have hrest := ih fun later hlater => h later (mem_cons_of_mem _ hlater)
    unfold admittedCost at hrest ⊢
    rw [length_cons, replicate_succ, zip_cons_cons,
      filter_cons_of_pos (by simp [hfirst, hlast]), map_cons, sum_cons, hrest, hcost,
      Nat.cast_succ, add_comm]

/-- **Two bursts exceed the bound** if a bucket is forgotten before it is full. -/
theorem exceeds_of_not_covered
    (h : (policy.stateRetentionSeconds : ℚ) * policy.rate key < policy.capacity key) :
    ¬EnforcesBuckets policy 1 := by
  intro henforces
  have hrate : 0 < policy.rate key := RequestRateControlPolicy.rate_pos
  have hretention : (0 : ℚ) ≤ policy.stateRetentionSeconds := Nat.cast_nonneg _
  -- an instant between the end of the retention and the one at which the bucket is full
  obtain ⟨later, hforgotten, hfull⟩ : ∃ later : ℚ, policy.stateRetentionSeconds < later ∧
      later < policy.capacity key / policy.rate key :=
    exists_between ((lt_div_iff₀ hrate).mpr h)
  have hlater : 0 ≤ later := hretention.trans hforgotten.le
  have hbound := henforces.bound _ (validCalls_twoBursts policy key hlater) key 0 later hlater
  have hlen : (twoBursts policy key later).length = policy.capacity key + policy.capacity key := by
    rw [twoBursts, burst, burst, length_append, length_replicate, length_replicate]
  rw [memoryDecisions_twoBursts hforgotten, replicate_append_replicate, ← hlen,
    admittedCost_replicate, hlen, Nat.cast_add, sub_zero] at hbound
  · have hinflow : later * policy.rate key < policy.capacity key := (lt_div_iff₀ hrate).mp hfull
    change (policy.capacity key : ℚ) + policy.capacity key ≤
      policy.capacity key + later * policy.rate key at hbound
    linarith
  · intro call hcall
    refine ⟨?_, ?_, costs_twoBursts hcall⟩
    · cases mem_twoBursts hcall with
      | inl hfirst => rw [hfirst, singleCall]
      | inr hsnd => rw [hsnd]; exact hlater
    · cases mem_twoBursts hcall with
      | inl hfirst => rw [hfirst]; exact hlater
      | inr hsnd => rw [hsnd, singleCall]

/-! ### The providers and the ideal buckets -/

/-- **The providers enforce the token buckets** of a policy exactly if its retention covers the
time in which each kind of bucket fills up. -/
theorem enforcesBuckets_iff_coversFilling (policy : RequestRateControlPolicy) :
    (∀ maxEntries, EnforcesBuckets policy maxEntries) ↔ policy.coversFilling = true := by
  constructor
  · intro henforces
    rw [RequestRateControlPolicy.coversFilling_iff]
    intro key
    by_contra hshort
    exact exceeds_of_not_covered (not_le.mp hshort) (henforces 1)
  · intro hcover maxEntries
    refine ⟨fun calls h => memoryDecisions_eq hcover h, fun calls h => redisDecisions_eq hcover h, ?_⟩
    intro calls h key first last hint
    rw [memoryDecisions_eq hcover h]
    exact admittedCost_idealDecisions_le h hint

/-- A policy that passes the validation: accounts get one token a minute, may save up two, and are
forgotten after a minute. -/
def slowRefillPolicy : RequestRateControlPolicy where
  connectionCapacity := 20
  connectionRefillTokens := 60
  connectionRefillPeriodSeconds := 60
  requestRefillPeriodSeconds := 60
  accountCapacity := 2
  accountRefillTokens := 1
  ipCapacity := 600
  ipRefillTokens := 600
  stateRetentionSeconds := 60
  connectionCapacity_pos := by decide
  connectionRefillTokens_pos := by decide
  connectionRefillPeriodSeconds_pos := by decide
  requestRefillPeriodSeconds_pos := by decide
  accountCapacity_pos := by decide
  accountRefillTokens_pos := by decide
  ipCapacity_pos := by decide
  ipRefillTokens_pos := by decide
  connectionPeriod_covered := by decide
  requestPeriod_covered := by decide

/-- Two requests empty the bucket of an account; 61 seconds later two more are admitted. -/
theorem forgotten_bucket_admits_too_much :
    ¬∀ maxEntries, EnforcesBuckets slowRefillPolicy maxEntries := by
  intro henforces
  have hcalls : ValidCalls 1 (twoBursts slowRefillPolicy ⟨.requestAccount, "a"⟩ 61) :=
    validCalls_twoBursts _ _ (by norm_num)
  have hsame := (henforces 1).memory _ hcalls
  revert hsame
  decide +kernel

end Cfms.Security
