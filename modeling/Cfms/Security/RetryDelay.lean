import Cfms.Security.RateLimitEnforcement

/-!
# The announced delay

A call charges several buckets.  Those that can pay are debited even if another one cannot, and the
delay of the denial is taken from the ones that cannot.  So the same charges pass after the delay if
and only if the debited buckets have regained their costs by then, too, or have been forgotten.

A provider is known by the buckets that it finds for the charges of a call; both are instances.
-/

namespace Cfms.Security

open Lib Lib.TokenBucket List

variable {κ : Type}

/-! ### Later instants -/

theorem RateLimitCharge.found_mono {charge : RateLimitCharge κ} (hrate : 0 ≤ charge.refillRate)
    {t t' : ℚ} (h : t ≤ t')
    (bucket : Option Bucket) : charge.found t bucket ≤ charge.found t' bucket := by
  cases bucket with
  | none => exact le_rfl
  | some bucket =>
    have hlater : max 0 (t - bucket.usedAt) ≤ max 0 (t' - bucket.usedAt) :=
      max_le_max le_rfl (by linarith)
    exact min_le_min le_rfl (by linarith [mul_le_mul_of_nonneg_right hlater hrate])

/-! ### The charges of a call -/

def waits (charges : List (RateLimitCharge κ)) (now : ℚ) (buckets : κ → Option Bucket) :
    List (RateLimitCharge κ × ℤ) :=
  charges.filterMap fun charge => (charge.wait now (buckets charge.key)).map (charge, ·)

/-- After so many seconds every bucket that was charged can pay again. -/
def regain (charges : List (RateLimitCharge κ)) (now : ℚ) (buckets : κ → Option Bucket)
    (seconds : ℤ) : Prop :=
  ∀ charge ∈ charges,
    charge.passes (now + seconds) (some (charge.left now (buckets charge.key)))

instance (charges : List (RateLimitCharge κ)) (now : ℚ) (buckets : κ → Option Bucket) (seconds : ℤ) :
    Decidable (regain charges now buckets seconds) :=
  inferInstanceAs (Decidable (∀ charge ∈ charges, _))

/-- The charges of a call: a set of keys, and what the validation of their policies checks. -/
structure ValidCharges (charges : List (RateLimitCharge κ)) : Prop where
  keys : (charges.map RateLimitCharge.key).Nodup
  cost : ∀ charge ∈ charges, charge.cost ≤ charge.capacity
  rate : ∀ charge ∈ charges, 0 < charge.refillRate

section

variable {charges : List (RateLimitCharge κ)} {now : ℚ} {buckets : κ → Option Bucket} {r : ℤ}

theorem waits_eq_nil_iff : waits charges now buckets = [] ↔
    ∀ charge ∈ charges, charge.passes now (buckets charge.key) := by
  rw [waits, filterMap_eq_nil_iff]
  refine forall₂_congr fun charge _ => ?_
  rw [RateLimitCharge.wait]
  split <;> simp [*]

theorem longest_wait (hden : (decisionOf (waits charges now buckets)).allowed = false)
    (hr : (decisionOf (waits charges now buckets)).retryAfterSeconds = r) :
    (∃ denied ∈ waits charges now buckets, denied.2 = r) ∧
      ∀ denied ∈ waits charges now buckets, denied.2 ≤ r := by
  cases hlargest : largest Prod.snd (waits charges now buckets) with
  | none => simp [decisionOf, hlargest] at hden
  | some limiting =>
    have hwait : limiting.2 = r := by
      rw [← hr, decisionOf, hlargest]
      rfl
    exact ⟨⟨limiting, largest_mem hlargest, hwait⟩,
      fun denied hmem => hwait ▸ le_of_largest hmem hlargest⟩

end

/-! ### Providers -/

section

variable [DecidableEq κ] {σ : Type} (consume : ℚ → List (RateLimitCharge κ) → σ → RateLimitDecision × σ)

/-- Calls of other charges, each with its instant. -/
def consumeAll : List (ℚ × List (RateLimitCharge κ)) → σ → σ
  | [], state => state
  | call :: rest, state => consumeAll rest (consume call.1 call.2 state).2

def Avoids (between : List (ℚ × List (RateLimitCharge κ))) (charges : List (RateLimitCharge κ)) :
    Prop :=
  ∀ call ∈ between, ∀ other ∈ call.2, other.key ∉ charges.map RateLimitCharge.key

/-- After the delay the same charges are allowed, whatever happens to other keys meanwhile. -/
def DelaySuffices (charges : List (RateLimitCharge κ)) (now : ℚ) (state : σ) : Prop :=
  ∀ between t, Avoids between charges →
    now + (consume now charges state).1.retryAfterSeconds ≤ t →
      (consume t charges (consumeAll consume between (consume now charges state).2)).1.allowed = true

/-- What a provider does with the buckets that a call finds: those that it stores, and after how
many seconds it forgets them. -/
structure Finds (charges stored : List (RateLimitCharge κ)) (now : ℚ) (state : σ)
    (find : ℚ → κ → σ → Option Bucket) (forgets : ℤ → Prop) : Prop where
  decision : ∀ t state, (consume t charges state).1 =
    decisionOf (waits charges t fun key => find t key state)
  sub : stored ⊆ charges
  kept : ∀ between t, Avoids between charges → ∀ charge ∈ charges,
    find t charge.key (consumeAll consume between (consume now charges state).2) = none ∨
      charge ∈ stored ∧
        find t charge.key (consumeAll consume between (consume now charges state).2) =
          some (charge.left now (find now charge.key state))
  forgotten : ∀ between t seconds, Avoids between charges → forgets seconds → now + seconds ≤ t →
    ∀ charge ∈ charges,
      find t charge.key (consumeAll consume between (consume now charges state).2) = none
  held : ∀ seconds, ¬ forgets seconds → ∀ charge ∈ stored,
    find (now + seconds) charge.key (consume now charges state).2 =
      some (charge.left now (find now charge.key state))

omit [DecidableEq κ] in
theorem Avoids.not_mem {between : List (ℚ × List (RateLimitCharge κ))}
    {charges : List (RateLimitCharge κ)} (h : Avoids between charges)
    {call : ℚ × List (RateLimitCharge κ)} (hcall : call ∈ between) {charge : RateLimitCharge κ}
    (hchg : charge ∈ charges) : charge.key ∉ call.2.map RateLimitCharge.key := by
  intro hmem
  obtain ⟨other, hother, heq⟩ := mem_map.mp hmem
  exact h call hcall other hother (heq ▸ mem_map_of_mem hchg)

variable {consume} {charges stored : List (RateLimitCharge κ)} {now : ℚ} {state : σ}
  {find : ℚ → κ → σ → Option Bucket} {forgets : ℤ → Prop}

/-- **The delay suffices** exactly if some charge that is denied waits long enough for all of them. -/
theorem Finds.delaySuffices_iff (h : Finds consume charges stored now state find forgets)
    (hvalid : ValidCharges charges) (hden : (consume now charges state).1.allowed = false) :
    DelaySuffices consume charges now state ↔
      ∃ denied ∈ waits charges now fun key => find now key state,
        forgets denied.2 ∨ regain stored now (fun key => find now key state) denied.2 := by
  have hdec := h.decision now state
  rw [hdec] at hden
  obtain ⟨⟨limiting, hlimiting, hr⟩, hlongest⟩ := longest_wait hden rfl
  rw [← hdec] at hr hlongest
  have hallow : ∀ t state', (consume t charges state').1.allowed = true ↔
      ∀ charge ∈ charges, charge.passes t (find t charge.key state') := by
    intro t state'
    rw [h.decision, decisionOf_allowed, waits_eq_nil_iff]
  constructor
  · intro hdelay
    refine ⟨limiting, hlimiting, ?_⟩
    rw [hr]
    by_cases hforgets : forgets (consume now charges state).1.retryAfterSeconds
    · exact .inl hforgets
    refine .inr fun charge hchg => ?_
    have hagain := hdelay [] _ (fun _ hnil => absurd hnil not_mem_nil) le_rfl
    rw [← h.held _ hforgets charge hchg]
    exact (hallow _ _).mp hagain charge (h.sub hchg)
  · rintro ⟨denied, hmem, hcase⟩ between t havoids ht
    have hle : (denied.2 : ℚ) ≤ _ := Int.cast_le.mpr (hlongest denied hmem)
    refine (hallow _ _).mpr fun charge hchg => ?_
    -- a bucket that is not found is full
    have hfull : charge.passes t none := Nat.cast_le.mpr (hvalid.cost charge hchg)
    rcases hcase with hforgets | hregain
    · rwa [h.forgotten between t _ havoids hforgets (by linarith) charge hchg]
    rcases h.kept between t havoids charge hchg with hnone | ⟨hstor, hsome⟩
    · rwa [hnone]
    rw [hsome]
    exact (hregain charge hstor).trans
      (RateLimitCharge.found_mono (hvalid.rate charge hchg).le (by linarith) _)

end

/-! ### The charges one after another -/

variable [DecidableEq κ]

section

variable {σ γ : Type} {look : κ → σ → Option γ} {view : Option γ → Option Bucket}
  {write : Bucket → γ} {now : ℚ} {chargeOne : ChargeOne κ σ} {charges : List (RateLimitCharge κ)}

theorem ReadsOwn.chargeAll_other (h : ReadsOwn look view write now chargeOne) {key : κ}
    (hkey : key ∉ charges.map RateLimitCharge.key) (state : σ) :
    look key (chargeAll chargeOne charges state).2 = look key state := by
  induction charges generalizing state with
  | nil => rfl
  | cons charge rest ih =>
    rw [map_cons, mem_cons, not_or] at hkey
    exact (ih hkey.2 _).trans ((h.look charge state key).trans (if_neg hkey.1))

theorem ReadsOwn.chargeAll (h : ReadsOwn look view write now chargeOne)
    (hkeys : (charges.map RateLimitCharge.key).Nodup) (state : σ) :
    (chargeAll chargeOne charges state).1 = waits charges now (fun key => view (look key state)) ∧
      ∀ charge ∈ charges, look charge.key (Security.chargeAll chargeOne charges state).2 =
        some (write (charge.left now (view (look charge.key state)))) := by
  induction charges generalizing state with
  | nil => exact ⟨rfl, fun _ hnil => absurd hnil not_mem_nil⟩
  | cons charge rest ih =>
    obtain ⟨hnew, hrest⟩ := nodup_cons.mp hkeys
    obtain ⟨hwaits, hlook⟩ := ih hrest (chargeOne charge state).2
    have hsame : ∀ later ∈ rest,
        look later.key (chargeOne charge state).2 = look later.key state := by
      intro later hlater
      have hne : later.key ≠ charge.key := fun heq => hnew (heq ▸ mem_map_of_mem hlater)
      rw [h.look, if_neg hne]
    constructor
    · have hwaits' : waits rest now (fun key => view (look key (chargeOne charge state).2)) =
          waits rest now fun key => view (look key state) :=
        filterMap_congr fun later hlater => by simp only [hsame later hlater]
      simp only [Security.chargeAll, h.wait, hwaits, hwaits']
      rw [waits, waits, filterMap_cons]
      cases charge.wait now (view (look charge.key state)) <;> rfl
    · intro later hlater
      rcases mem_cons.mp hlater with rfl | hlater
      · exact (h.chargeAll_other hnew _).trans ((h.look later state _).trans (if_pos rfl))
      · exact (hlook later hlater).trans (by rw [hsame later hlater])

end

/-! ### The provider in memory -/

namespace MemoryRateLimitProvider

/-- The bucket that a call finds after the stale ones are dropped. -/
def find (retentionSeconds : ℕ) (t : ℚ) (key : κ) (buckets : Buckets κ) : Option Bucket :=
  ((buckets.popWhile fun state =>
    decide (state.lastSeenAt < t - retentionSeconds)).lookup key).map bucketOf

variable {now t : ℚ} {maxEntries retention : ℕ} {charges : List (RateLimitCharge κ)}
  {buckets : Buckets κ}

theorem keys_chargeOne (charge : RateLimitCharge κ) (buckets : Buckets κ) :
    (chargeOne now charge buckets).2.keys = buckets.keys.erase charge.key ++ [charge.key] := by
  rw [chargeOne_left, OrderedDict.keys_moveToEnd_assign]

theorem keys_chargeAll (hkeys : (charges.map RateLimitCharge.key).Nodup) (buckets : Buckets κ) :
    ∃ front, (chargeAll (chargeOne now) charges buckets).2.keys =
      front ++ charges.map RateLimitCharge.key := by
  suffices hall : ∀ (rest : List (RateLimitCharge κ)) (made front : List κ) (buckets : Buckets κ),
      buckets.keys = front ++ made → (∀ charge ∈ rest, charge.key ∉ made) →
        (rest.map RateLimitCharge.key).Nodup →
        ∃ front', (chargeAll (chargeOne now) rest buckets).2.keys =
          front' ++ (made ++ rest.map RateLimitCharge.key) from
    hall charges [] buckets.keys buckets (append_nil _).symm
      (fun _ _ => not_mem_nil) hkeys
  intro rest
  induction rest with
  | nil =>
    intro made front buckets hmade _ _
    exact ⟨front, by rw [map_nil, append_nil]; exact hmade⟩
  | cons charge rest ih =>
    intro made front buckets hmade havoid hnodup
    obtain ⟨hnew, hrest⟩ := nodup_cons.mp hnodup
    have hkeys' : (chargeOne now charge buckets).2.keys =
        front.erase charge.key ++ (made ++ [charge.key]) := by
      rw [keys_chargeOne, hmade, erase_append]
      have hmade' := havoid charge mem_cons_self
      split
      · rw [append_assoc]
      next hfront =>
        rw [erase_of_not_mem hmade', erase_of_not_mem hfront, append_assoc]
    obtain ⟨front', hfinal⟩ := ih (made ++ [charge.key]) _ _ hkeys' (by
      intro later hlater hmem
      rcases mem_append.mp hmem with hmem | hmem
      · exact havoid later (mem_cons_of_mem _ hlater) hmem
      · exact hnew (mem_singleton.mp hmem ▸ mem_map_of_mem hlater)) hrest
    refine ⟨front', ?_⟩
    rw [append_assoc] at hfinal
    exact hfinal

theorem consume_decision (hkeys : (charges.map RateLimitCharge.key).Nodup) (t : ℚ)
    (buckets : Buckets κ) : (consume maxEntries retention t charges buckets).1 =
      decisionOf (waits charges t fun key => find retention t key buckets) := by
  unfold consume
  cases hcharges : charges with
  | nil => rfl
  | cons charge rest =>
    rw [← hcharges, if_neg (by rw [hcharges]; exact Bool.false_ne_true)]
    exact congrArg decisionOf ((readsOwn t).chargeAll hkeys _).1

theorem consume_snd (t : ℚ) (calls : List (RateLimitCharge κ)) (buckets : Buckets κ) :
    (consume maxEntries retention t calls buckets).2 = buckets ∨
      (consume maxEntries retention t calls buckets).2 =
        ((chargeAll (chargeOne t) calls (buckets.popWhile fun state =>
          decide (state.lastSeenAt < t - retention))).2).trim maxEntries := by
  unfold consume
  split
  · exact .inl rfl
  · exact .inr rfl

variable {key : κ} {state : BucketState} {calls : List (RateLimitCharge κ)}

theorem lookup_consume (hkey : key ∉ calls.map RateLimitCharge.key)
    (h : (consume maxEntries retention t calls buckets).2.lookup key = some state) :
    buckets.lookup key = some state := by
  rcases consume_snd t calls buckets with hsnd | hsnd
  · rwa [hsnd] at h
  rw [hsnd] at h
  have htrim := OrderedDict.lookup_trim_eq_some h
  rw [(readsOwn t).chargeAll_other hkey] at htrim
  exact OrderedDict.lookup_popWhile_eq_some htrim

/-- The entries up to those of the charges were seen at `now` at the latest. -/
def Aged (charges : List (RateLimitCharge κ)) (now : ℚ) (buckets : Buckets κ) : Prop :=
  ∃ front back, buckets.keys = front ++ back ∧
    (∀ key ∈ front, ∀ state, buckets.lookup key = some state → state.lastSeenAt ≤ now) ∧
    ∀ key ∈ back, key ∉ charges.map RateLimitCharge.key

theorem Aged.of_suffix {buckets' : Buckets κ} (h : Aged charges now buckets)
    (hkeys : buckets'.keys <:+ buckets.keys)
    (hlookup : ∀ key state, buckets'.lookup key = some state → buckets.lookup key = some state) :
    Aged charges now buckets' := by
  obtain ⟨front, back, hsplit, hfront, hback⟩ := h
  obtain ⟨dropped, hdropped⟩ := hkeys
  rw [hsplit] at hdropped
  rcases append_eq_append_iff.mp hdropped with ⟨rest, hrest, hleft⟩ | ⟨rest, -, hrest⟩
  · exact ⟨rest, back, hleft, fun key hmem state hstate => hfront key
      (hrest ▸ mem_append_right _ hmem) state (hlookup key state hstate), hback⟩
  · exact ⟨[], _, rfl, fun _ hnil => absurd hnil not_mem_nil,
      fun key hmem => hback key (hrest ▸ mem_append_right _ hmem)⟩

theorem Aged.chargeAll (h : Aged charges now buckets)
    (hkeys : ∀ other ∈ calls, other.key ∉ charges.map RateLimitCharge.key) :
    Aged charges now (Security.chargeAll (chargeOne t) calls buckets).2 := by
  induction calls generalizing buckets with
  | nil => exact h
  | cons other rest ih =>
    refine ih ?_ fun later hlater => hkeys later (mem_cons_of_mem _ hlater)
    obtain ⟨front, back, hsplit, hfront, hback⟩ := h
    have hnodup : (front ++ back).Nodup := hsplit ▸ buckets.keys_nodup
    refine ⟨front.erase other.key, back.erase other.key ++ [other.key], ?_, ?_, ?_⟩
    · rw [keys_chargeOne, hsplit, ← append_assoc, erase_append]
      split
      next hmem =>
        rw [erase_of_not_mem fun hin => (nodup_append.mp hnodup).2.2 _ hmem _ hin rfl]
      next hmem => rw [erase_of_not_mem hmem]
    · intro key hmem state hstate
      obtain ⟨hne, hin⟩ := (nodup_append.mp hnodup).1.mem_erase_iff.mp hmem
      rw [(readsOwn t).look, if_neg hne] at hstate
      exact hfront key hin state hstate
    · intro key hmem
      rcases mem_append.mp hmem with hmem | hmem
      · exact hback key (mem_of_mem_erase hmem)
      · exact mem_singleton.mp hmem ▸ hkeys other mem_cons_self

theorem Aged.consume (h : Aged charges now buckets)
    (hkeys : ∀ other ∈ calls, other.key ∉ charges.map RateLimitCharge.key) :
    Aged charges now (consume maxEntries retention t calls buckets).2 := by
  rcases consume_snd t calls buckets with hsnd | hsnd
  · rwa [hsnd]
  rw [hsnd]
  refine (Aged.chargeAll (h.of_suffix (OrderedDict.keys_popWhile_suffix _) fun _ _ =>
    OrderedDict.lookup_popWhile_eq_some) hkeys).of_suffix ?_ fun _ _ =>
      OrderedDict.lookup_trim_eq_some
  rw [OrderedDict.keys_trim]
  exact drop_suffix _ _

variable {between : List (ℚ × List (RateLimitCharge κ))}

theorem lookup_consumeAll (havoids : ∀ call ∈ between, key ∉ call.2.map RateLimitCharge.key)
    (h : (consumeAll (consume maxEntries retention) between buckets).lookup key = some state) :
    buckets.lookup key = some state := by
  induction between generalizing buckets with
  | nil => exact h
  | cons call rest ih =>
    exact lookup_consume (havoids call mem_cons_self)
      (ih (fun later hlater => havoids later (mem_cons_of_mem _ hlater)) h)

theorem Aged.consumeAll (h : Aged charges now buckets) (havoids : Avoids between charges) :
    Aged charges now (consumeAll (MemoryRateLimitProvider.consume maxEntries retention)
      between buckets) := by
  induction between generalizing buckets with
  | nil => exact h
  | cons call rest ih =>
    exact ih (h.consume (havoids call mem_cons_self))
      fun later hlater => havoids later (mem_cons_of_mem _ hlater)

variable (hkeys : (charges.map RateLimitCharge.key).Nodup)

include hkeys

theorem lookup_consume_self
    {charge : RateLimitCharge κ} (hchg : charge ∈ charges) :
    (consume maxEntries retention now charges buckets).2.lookup charge.key =
      if charge ∈ charges.drop (charges.length - maxEntries) then
        some ⟨(charge.left now (find retention now charge.key buckets)).level,
          (charge.left now (find retention now charge.key buckets)).usedAt, now⟩
      else none := by
  have hne : charges.isEmpty = false := isEmpty_eq_false_iff.mpr (ne_nil_of_mem hchg)
  unfold consume
  rw [hne, if_neg Bool.false_ne_true]
  simp only
  have hlook := ((readsOwn now).chargeAll hkeys (buckets.popWhile fun state =>
    decide (state.lastSeenAt < now - retention))).2 charge hchg
  obtain ⟨front, hfront⟩ := @keys_chargeAll κ _ now charges hkeys (buckets.popWhile fun state =>
    decide (state.lastSeenAt < now - retention))
  generalize (chargeAll (chargeOne now) charges _).2 = charged at hlook hfront
  have hdropped : (charged.trim maxEntries).keys =
      front.drop (front.length + charges.length - maxEntries) ++
        (charges.drop (charges.length - maxEntries)).map RateLimitCharge.key := by
    have hlen : front.length + charges.length - maxEntries - front.length =
        charges.length - maxEntries := by omega
    rw [OrderedDict.keys_trim, hfront, length_append, length_map, drop_append, hlen, map_drop]
  have hmem : charge.key ∈ (charged.trim maxEntries).keys ↔
      charge ∈ charges.drop (charges.length - maxEntries) := by
    rw [hdropped, mem_append]
    refine ⟨fun hkey => ?_, fun hkept => .inr (mem_map_of_mem hkept)⟩
    rcases hkey with hkey | hkey
    · -- the charged keys stand behind the others
      have hnodup : (front ++ charges.map RateLimitCharge.key).Nodup := hfront ▸ charged.keys_nodup
      exact absurd rfl ((nodup_append.mp hnodup).2.2 _ (mem_of_mem_drop hkey) _
        (mem_map_of_mem hchg))
    · obtain ⟨kept, hkept, heq⟩ := mem_map.mp hkey
      rwa [← inj_on_of_nodup_map hkeys (mem_of_mem_drop hkept) hchg heq]
  split
  next hkept =>
    obtain ⟨state, hstate⟩ := Option.isSome_iff_exists.mp (AList.lookup_isSome.mpr (hmem.mpr hkept))
    rw [hstate, ← OrderedDict.lookup_trim_eq_some hstate, hlook]
    rfl
  next hdrop => exact AList.lookup_eq_none.mpr fun hkey => hdrop (hmem.mp hkey)

variable (hpast : ∀ key state, buckets.lookup key = some state → state.lastSeenAt ≤ now)

include hpast

theorem lastSeenAt_consume
    (h : (consume maxEntries retention now charges buckets).2.lookup key = some state) :
    state.lastSeenAt ≤ now := by
  by_cases hkey : key ∈ charges.map RateLimitCharge.key
  · obtain ⟨charge, hchg, rfl⟩ := mem_map.mp hkey
    rcases consume_snd now charges buckets with hsnd | hsnd
    · exact hpast _ _ (hsnd ▸ h)
    rw [hsnd] at h
    have hlook := ((readsOwn now).chargeAll hkeys (buckets.popWhile fun state =>
      decide (state.lastSeenAt < now - retention))).2 charge hchg
    have hstate := hlook.symm.trans (OrderedDict.lookup_trim_eq_some h)
    cases hstate
    exact le_rfl
  · exact hpast _ _ (lookup_consume hkey h)

theorem finds :
    Finds (consume maxEntries retention) charges
      (charges.drop (charges.length - maxEntries)) now buckets (find retention) fun seconds =>
        (retention : ℤ) < seconds := by
  have hself : ∀ charge ∈ charges, ∀ state : BucketState,
      (consume maxEntries retention now charges buckets).2.lookup charge.key = some state →
        charge ∈ charges.drop (charges.length - maxEntries) ∧
          bucketOf state = charge.left now (find retention now charge.key buckets) := by
    intro charge hchg state hstate
    rw [lookup_consume_self hkeys hchg] at hstate
    split at hstate
    next hstor =>
      cases hstate
      exact ⟨hstor, rfl⟩
    next => cases hstate
  refine ⟨fun t state => consume_decision hkeys t state, drop_subset _ _, ?_, ?_, ?_⟩
  · intro between t havoids charge hchg
    unfold find
    cases hlookup : AList.lookup charge.key (OrderedDict.popWhile _ _) with
    | none => exact .inl rfl
    | some state =>
      have hbef := lookup_consumeAll (fun call hcall => havoids.not_mem hcall hchg)
        (OrderedDict.lookup_popWhile_eq_some hlookup)
      obtain ⟨hstor, hleft⟩ := hself charge hchg state hbef
      exact .inr ⟨hstor, congrArg some hleft⟩
  · intro between t seconds havoids hforgets ht charge hchg
    have haged : Aged charges now (consume maxEntries retention now charges buckets).2 :=
      ⟨_, [], (append_nil _).symm, fun _ _ _ hstate => lastSeenAt_consume hkeys hpast hstate,
        fun _ hnil => absurd hnil not_mem_nil⟩
    obtain ⟨front, back, hsplit, hfront, hback⟩ := haged.consumeAll havoids
    have hlong : (retention : ℚ) < seconds := by exact_mod_cast hforgets
    unfold find
    rw [OrderedDict.lookup_popWhile_of_front hsplit (fun key hmem state hstate => ?_)
      (fun hmem => hback _ hmem (mem_map_of_mem hchg))]
    · rfl
    · have hseen := hfront key hmem state hstate
      exact decide_eq_true (by linarith)
  · intro seconds hheld charge hstor
    have hchg := mem_of_mem_drop hstor
    have hshorter : (seconds : ℚ) ≤ retention := by exact_mod_cast not_lt.mp hheld
    unfold find
    cases hlookup : AList.lookup charge.key (OrderedDict.popWhile _ _) with
    | none =>
      have hstale := OrderedDict.lookup_popWhile_eq_none hlookup
        ((lookup_consume_self hkeys hchg).trans (if_pos hstor))
      have hlt := of_decide_eq_true hstale
      linarith
    | some state =>
      exact congrArg some (hself charge hchg state (OrderedDict.lookup_popWhile_eq_some hlookup)).2

omit hpast

end MemoryRateLimitProvider

/-! ### The provider in Redis -/

namespace RedisRateLimitProvider

variable {now t : ℚ} {retention : ℕ} {charges : List (RateLimitCharge κ)}
  {keyspace : Keyspace κ}

variable {key : κ}

theorem lookup_consume (t : ℚ) {calls : List (RateLimitCharge κ)}
    (hkey : key ∉ calls.map RateLimitCharge.key) (keyspace : Keyspace κ) :
    (consume retention t calls keyspace).2.lookup key = keyspace.lookup key := by
  rw [consume_eq]
  exact (readsOwn retention t).chargeAll_other hkey keyspace

theorem lookup_consumeAll {between : List (ℚ × List (RateLimitCharge κ))}
    (havoids : ∀ call ∈ between, key ∉ call.2.map RateLimitCharge.key) (keyspace : Keyspace κ) :
    (consumeAll (consume retention) between keyspace).lookup key = keyspace.lookup key := by
  induction between generalizing keyspace with
  | nil => rfl
  | cons call rest ih =>
    exact (ih (fun later hlater => havoids later (mem_cons_of_mem _ hlater)) _).trans
      (lookup_consume call.1 (havoids call mem_cons_self) keyspace)

theorem finds (hkeys : (charges.map RateLimitCharge.key).Nodup) :
    Finds (consume retention) charges charges now keyspace find
      fun seconds => (retention : ℤ) ≤ seconds := by
  have hafter : ∀ between t, Avoids between charges → ∀ charge ∈ charges,
      find t charge.key (consumeAll (consume retention) between
        (consume retention now charges keyspace).2) =
      if t < now + retention then some (charge.left now (find now charge.key keyspace))
      else none := by
    intro between t havoids charge hchg
    have hlook := ((readsOwn retention now).chargeAll hkeys keyspace).2 charge hchg
    rw [find, hmget, lookup_consumeAll fun call hcall => havoids.not_mem hcall hchg,
      consume_eq, hlook, Option.filter_some]
    by_cases hlater : t < now + retention
    · rw [if_pos (decide_eq_true hlater), if_pos hlater]
      rfl
    · rw [if_neg (by simpa using hlater), if_neg hlater]
      rfl
  refine ⟨fun t keyspace => ?_, List.Subset.refl _, fun between t havoids charge hchg => ?_, ?_, ?_⟩
  · rw [consume_eq]
    exact congrArg decisionOf ((readsOwn retention t).chargeAll hkeys keyspace).1
  · rw [hafter between t havoids charge hchg]
    split
    · exact .inr ⟨hchg, rfl⟩
    · exact .inl rfl
  · intro between t seconds havoids hforgets ht charge hchg
    have hle : (retention : ℚ) ≤ seconds := by exact_mod_cast hforgets
    rw [hafter between t havoids charge hchg, if_neg (by linarith)]
  · intro seconds hheld charge hchg
    have hlt : (seconds : ℚ) < retention := by exact_mod_cast not_le.mp hheld
    have hnone : Avoids [] charges := fun _ hnil => absurd hnil not_mem_nil
    have hself := hafter [] (now + seconds) hnone charge hchg
    rwa [if_pos (by linarith)] at hself

end RedisRateLimitProvider

/-! ### The announced delay -/

/-- **The announced delay** of a denied call suffices exactly if some bucket that cannot pay waits
until all of the buckets that are stored can pay again, or until they are forgotten. -/
theorem retry_delay_suffices_iff {charges : List (RateLimitCharge κ)}
    (hvalid : ValidCharges charges)
    (now : ℚ) :
    (∀ (maxEntries retention : ℕ) (buckets : MemoryRateLimitProvider.Buckets κ),
      (∀ key state, buckets.lookup key = some state → state.lastSeenAt ≤ now) →
      (MemoryRateLimitProvider.consume maxEntries retention now charges buckets).1.allowed = false →
      (DelaySuffices (MemoryRateLimitProvider.consume maxEntries retention) charges now buckets ↔
        ∃ denied ∈ waits charges now (MemoryRateLimitProvider.find retention now · buckets),
          (retention : ℤ) < denied.2 ∨ regain (charges.drop (charges.length - maxEntries)) now
              (MemoryRateLimitProvider.find retention now · buckets) denied.2)) ∧
      ∀ (retention : ℕ) (keyspace : RedisRateLimitProvider.Keyspace κ),
        (RedisRateLimitProvider.consume retention now charges keyspace).1.allowed = false →
        (DelaySuffices (RedisRateLimitProvider.consume retention) charges now keyspace ↔
          ∃ denied ∈ waits charges now (RedisRateLimitProvider.find now · keyspace),
            (retention : ℤ) ≤ denied.2 ∨
              regain charges now (RedisRateLimitProvider.find now · keyspace) denied.2) :=
  ⟨fun _ _ _ hpast hden =>
      (MemoryRateLimitProvider.finds hvalid.keys hpast).delaySuffices_iff hvalid hden,
    fun _ _ hden =>
      (RedisRateLimitProvider.finds hvalid.keys).delaySuffices_iff hvalid hden⟩

/-- One request in ten seconds for an account, and one in a second for an address. -/
def twoScopes : List (RateLimitCharge String) :=
  [⟨"account", "account", 1, 1, 10, 1⟩, ⟨"ip", "ip", 1, 1, 1, 1⟩]

theorem validCharges_twoScopes : ValidCharges twoScopes :=
  ⟨by decide, by decide, by decide +kernel⟩

/-- A second request at the same instant. -/
theorem second_request_delay : DelaySuffices (MemoryRateLimitProvider.consume 10000 60) twoScopes 100
    (MemoryRateLimitProvider.consume 10000 60 100 twoScopes ∅).2 := by
  refine ((retry_delay_suffices_iff validCharges_twoScopes 100).1 10000 60 _ ?_
    (by decide +kernel)).mpr ⟨(⟨"account", "account", 1, 1, 10, 1⟩, 10), ?_⟩
  · exact fun key state => MemoryRateLimitProvider.lastSeenAt_consume validCharges_twoScopes.keys
      fun _ _ hnone => absurd hnone Table.lookup_empty_ne_some
  · decide +kernel

/-- The address has been used by another account: its bucket is the only one that cannot pay, and the
account's own bucket is emptied by the denied request. -/
theorem delay_insufficient : ValidCharges twoScopes ∧
    ((MemoryRateLimitProvider.consume 10000 60 100 twoScopes
        (MemoryRateLimitProvider.consume 10000 60 100 (twoScopes.drop 1) ∅).2).1 =
          ⟨false, some "ip", some 1, 1⟩ ∧
      ¬ DelaySuffices (MemoryRateLimitProvider.consume 10000 60) twoScopes 100
        (MemoryRateLimitProvider.consume 10000 60 100 (twoScopes.drop 1) ∅).2) ∧
    (RedisRateLimitProvider.consume 60 100 twoScopes
        (RedisRateLimitProvider.consume 60 100 (twoScopes.drop 1) ∅).2).1 =
          ⟨false, some "ip", some 1, 1⟩ ∧
      ¬ DelaySuffices (RedisRateLimitProvider.consume 60) twoScopes 100
        (RedisRateLimitProvider.consume 60 100 (twoScopes.drop 1) ∅).2 := by
  have hnone : Avoids [] twoScopes := fun _ hnil => absurd hnil not_mem_nil
  refine ⟨validCharges_twoScopes, ⟨by decide +kernel, fun hdelay => ?_⟩, by decide +kernel,
    fun hdelay => ?_⟩
  all_goals
    have hagain := hdelay [] 101 hnone (by decide +kernel)
    exact absurd hagain (by decide +kernel)

end Cfms.Security
