import Cfms.Lib.OrderedDict
import Cfms.Lib.Run
import Mathlib.Tactic.Linarith

/-!
# Replay protection

`NonceStore` accepts a request once: its timestamp has to lie within a window around the clock, and
its nonce is put into the cache for twice the window, which is as long as the timestamp can be
accepted.  The cache is `MemoryCachingProvider`, a bounded dictionary that the login guard, the
sessions and the extensions use as well.  When it is full, the entry that was used least recently
is dropped, whether its time has come or not.
-/

namespace Cfms.Security

open Lib Lib.Run List AList

/-! ### The cache -/

/-- A value with the instant at which it expires; zero means never. -/
structure CacheEntry where
  value : String
  expireAt : ℚ
  deriving DecidableEq

abbrev Cache := OrderedDict String CacheEntry

def CacheEntry.isExpired (entry : CacheEntry) (now : ℚ) : Bool :=
  decide (0 < entry.expireAt) && decide (entry.expireAt < now)

namespace MemoryCachingProvider

def get (key : String) (now : ℚ) (cache : Cache) : Option String × Cache :=
  match cache.lookup key with
  | none => (none, cache)
  | some entry =>
    if entry.isExpired now then (none, cache.erase key)
    else (some entry.value, cache.moveToEnd key)

/-- `exists`. -/
def isStored (key : String) (now : ℚ) (cache : Cache) : Bool × Cache :=
  match cache.lookup key with
  | none => (false, cache)
  | some entry => if entry.isExpired now then (false, cache.erase key) else (true, cache)

/-- `time.time() + ttl if ttl else 0.0`. -/
def expireAt (ttl : Option ℚ) (now : ℚ) : ℚ :=
  match ttl with
  | none => 0
  | some ttl => if ttl = 0 then 0 else now + ttl

/-- The part of `set` after the test for the key. -/
def store (maxSize : ℕ) (key : String) (entry : CacheEntry) (cache : Cache) : Cache :=
  ((cache.assign key entry).moveToEnd key).trim maxSize

def set (maxSize : ℕ) (key value : String) (ttl : Option ℚ) (nx : Bool) (now : ℚ) (cache : Cache) :
    Bool × Cache :=
  let found := if nx then isStored key now cache else (false, cache)
  if found.1 then (false, found.2)
  else (true, store maxSize key ⟨value, expireAt ttl now⟩ found.2)

def delete (key : String) (cache : Cache) : Cache := cache.erase key

end MemoryCachingProvider

/-- `max_size` of the provider that the server starts with. -/
def defaultMaxSize : ℕ := 10000

/-! ### The nonce store -/

/-- A timestamp as it comes in a request. -/
inductive Timestamp
  | finite (value : ℚ)
  | notFinite
  deriving DecidableEq

def replayProtectionTimeWindowSeconds : ℚ := 15

def noncePrefix : String := "nonce:"

def nonceKey (nonce : String) : String := noncePrefix ++ nonce

/-- `NonceStore.validate_and_store`; nothing is returned when the request is accepted. -/
def validateAndStore (maxSize : ℕ) (timeWindow : ℚ) (nonce : String) (timestamp : Timestamp)
    (now : ℚ) (cache : Cache) : Option String × Cache :=
  match timestamp with
  | .notFinite => (some "Request timestamp is not a finite number", cache)
  | .finite timestamp =>
    if timeWindow < |now - timestamp| then
      (some "Request timestamp is outside the acceptable time window", cache)
    else
      let result := MemoryCachingProvider.set maxSize (nonceKey nonce) (toString now)
        (some (timeWindow * 2)) true now cache
      if result.1 then (none, result.2)
      else (some "Duplicate nonce detected: possible replay attack", result.2)

/-! ### Runs -/

/-- The cache, what has been accepted so far, and the last instant. -/
structure ReplayState where
  cache : Cache := ∅
  accepted : List (String × ℚ) := []
  clock : ℚ := 0

/-- A request, or an operation of another user of the cache. -/
inductive CacheAction
  | request (nonce : String) (timestamp : Timestamp) (now : ℚ)
  | get (key : String) (now : ℚ)
  | set (key value : String) (ttl : Option ℚ) (nx : Bool) (now : ℚ)
  | delete (key : String) (now : ℚ)
  | isStored (key : String) (now : ℚ)
  deriving DecidableEq

def CacheAction.now : CacheAction → ℚ
  | .request _ _ now | .get _ now | .set _ _ _ _ now | .delete _ now | .isStored _ now => now

/-- The keys of the other users have prefixes of their own. -/
def isNonceKey (key : String) : Bool := noncePrefix.toList.isPrefixOf key.toList

/-- The key of an operation of another user. -/
def CacheAction.otherKey? : CacheAction → Option String
  | .request _ _ _ => none
  | .get key _ | .set key _ _ _ _ | .delete key _ | .isStored key _ => some key

def performCacheAction (maxSize : ℕ) (timeWindow : ℚ) (s : ReplayState) : CacheAction → ReplayState
  | .request nonce timestamp now =>
    let result := validateAndStore maxSize timeWindow nonce timestamp now s.cache
    { s with
      cache := result.2
      accepted :=
        match timestamp, result.1 with
        | .finite timestamp, none => (nonce, timestamp) :: s.accepted
        | _, _ => s.accepted }
  | .get key now => { s with cache := (MemoryCachingProvider.get key now s.cache).2 }
  | .set key value ttl nx now =>
    { s with cache := (MemoryCachingProvider.set maxSize key value ttl nx now s.cache).2 }
  | .delete key _ => { s with cache := MemoryCachingProvider.delete key s.cache }
  | .isStored key now => { s with cache := (MemoryCachingProvider.isStored key now s.cache).2 }

/-- One action; the clock does not go back. -/
def replayStep (maxSize : ℕ) (timeWindow : ℚ) (s : ReplayState) (a : CacheAction) :
    Option ReplayState :=
  if s.clock ≤ a.now ∧ !a.otherKey?.any isNonceKey then
    some { performCacheAction maxSize timeWindow s a with clock := a.now }
  else none

/-- The key is the nonce of an accepted request whose timestamp is still within the window. -/
def isReplayable (timeWindow : ℚ) (s : ReplayState) (now : ℚ) (key : String) : Bool :=
  s.accepted.any fun request => nonceKey request.1 == key && decide (now ≤ request.2 + timeWindow)

def addedKey? (timeWindow : ℚ) : CacheAction → Option String
  | .request nonce (.finite timestamp) now =>
    if timeWindow < |now - timestamp| then none else some (nonceKey nonce)
  | .set key _ _ _ _ => some key
  | _ => none

/-- The condition on a step: when a new key comes into a full cache, the entry at the front is not
the nonce of a request that could still be replayed. -/
def sparesNonces (maxSize : ℕ) (timeWindow : ℚ) (s : ReplayState) (a : CacheAction) : Bool :=
  match addedKey? timeWindow a with
  | none => true
  | some key =>
    (s.cache.lookup key).isSome || decide (s.cache.size < maxSize) ||
      s.cache.firstKey?.any fun first => !isReplayable timeWindow s a.now first

/-! ### What the operations keep -/

section

variable {maxSize : ℕ} {cache : Cache} {key k : String} {now : ℚ}

/-- Nothing is dropped for the new key, or what is dropped is not `k`. -/
def Spares (maxSize : ℕ) (cache : Cache) (key k : String) : Prop :=
  (cache.lookup key).isSome = true ∨ cache.size < maxSize ∨
    ∃ first, cache.firstKey? = some first ∧ first ≠ k

theorem lookup_get_of_ne (h : k ≠ key) :
    (MemoryCachingProvider.get key now cache).2.lookup k = cache.lookup k := by
  unfold MemoryCachingProvider.get
  split
  · rfl
  split
  · exact lookup_erase_ne h
  · exact OrderedDict.lookup_moveToEnd

theorem lookup_isStored_of_ne (h : k ≠ key) :
    (MemoryCachingProvider.isStored key now cache).2.lookup k = cache.lookup k := by
  unfold MemoryCachingProvider.isStored
  split
  · rfl
  split
  · exact lookup_erase_ne h
  · rfl

variable {entry : CacheEntry}

theorem size_erase_of_lookup_eq_some (h : cache.lookup key = some entry) :
    OrderedDict.size (cache.erase key) + 1 = cache.size := by
  have hmem : key ∈ cache.keys := by
    rw [← AList.mem_keys, ← AList.lookup_isSome, h]
    rfl
  have hpos := length_pos_of_mem hmem
  rw [OrderedDict.size_eq_length_keys, OrderedDict.size_eq_length_keys, keys_erase,
    length_erase_of_mem hmem]
  omega

theorem size_get_le : (MemoryCachingProvider.get key now cache).2.size ≤ cache.size := by
  unfold MemoryCachingProvider.get
  split
  · exact le_rfl
  rename_i entry hentry
  have hsize := size_erase_of_lookup_eq_some hentry
  split
  · show OrderedDict.size (cache.erase key) ≤ _
    omega
  · exact OrderedDict.size_moveToEnd.le

theorem size_isStored_le : (MemoryCachingProvider.isStored key now cache).2.size ≤ cache.size := by
  unfold MemoryCachingProvider.isStored
  split
  · exact le_rfl
  rename_i entry hentry
  have hsize := size_erase_of_lookup_eq_some hentry
  split
  · show OrderedDict.size (cache.erase key) ≤ _
    omega
  · exact le_rfl

theorem isStored_of_not_isExpired (hentry : cache.lookup key = some entry)
    (hfresh : entry.isExpired now = false) :
    MemoryCachingProvider.isStored key now cache = (true, cache) := by
  rw [MemoryCachingProvider.isStored, hentry]
  simp [hfresh]

theorem Spares.isStored (hsize : cache.size ≤ maxSize) (h : Spares maxSize cache key k) :
    Spares maxSize (MemoryCachingProvider.isStored key now cache).2 key k := by
  unfold MemoryCachingProvider.isStored
  split
  · exact h
  rename_i entry hentry
  have herase := size_erase_of_lookup_eq_some hentry
  split
  · right
    left
    show OrderedDict.size (cache.erase key) < maxSize
    omega
  · exact h

section

variable {entry : CacheEntry}

theorem lookup_stored : ((cache.assign key entry).moveToEnd key).lookup k =
    if k = key then some entry else cache.lookup k := by
  rw [OrderedDict.lookup_moveToEnd, OrderedDict.lookup_assign]

theorem keys_stored_of_lookup_eq_none (h : cache.lookup key = none) :
    ((cache.assign key entry).moveToEnd key).keys = cache.keys ++ [key] := by
  have hentry : (cache.assign key entry).lookup key = some entry := by
    rw [OrderedDict.lookup_assign, if_pos rfl]
  have hmem : key ∉ cache.keys := lookup_eq_none.mp h
  rw [OrderedDict.keys_moveToEnd_of_lookup_eq_some hentry,
    OrderedDict.keys_assign_of_lookup_eq_none h, erase_append_right _ hmem]
  simp

theorem size_stored : ((cache.assign key entry).moveToEnd key).size =
    if (cache.lookup key).isSome then cache.size else cache.size + 1 := by
  rw [OrderedDict.size_moveToEnd]
  cases hlook : cache.lookup key with
  | none => exact OrderedDict.size_assign_of_lookup_eq_none hlook
  | some old => exact OrderedDict.size_assign_of_lookup_eq_some hlook

/-- **A store keeps every key that is spared**, and has the new entry. -/
theorem lookup_store (hsize : cache.size ≤ maxSize) (h : Spares maxSize cache key k) :
    (MemoryCachingProvider.store maxSize key entry cache).lookup k =
      if k = key then some entry else cache.lookup k := by
  unfold MemoryCachingProvider.store
  by_cases hfits : ((cache.assign key entry).moveToEnd key).size ≤ maxSize
  · rw [OrderedDict.trim_eq_self hfits, lookup_stored]
  -- the key is new and the cache is full, so the first entry goes
  rw [size_stored] at hfits
  split at hfits
  · exact absurd hsize hfits
  rename_i hnone
  have hlook : cache.lookup key = none := Option.not_isSome_iff_eq_none.mp hnone
  have hfull : ((cache.assign key entry).moveToEnd key).size = maxSize + 1 := by
    rw [size_stored, if_neg hnone]
    omega
  obtain hsome | hroom | ⟨first, hfirst, hne⟩ := h
  · exact absurd hsome hnone
  · omega
  have hhead : ((cache.assign key entry).moveToEnd key).firstKey? = some first := by
    rw [OrderedDict.firstKey?_eq_head?_keys] at hfirst ⊢
    rw [keys_stored_of_lookup_eq_none hlook, head?_append, hfirst]
    rfl
  rw [OrderedDict.trim_eq_popFirst hfull, OrderedDict.lookup_popFirst, lookup_stored]
  rw [hhead]
  exact fun heq => hne (Option.some.inj heq)

theorem size_store_le : (MemoryCachingProvider.store maxSize key entry cache).size ≤ maxSize :=
  OrderedDict.size_trim_le maxSize

end

variable {value : String} {ttl : Option ℚ} {nx : Bool}

theorem size_set_le (hsize : cache.size ≤ maxSize) :
    (MemoryCachingProvider.set maxSize key value ttl nx now cache).2.size ≤ maxSize := by
  unfold MemoryCachingProvider.set
  cases nx with
  | true =>
    simp only [if_true]
    split
    · exact size_isStored_le.trans hsize
    · exact size_store_le
  | false => exact size_store_le

theorem lookup_set_of_ne (hsize : cache.size ≤ maxSize) (h : Spares maxSize cache key k)
    (hne : k ≠ key) :
    (MemoryCachingProvider.set maxSize key value ttl nx now cache).2.lookup k = cache.lookup k := by
  unfold MemoryCachingProvider.set
  cases nx with
  | true =>
    simp only [if_true]
    split
    · exact lookup_isStored_of_ne hne
    · rw [lookup_store (size_isStored_le.trans hsize) (h.isStored hsize), if_neg hne,
        lookup_isStored_of_ne hne]
  | false =>
    show (MemoryCachingProvider.store maxSize key _ cache).lookup k = _
    rw [lookup_store hsize h, if_neg hne]

theorem lookup_set_self (hsize : cache.size ≤ maxSize) (h : Spares maxSize cache key key)
    (hset : (MemoryCachingProvider.set maxSize key value ttl true now cache).1 = true) :
    (MemoryCachingProvider.set maxSize key value ttl true now cache).2.lookup key =
      some ⟨value, MemoryCachingProvider.expireAt ttl now⟩ := by
  unfold MemoryCachingProvider.set at hset ⊢
  simp only [if_true] at hset ⊢
  split
  · rename_i hstor
    rw [if_pos hstor] at hset
    cases hset
  · rw [lookup_store (size_isStored_le.trans hsize) (h.isStored hsize), if_pos rfl]

theorem set_of_not_isExpired (hentry : cache.lookup key = some entry)
    (hfresh : entry.isExpired now = false) :
    MemoryCachingProvider.set maxSize key value ttl true now cache = (false, cache) := by
  simp only [MemoryCachingProvider.set, if_true, isStored_of_not_isExpired hentry hfresh]

end

/-! ### The invariant -/

/-- The entry does not expire before the given instant is over. -/
def CacheEntry.lasts (entry : CacheEntry) (deadline : ℚ) : Prop :=
  entry.expireAt ≤ 0 ∨ deadline ≤ entry.expireAt

theorem CacheEntry.lasts.isExpired_eq_false {entry : CacheEntry} {deadline now : ℚ}
    (h : entry.lasts deadline) (hnow : now ≤ deadline) : entry.isExpired now = false := by
  simp only [CacheEntry.isExpired, Bool.and_eq_false_iff, decide_eq_false_iff_not, not_lt]
  exact h.imp_right fun hdl => hnow.trans hdl

/-- The cache is bounded, and holds the nonce of every accepted request that could be replayed. -/
structure Guarded (maxSize : ℕ) (timeWindow : ℚ) (s : ReplayState) : Prop where
  size : s.cache.size ≤ maxSize
  nonces : ∀ nonce timestamp, (nonce, timestamp) ∈ s.accepted → s.clock ≤ timestamp + timeWindow →
    ∃ entry, s.cache.lookup (nonceKey nonce) = some entry ∧ entry.lasts (timestamp + timeWindow)

theorem nonceKey_injective {nonce nonce' : String} (h : nonceKey nonce = nonceKey nonce') :
    nonce = nonce' := by
  have hlist := congrArg String.toList h
  rw [nonceKey, nonceKey, String.toList_append, String.toList_append] at hlist
  exact String.toList_inj.mp (append_cancel_left hlist)

theorem isNonceKey_nonceKey (nonce : String) : isNonceKey (nonceKey nonce) = true := by
  rw [isNonceKey, nonceKey, String.toList_append, isPrefixOf_iff_prefix]
  exact prefix_append _ _

section

variable {maxSize : ℕ} {timeWindow : ℚ} {s : ReplayState}

variable {a : CacheAction} {key nonce : String} {timestamp : ℚ}

theorem spares_of_sparesNonces
    (h : sparesNonces maxSize timeWindow s a = true) (hkey : addedKey? timeWindow a = some key)
    (hmem : (nonce, timestamp) ∈ s.accepted) (hwin : a.now ≤ timestamp + timeWindow) :
    Spares maxSize s.cache key (nonceKey nonce) := by
  rw [sparesNonces, hkey] at h
  simp only [Bool.or_eq_true, decide_eq_true_eq, Option.any_eq_true, Bool.not_eq_true'] at h
  obtain (hsome | hroom) | ⟨first, hfirst, hsafe⟩ := h
  · exact .inl hsome
  · exact .inr (.inl hroom)
  refine .inr (.inr ⟨first, hfirst, ?_⟩)
  intro hfirst
  rw [isReplayable, any_eq_false] at hsafe
  apply hsafe (nonce, timestamp) hmem
  simp [hfirst, hwin]

theorem spares_self
    (h : sparesNonces maxSize timeWindow s a = true) (hkey : addedKey? timeWindow a = some key) :
    Spares maxSize s.cache key key := by
  rw [sparesNonces, hkey] at h
  simp only [Bool.or_eq_true, decide_eq_true_eq, Option.any_eq_true] at h
  obtain (hsome | hroom) | ⟨first, hfirst, -⟩ := h
  · exact .inl hsome
  · exact .inr (.inl hroom)
  by_cases hsome : (s.cache.lookup key).isSome = true
  · exact .inl hsome
  refine .inr (.inr ⟨first, hfirst, ?_⟩)
  intro heq
  rw [OrderedDict.firstKey?_eq_head?_keys] at hfirst
  have hmem : key ∈ s.cache.keys := heq ▸ mem_of_mem_head? hfirst
  exact hsome (lookup_isSome.mpr hmem)

variable {now : ℚ}

theorem window_bounds (h : ¬ timeWindow < |now - timestamp|) :
    now ≤ timestamp + timeWindow ∧ timestamp ≤ now + timeWindow := by
  have habs := abs_le.mp (not_lt.mp h)
  constructor <;> linarith [habs.1, habs.2]

theorem lasts_expireAt (h : timestamp ≤ now + timeWindow) (value : String) :
    CacheEntry.lasts ⟨value, MemoryCachingProvider.expireAt (some (timeWindow * 2)) now⟩
      (timestamp + timeWindow) := by
  unfold CacheEntry.lasts MemoryCachingProvider.expireAt
  simp only
  split
  · exact .inl le_rfl
  · right
    linarith

/-- **An accepted request is rejected from then on.** -/
theorem Guarded.rejects (h : Guarded maxSize timeWindow s)
    (hmem : (nonce, timestamp) ∈ s.accepted) (hnow : s.clock ≤ now) :
    (validateAndStore maxSize timeWindow nonce (.finite timestamp) now s.cache).1.isSome = true := by
  unfold validateAndStore
  simp only
  split
  · rfl
  rename_i hwin
  have hdl := (window_bounds hwin).1
  obtain ⟨entry, hentry, hlasts⟩ := h.nonces nonce timestamp hmem (hnow.trans hdl)
  rw [set_of_not_isExpired hentry (hlasts.isExpired_eq_false hdl)]
  rfl

theorem Guarded.of_lookup_eq (h : Guarded maxSize timeWindow s) {cache : Cache}
    (hclock : s.clock ≤ now) (hsize : cache.size ≤ maxSize)
    (hlook : ∀ nonce timestamp, (nonce, timestamp) ∈ s.accepted → now ≤ timestamp + timeWindow →
      cache.lookup (nonceKey nonce) = s.cache.lookup (nonceKey nonce)) :
    Guarded maxSize timeWindow { s with cache := cache, clock := now } where
  size := hsize
  nonces nonce timestamp hmem hwin := by
    rw [hlook nonce timestamp hmem hwin]
    exact h.nonces nonce timestamp hmem (hclock.trans hwin)

theorem Guarded.request (h : Guarded maxSize timeWindow s) {timestamp : Timestamp}
    (hclock : s.clock ≤ now)
    (hspares : sparesNonces maxSize timeWindow s (.request nonce timestamp now) = true) :
    Guarded maxSize timeWindow
      { performCacheAction maxSize timeWindow s (.request nonce timestamp now) with clock := now } := by
  have hkeep : Guarded maxSize timeWindow { s with clock := now } :=
    h.of_lookup_eq hclock h.size fun _ _ _ _ => rfl
  cases timestamp with
  | notFinite => exact hkeep
  | finite timestamp =>
    by_cases hwin : timeWindow < |now - timestamp|
    · have hres : performCacheAction maxSize timeWindow s (.request nonce (.finite timestamp) now) =
          s := by
        simp only [performCacheAction, validateAndStore, if_pos hwin]
      rw [hres]
      exact hkeep
    · obtain ⟨hdl, hearly⟩ := window_bounds hwin
      have hkey : addedKey? timeWindow (.request nonce (.finite timestamp) now) =
          some (nonceKey nonce) := if_neg hwin
      have hself := spares_self hspares hkey
      -- the nonces of other requests are not touched
      have hother : ∀ other stamp, (other, stamp) ∈ s.accepted → now ≤ stamp + timeWindow →
          other ≠ nonce → (MemoryCachingProvider.set maxSize (nonceKey nonce) (toString now)
            (some (timeWindow * 2)) true now s.cache).2.lookup (nonceKey other) =
              s.cache.lookup (nonceKey other) := by
        intro other stamp hmem hstamp hne
        apply lookup_set_of_ne h.size (spares_of_sparesNonces hspares hkey hmem hstamp)
        exact fun heq => hne (nonceKey_injective heq)
      simp only [performCacheAction, validateAndStore, if_neg hwin]
      cases hset : (MemoryCachingProvider.set maxSize (nonceKey nonce) (toString now)
          (some (timeWindow * 2)) true now s.cache).1 with
      | true =>
        have hnew := lookup_set_self h.size hself hset
        refine ⟨size_set_le h.size, ?_⟩
        intro other stamp hmem hstamp
        simp only [if_true] at hmem hstamp ⊢
        by_cases hne : other = nonce
        · subst hne
          refine ⟨_, hnew, ?_⟩
          cases mem_cons.mp hmem with
          | inl heq =>
            cases heq
            exact lasts_expireAt hearly _
          | inr hold =>
            -- the nonce was there, so the request would not have been accepted
            obtain ⟨entry, hentry, hlasts⟩ := h.nonces other stamp hold (hclock.trans hstamp)
            rw [set_of_not_isExpired hentry (hlasts.isExpired_eq_false hstamp)] at hset
            cases hset
        · have hold : (other, stamp) ∈ s.accepted := by
            cases mem_cons.mp hmem with
            | inl heq => exact absurd (Prod.mk.inj heq).1 hne
            | inr hold => exact hold
          rw [hother other stamp hold hstamp hne]
          exact h.nonces other stamp hold (hclock.trans hstamp)
      | false =>
        refine ⟨size_set_le h.size, ?_⟩
        intro other stamp hmem hstamp
        simp only [Bool.false_eq_true, if_false] at hmem hstamp ⊢
        obtain ⟨entry, hentry, hlasts⟩ := h.nonces other stamp hmem (hclock.trans hstamp)
        by_cases hne : other = nonce
        · subst hne
          rw [set_of_not_isExpired hentry (hlasts.isExpired_eq_false hstamp)]
          exact ⟨entry, hentry, hlasts⟩
        · rw [hother other stamp hmem hstamp hne]
          exact ⟨entry, hentry, hlasts⟩

theorem ne_nonceKey_of_not_isNonceKey (h : isNonceKey key = false) (nonce : String) :
    nonceKey nonce ≠ key := by
  intro heq
  rw [← heq, isNonceKey_nonceKey] at h
  cases h

theorem guarded_step {s' : ReplayState} (h : Guarded maxSize timeWindow s)
    (hspares : sparesNonces maxSize timeWindow s a = true)
    (hstep : replayStep maxSize timeWindow s a = some s') : Guarded maxSize timeWindow s' := by
  unfold replayStep at hstep
  split at hstep
  · rename_i hguard
    obtain ⟨hclock, hother⟩ := hguard
    cases hstep
    cases a with
    | request nonce timestamp now => exact h.request hclock hspares
    | get key now =>
      have hne := ne_nonceKey_of_not_isNonceKey ((Bool.not_eq_true' _).mp hother)
      exact h.of_lookup_eq hclock (size_get_le.trans h.size) fun nonce _ _ _ =>
        lookup_get_of_ne (hne nonce)
    | set key value ttl nx now =>
      have hne := ne_nonceKey_of_not_isNonceKey ((Bool.not_eq_true' _).mp hother)
      exact h.of_lookup_eq hclock (size_set_le h.size) fun nonce _ hmem hwin =>
        lookup_set_of_ne h.size (spares_of_sparesNonces hspares rfl hmem hwin) (hne nonce)
    | delete key now =>
      have hne := ne_nonceKey_of_not_isNonceKey ((Bool.not_eq_true' _).mp hother)
      have hsize : OrderedDict.size (s.cache.erase key) ≤ s.cache.size := by
        rw [OrderedDict.size_eq_length_keys, OrderedDict.size_eq_length_keys, keys_erase]
        exact length_erase_le
      exact h.of_lookup_eq hclock (hsize.trans h.size) fun nonce _ _ _ =>
        lookup_erase_ne (hne nonce)
    | isStored key now =>
      have hne := ne_nonceKey_of_not_isNonceKey ((Bool.not_eq_true' _).mp hother)
      exact h.of_lookup_eq hclock (size_isStored_le.trans h.size) fun nonce _ _ _ =>
        lookup_isStored_of_ne (hne nonce)
  · cases hstep

end

theorem guarded_initial (maxSize : ℕ) (timeWindow start : ℚ) :
    Guarded maxSize timeWindow { clock := start } where
  size := Nat.zero_le _
  nonces _ _ hmem := absurd hmem not_mem_nil

/-- **A request is never accepted twice**, in every run in which no new key drives the nonce of a
request that could still be replayed out of the full cache. -/
theorem accepted_request_is_rejected_later {maxSize : ℕ} {timeWindow start : ℚ}
    {actions : List CacheAction} {s : ReplayState}
    (hmeets : Meets (replayStep maxSize timeWindow)
      (fun s a => sparesNonces maxSize timeWindow s a = true) { clock := start } actions)
    (hrun : run (replayStep maxSize timeWindow) { clock := start } actions = some s)
    {nonce : String} {timestamp now : ℚ} (hmem : (nonce, timestamp) ∈ s.accepted)
    (hnow : s.clock ≤ now) :
    (validateAndStore maxSize timeWindow nonce (.finite timestamp) now s.cache).1.isSome = true := by
  have hguarded : Guarded maxSize timeWindow s :=
    run_invariant (fun _ _ _ h hspares hstep => guarded_step h hspares hstep)
      (guarded_initial maxSize timeWindow start) hmeets hrun
  exact hguarded.rejects hmem hnow

/-- A request with some traffic of the login guard after it. -/
def busyMinute : List CacheAction :=
  [.request "0123456789abcdef" (.finite 100) 90, .set "guard:v2:[\"ip\"]" "120" (some 30) false 91,
    .get "guard:v2:[\"ip\"]" 95, .request "fedcba9876543210" (.finite 96) 96]

def busyState : ReplayState :=
  (run (replayStep defaultMaxSize replayProtectionTimeWindowSeconds) { clock := 90 } busyMinute).getD {}

/-- The request is rejected when it comes again at the end of its window. -/
theorem busy_minute_rejects_replay :
    run (replayStep defaultMaxSize replayProtectionTimeWindowSeconds) { clock := 90 } busyMinute =
        some busyState ∧
      (validateAndStore defaultMaxSize replayProtectionTimeWindowSeconds "0123456789abcdef"
        (.finite 100) 115 busyState.cache).1.isSome = true := by
  have hrun : run (replayStep defaultMaxSize replayProtectionTimeWindowSeconds) { clock := 90 }
      busyMinute = some busyState := run_eq_some_getD {} (by decide +kernel)
  exact ⟨hrun, accepted_request_is_rejected_later (meets_of_meetsBool (by decide +kernel)) hrun
    (by decide +kernel) (by decide +kernel)⟩

/-! ### A full cache forgets -/

/-- Nonces of different lengths. -/
def floodNonce (i : ℕ) : String := String.ofList (List.replicate (16 + i) 'a')

/-- Requests that arrive at one instant, each with a nonce of its own. -/
def flood (count : ℕ) : List CacheAction :=
  (List.range count).map fun i => .request (floodNonce i) (.finite 0) 0

def floodKeys (count : ℕ) : List String := (List.range count).map fun i => nonceKey (floodNonce i)

theorem floodNonce_injective {i j : ℕ} (h : nonceKey (floodNonce i) = nonceKey (floodNonce j)) :
    i = j := by
  have hlen := congrArg (fun nonce : String => nonce.toList.length) (nonceKey_injective h)
  simp only [floodNonce, String.toList_ofList, length_replicate] at hlen
  omega

section

variable (maxSize : ℕ) {timeWindow : ℚ} {cache : Cache}

theorem validateAndStore_of_lookup_eq_none {nonce : String} (hwin : 0 ≤ timeWindow)
    (h : cache.lookup (nonceKey nonce) = none) :
    ∃ entry, validateAndStore maxSize timeWindow nonce (.finite 0) 0 cache =
      (none, MemoryCachingProvider.store maxSize (nonceKey nonce) entry cache) := by
  have hnear : ¬ timeWindow < |(0 : ℚ) - 0| := by
    rw [sub_zero]
    exact not_lt.mpr hwin
  refine ⟨⟨toString (0 : ℚ), MemoryCachingProvider.expireAt (some (timeWindow * 2)) 0⟩, ?_⟩
  simp only [validateAndStore, if_neg hnear, MemoryCachingProvider.set,
    MemoryCachingProvider.isStored, h, if_true, Bool.false_eq_true, if_false]

theorem keys_store_of_lookup_eq_none {key : String} {entry : CacheEntry}
    (h : cache.lookup key = none) :
    (MemoryCachingProvider.store maxSize key entry cache).keys =
      (cache.keys ++ [key]).drop (cache.keys.length + 1 - maxSize) := by
  rw [MemoryCachingProvider.store, OrderedDict.keys_trim, keys_stored_of_lookup_eq_none h,
    length_append]
  rfl

theorem lookup_eq_none_of_keys {count : ℕ}
    (h : cache.keys = (floodKeys count).drop (count - maxSize)) :
    cache.lookup (nonceKey (floodNonce count)) = none := by
  rw [AList.lookup_eq_none, AList.mem_keys, h]
  intro hmem
  obtain ⟨i, hi, heq⟩ := mem_map.mp (mem_of_mem_drop hmem)
  have hcount := floodNonce_injective heq
  rw [hcount] at hi
  exact absurd (mem_range.mp hi) (lt_irrefl count)

theorem run_flood (hwin : 0 ≤ timeWindow) (count : ℕ) :
    ∃ s, run (replayStep maxSize timeWindow) {} (flood count) = some s ∧ s.clock = 0 ∧
      s.cache.keys = (floodKeys count).drop (count - maxSize) ∧
      ∀ i < count, (floodNonce i, 0) ∈ s.accepted := by
  induction count with
  | zero =>
    refine ⟨{}, rfl, rfl, ?_, nofun⟩
    rw [Nat.zero_sub]
    rfl
  | succ count ih =>
    obtain ⟨s, hrun, hclock, hkeys, hacc⟩ := ih
    have hnone := lookup_eq_none_of_keys maxSize hkeys
    obtain ⟨entry, hval⟩ :=
      validateAndStore_of_lookup_eq_none maxSize hwin hnone
    have hstep : replayStep maxSize timeWindow s (.request (floodNonce count) (.finite 0) 0) =
        some { cache := MemoryCachingProvider.store maxSize (nonceKey (floodNonce count)) entry s.cache
               accepted := (floodNonce count, 0) :: s.accepted
               clock := 0 } := by
      simp only [replayStep, hclock, performCacheAction, hval]
      rfl
    have hflood : flood (count + 1) = flood count ++ [.request (floodNonce count) (.finite 0) 0] := by
      rw [flood, range_succ, map_append]
      rfl
    have hlen : (floodKeys count).length = count := by simp [floodKeys]
    have hrun' := run_concat hrun hstep
    rw [← hflood] at hrun'
    refine ⟨_, hrun', rfl, ?_, ?_⟩
    · have hsucc : floodKeys (count + 1) = floodKeys count ++ [nonceKey (floodNonce count)] := by
        rw [floodKeys, range_succ, map_append]
        rfl
      have hle : count - maxSize ≤ (floodKeys count).length := by omega
      rw [keys_store_of_lookup_eq_none maxSize hnone, hkeys, hsucc, ← drop_append_of_le_length hle,
        drop_drop, length_drop]
      congr 1
      omega
    · intro i hi
      cases Nat.lt_succ_iff_lt_or_eq.mp hi with
      | inl hlt => exact mem_cons_of_mem _ (hacc i hlt)
      | inr heq =>
        rw [heq]
        exact mem_cons_self

end

/-- As many requests as the cache has places, at the instant of an accepted request, and that
request is accepted again. -/
theorem flooded_cache_accepts_replay : ¬ ∀ actions s nonce timestamp now,
      run (replayStep defaultMaxSize replayProtectionTimeWindowSeconds) {} actions = some s →
      (nonce, timestamp) ∈ s.accepted → s.clock ≤ now →
      (validateAndStore defaultMaxSize replayProtectionTimeWindowSeconds nonce (.finite timestamp) now
        s.cache).1.isSome = true := by
  intro h
  have hwin : 0 ≤ replayProtectionTimeWindowSeconds := by decide +kernel
  obtain ⟨s, hrun, hclock, hkeys, hacc⟩ := run_flood defaultMaxSize hwin (defaultMaxSize + 1)
  have hnone : s.cache.lookup (nonceKey (floodNonce 0)) = none := by
    rw [AList.lookup_eq_none, AList.mem_keys, hkeys, Nat.add_sub_cancel_left, floodKeys,
      range_succ_eq_map, map_cons, drop_one, tail_cons, map_map]
    intro hmem
    obtain ⟨i, -, heq⟩ := mem_map.mp hmem
    exact absurd (floodNonce_injective heq) (Nat.succ_ne_zero i)
  obtain ⟨entry, haccept⟩ :=
    validateAndStore_of_lookup_eq_none defaultMaxSize hwin hnone
  have hreject := h (flood (defaultMaxSize + 1)) s (floodNonce 0) 0 0 hrun
    (hacc 0 (Nat.succ_pos _)) hclock.le
  rw [haccept] at hreject
  cases hreject

end Cfms.Security
