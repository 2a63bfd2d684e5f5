import Mathlib.Data.Prod.Lex
import Mathlib.Data.String.Basic
import Cfms.Lib.Keyset
import Cfms.Security.LoginGuard

/-!
# Lockouts

`core.security.auth_lockout.list` of `include/domains/security/handlers/access_control.py` pages
through the locked records of the three tables, `core.security.auth_lockout.unlock` deletes the
records that its selectors name, and `evaluate` of the login guard denies a request while one of its
records is locked, by the cache or by the table.

The item of a record has the selector of the record (`exists_identity_of_mem_listLockouts`), and the
request accepts it as naming this record, unless a text is too long or the record is of an account
with a factor other than `password` and `totp` (`validate_selector`).
-/

namespace Cfms.Security

open Lib Lib.Keyset List

/-! ### The list -/

def ThrottleScope.value : ThrottleScope → String
  | .bannedSubnet => "banned_subnet"
  | .ip => "ip"
  | .account => "account"
  | .accountIp => "account_ip"

/-- A row of `_lockout_union`. -/
structure LockoutRow where
  scope : ThrottleScope
  username : String
  factor : String
  ipAddress : String
  failedAttempts : ℕ
  windowStartedAt : Option ℚ
  lastAttempt : ℚ
  lockedUntil : Option ℚ

def lockoutUnion (throttles : Throttles) : List LockoutRow :=
  (throttles.traffic.entries.map fun row =>
    ⟨.ip, "", "", row.1, row.2.failedAttempts, some row.2.windowStartedAt, row.2.lastAttempt,
      row.2.lockedUntil⟩) ++
  (throttles.accounts.entries.map fun row =>
    ⟨.account, row.1.1, row.1.2, "", row.2.failedAttempts, none, row.2.lastAttempt,
      row.2.lockedUntil⟩) ++
  throttles.logins.entries.map fun row =>
    ⟨.accountIp, row.1.1, "", row.1.2, row.2.failedAttempts, some row.2.windowStartedAt,
      row.2.lastAttempt, row.2.lockedUntil⟩

structure ActiveLockout where
  row : LockoutRow
  lockedUntil : ℚ

/-- `locked_until > now`. -/
def LockoutRow.active (now : ℚ) (row : LockoutRow) : Option ActiveLockout :=
  (row.lockedUntil.filter (now < ·)).map fun lock => ⟨row, lock⟩

abbrev LockoutKey := ℚᵒᵈ ×ₗ String ×ₗ String ×ₗ String ×ₗ String

/-- `locked_until:desc,scope:asc,username:asc,factor:asc,ip_address:asc`. -/
def ActiveLockout.key (lockout : ActiveLockout) : LockoutKey :=
  toLex (OrderDual.toDual lockout.lockedUntil, toLex (lockout.row.scope.value,
    toLex (lockout.row.username, toLex (lockout.row.factor, lockout.row.ipAddress))))

/-- `_ListAuthLockoutsRequest` with its cursor decoded. -/
structure LockoutListRequest where
  pageSize : ℕ
  last : Option LockoutKey := none
  scope : Option ThrottleScope := none
  username : Option String := none
  ipAddress : Option String := none
  factor : Option String := none

/-- The row meets the exact filters. -/
def LockoutListRequest.selects (request : LockoutListRequest) (row : LockoutRow) : Bool :=
  request.scope.all (row.scope == ·) && request.username.all (row.username == ·) &&
    request.ipAddress.all (row.ipAddress == ·) && request.factor.all (row.factor == ·)

structure LockoutItem where
  scope : ThrottleScope
  username : Option String
  factor : Option String
  ipAddress : Option String
  failedAttempts : ℕ
  windowStartedAt : Option ℚ
  lastAttempt : ℚ
  lockedUntil : ℚ
  retryAfterSeconds : ℤ
  deriving DecidableEq

/-- `text or None`. -/
def orNone (text : String) : Option String := if text = "" then none else some text

def ActiveLockout.item (now : ℚ) (lockout : ActiveLockout) : LockoutItem where
  scope := lockout.row.scope
  username := orNone lockout.row.username
  factor := orNone lockout.row.factor
  ipAddress := orNone lockout.row.ipAddress
  failedAttempts := lockout.row.failedAttempts
  windowStartedAt := lockout.row.windowStartedAt
  lastAttempt := lockout.row.lastAttempt
  lockedUntil := lockout.lockedUntil
  retryAfterSeconds := retryAfter lockout.lockedUntil now

/-- The items of a page of `RequestListAuthLockoutsHandler`. -/
def listLockouts (request : LockoutListRequest) (now : ℚ) (throttles : Throttles) :
    List LockoutItem :=
  let active := (lockoutUnion throttles).filterMap (LockoutRow.active now)
  let selected := active.filter fun lockout => request.selects lockout.row
  ((orderBy ActiveLockout.key (after ActiveLockout.key request.last selected)).take
    request.pageSize).map (ActiveLockout.item now)

/-! ### Selectors -/

/-- A JSON object of `locks`. -/
structure LockSelector where
  scope : String
  username : Option String := none
  factor : Option String := none
  ipAddress : Option String := none
  deriving DecidableEq

def LockoutItem.selector (item : LockoutItem) : LockSelector :=
  ⟨item.scope.value, item.username, item.factor, item.ipAddress⟩

/-- `StringConstraints(min_length=1, max_length=...)`. -/
def fitsLength (most : ℕ) (text : String) : Bool := 1 ≤ text.length && text.length ≤ most

/-- `_LockoutUsername`, `_IPAddress` and the literal of `_AccountLockoutSelector`. -/
def lockoutUsername : String → Bool := fitsLength 255

def lockoutAddress : String → Bool := fitsLength 45

def lockoutFactors : List String := ["password", "totp"]

/-- `_LockoutSelector`: the scope tells the model, and other fields are forbidden. -/
def LockSelector.validate (selector : LockSelector) : Option ThrottleIdentity :=
  match selector.scope, selector.username, selector.factor, selector.ipAddress with
  | "ip", none, none, some ipAddress =>
    if lockoutAddress ipAddress then some (.ip ipAddress) else none
  | "account", some username, some factor, none =>
    if lockoutUsername username && lockoutFactors.contains factor then
      some (.account username factor)
    else none
  | "account_ip", some username, none, some ipAddress =>
    if lockoutUsername username && lockoutAddress ipAddress then
      some (.accountIp username ipAddress)
    else none
  | _, _, _, _ => none

/-- The selector of a record. -/
def ThrottleIdentity.selector : ThrottleIdentity → LockSelector
  | .ip ipAddress => { scope := "ip", ipAddress := orNone ipAddress }
  | .account username factor =>
    { scope := "account", username := orNone username, factor := orNone factor }
  | .accountIp username ipAddress =>
    { scope := "account_ip", username := orNone username, ipAddress := orNone ipAddress }

/-- The texts of a record are as long as a selector permits. -/
def ThrottleIdentity.FitsLengths : ThrottleIdentity → Prop
  | .ip ipAddress => lockoutAddress ipAddress = true
  | .account username _ => lockoutUsername username = true
  | .accountIp username ipAddress =>
    lockoutUsername username = true ∧ lockoutAddress ipAddress = true

/-- The factor of an account record is one that a selector permits. -/
def ThrottleIdentity.hasListedFactor : ThrottleIdentity → Bool
  | .account _ factor => lockoutFactors.contains factor
  | _ => true

theorem orNone_of_ne {text : String} (h : text ≠ "") : orNone text = some text := if_neg h

theorem ne_empty_of_fitsLength {most : ℕ} {text : String} (h : fitsLength most text = true) :
    text ≠ "" := by
  rintro rfl
  rw [fitsLength, Bool.and_eq_true] at h
  exact absurd h.1 (by decide)

/-- **A selector is accepted as naming the record it describes.** -/
theorem validate_selector {identity : ThrottleIdentity} (hfits : identity.FitsLengths) :
    identity.selector.validate = if identity.hasListedFactor then some identity else none := by
  cases identity with
  | ip ipAddress =>
    rw [ThrottleIdentity.selector, orNone_of_ne (ne_empty_of_fitsLength hfits)]
    exact (if_pos hfits).trans (if_pos rfl).symm
  | account username factor =>
    have huser := orNone_of_ne (ne_empty_of_fitsLength hfits)
    rw [ThrottleIdentity.selector, huser]
    by_cases hfactor : factor = ""
    · subst hfactor
      rfl
    · rw [orNone_of_ne hfactor]
      show (if lockoutUsername username && lockoutFactors.contains factor then _ else none) = _
      rw [show lockoutUsername username = true from hfits]
      rfl
  | accountIp username ipAddress =>
    obtain ⟨huser, haddr⟩ := hfits
    rw [ThrottleIdentity.selector, orNone_of_ne (ne_empty_of_fitsLength huser),
      orNone_of_ne (ne_empty_of_fitsLength haddr)]
    show (if lockoutUsername username && lockoutAddress ipAddress then _ else none) = _
    rw [huser, haddr]
    rfl

theorem bind_lookup_of_mem {κ ρ : Type} [DecidableEq κ] {table : Table κ ρ} {key : κ} {record : ρ}
    {lockedUntil : ρ → Option ℚ} {lock : ℚ} (hmem : ⟨key, record⟩ ∈ table.entries)
    (hlock : lockedUntil record = some lock) : (table.lookup key).bind lockedUntil = some lock :=
  Option.bind_eq_some_iff.mpr ⟨record, AList.mem_lookup_iff.mpr hmem, hlock⟩

theorem exists_identity_of_mem_lockoutUnion {throttles : Throttles} {row : LockoutRow} {lock : ℚ}
    (h : row ∈ lockoutUnion throttles) (hlock : row.lockedUntil = some lock) :
    ∃ identity : ThrottleIdentity, throttles.lockedUntil identity = some lock ∧
      row.scope = identity.scope ∧ identity.selector =
        ⟨row.scope.value, orNone row.username, orNone row.factor, orNone row.ipAddress⟩ := by
  rw [lockoutUnion, mem_append, mem_append, mem_map, mem_map, mem_map] at h
  rcases h with (⟨⟨ipAddress, record⟩, hmem, rfl⟩ | ⟨⟨⟨username, factor⟩, record⟩, hmem, rfl⟩) |
    ⟨⟨⟨username, ipAddress⟩, record⟩, hmem, rfl⟩
  · exact ⟨.ip ipAddress, bind_lookup_of_mem hmem hlock, rfl, rfl⟩
  · exact ⟨.account username factor, bind_lookup_of_mem hmem hlock, rfl, rfl⟩
  · exact ⟨.accountIp username ipAddress, bind_lookup_of_mem hmem hlock, rfl, rfl⟩

theorem exists_identity_of_mem_listLockouts {request : LockoutListRequest} {now : ℚ}
    {throttles : Throttles} {item : LockoutItem} (h : item ∈ listLockouts request now throttles) :
    ∃ identity : ThrottleIdentity, throttles.lockedUntil identity = some item.lockedUntil ∧
      now < item.lockedUntil ∧ item.scope = identity.scope ∧ item.selector = identity.selector := by
  obtain ⟨lockout, hlockout, rfl⟩ := mem_map.mp h
  have hsel := mem_of_mem_filter (mem_orderBy.mp (mem_of_mem_take hlockout))
  obtain ⟨row, hrow, hact⟩ := mem_filterMap.mp (mem_of_mem_filter hsel)
  obtain ⟨lock, hlock, rfl⟩ := Option.map_eq_some_iff.mp hact
  obtain ⟨hlocked, hnow⟩ := Option.filter_eq_some_iff.mp hlock
  obtain ⟨identity, hident, hscope, hselector⟩ :=
    exists_identity_of_mem_lockoutUnion hrow hlocked
  exact ⟨identity, hident, of_decide_eq_true hnow, hscope, hselector.symm⟩

/-! ### Evaluation -/

/-- The arguments of `evaluate`. -/
structure LoginCheck where
  ipAddress : String
  username : Option String := none
  factor : Option String := none
  deriving DecidableEq

/-- `checks`: the records that are looked at, in their order. -/
def LoginCheck.identities (check : LoginCheck) : List ThrottleIdentity :=
  let address := orNone check.ipAddress
  let username := check.username.bind orNone
  let factor := check.factor.bind orNone
  (address.map ThrottleIdentity.ip).toList ++
    (username.bind fun u => factor.map (ThrottleIdentity.account u)).toList ++
      (username.bind fun u => address.map (ThrottleIdentity.accountIp u)).toList

/-- A cached lock that is still to go. -/
def cachedDenial (identity : ThrottleIdentity) (expiry now : ℚ) : ThrottleDecision where
  allowed := false
  scope := some identity.scope
  retryAfterSeconds := some ⌈expiry - now⌉

/-- The loop over the cache. -/
def evaluateCache (now : ℚ) :
    List ThrottleIdentity → LockCache → Option ThrottleDecision × LockCache
  | [], cache => (none, cache)
  | identity :: rest, cache =>
    match cache.get now identity.cacheKey with
    | none => evaluateCache now rest cache
    | some expiry =>
      if 0 < ⌈expiry - now⌉ then (some (cachedDenial identity expiry now), cache)
      else evaluateCache now rest (cache.delete identity.cacheKey)

/-- The loop over the records. -/
def evaluateRecords (now : ℚ) (throttles : Throttles) :
    List ThrottleIdentity → LockCache → ThrottleDecision × LockCache
  | [], cache => ({ allowed := true }, cache)
  | identity :: rest, cache =>
    match (throttles.lockedUntil identity).filter (now < ·) with
    | none => evaluateRecords now throttles rest cache
    | some lock => (denial identity lock now, cacheDecision identity lock now now cache)

/-- `evaluate`; `banned` is what `evaluate_subnet_access` says of an address. -/
def evaluate (policy : AuthThrottlePolicy) (banned : String → Bool) (now : ℚ) (check : LoginCheck)
    (guard : LoginGuard) : ThrottleDecision × LoginGuard :=
  if banned check.ipAddress then ({ allowed := false, scope := some .bannedSubnet }, guard)
  else if policy.enabled then
    match evaluateCache now check.identities guard.cache with
    | (some decision, cache) => (decision, ⟨guard.throttles, cache⟩)
    | (none, cache) =>
      let result := evaluateRecords now guard.throttles check.identities cache
      (result.1, ⟨guard.throttles, result.2⟩)
  else ({ allowed := true }, guard)

structure LoginGuard.IsFree (guard : LoginGuard) (identity : ThrottleIdentity) : Prop where
  record : guard.throttles.lockedUntil identity = none
  cached : guard.cache identity.cacheKey = none

section

variable {now : ℚ} {identity : ThrottleIdentity}

theorem LoginCheck.nodup_scopes (check : LoginCheck) :
    (check.identities.map ThrottleIdentity.scope).Nodup := by
  unfold LoginCheck.identities
  generalize orNone check.ipAddress = address, check.username.bind orNone = username,
    check.factor.bind orNone = factor
  cases address <;> cases username <;> cases factor <;> simp [ThrottleIdentity.scope]

theorem evaluateCache_spec {checks : List ThrottleIdentity} {cache : LockCache}
    (hfree : cache identity.cacheKey = none) :
    (evaluateCache now checks cache).2 identity.cacheKey = none ∧
      ∀ decision, (evaluateCache now checks cache).1 = some decision →
        ∃ other ∈ checks, other ≠ identity ∧ decision.scope = some other.scope := by
  induction checks generalizing cache with
  | nil => exact ⟨hfree, nofun⟩
  | cons first rest ih =>
    rw [evaluateCache]
    split
    · obtain ⟨hkept, hden⟩ := ih hfree
      refine ⟨hkept, fun decision hdec => ?_⟩
      obtain ⟨other, hother, hspec⟩ := hden decision hdec
      exact ⟨other, mem_cons_of_mem first hother, hspec⟩
    · rename_i expiry hget
      split
      · refine ⟨hfree, fun decision hdec => ⟨first, mem_cons_self, ?_, ?_⟩⟩
        · rintro rfl
          rw [LockCache.get, hfree] at hget
          cases hget
        · rw [← Option.some.inj hdec]
          rfl
      · have hdel : (cache.delete first.cacheKey) identity.cacheKey = none := by
          rw [LockCache.delete, Function.update_apply]
          split
          · rfl
          · exact hfree
        obtain ⟨hkept, hden⟩ := ih hdel
        refine ⟨hkept, fun decision hdec => ?_⟩
        obtain ⟨other, hother, hspec⟩ := hden decision hdec
        exact ⟨other, mem_cons_of_mem first hother, hspec⟩

theorem evaluateRecords_scope {throttles : Throttles} {checks : List ThrottleIdentity}
    {cache : LockCache} (hfree : throttles.lockedUntil identity = none) :
    (evaluateRecords now throttles checks cache).1.scope = none ∨
      ∃ other ∈ checks, other ≠ identity ∧
        (evaluateRecords now throttles checks cache).1.scope = some other.scope := by
  induction checks with
  | nil => exact .inl rfl
  | cons first rest ih =>
    rw [evaluateRecords]
    split
    · rcases ih with hnone | ⟨other, hother, hspec⟩
      · exact .inl hnone
      · exact .inr ⟨other, mem_cons_of_mem first hother, hspec⟩
    · rename_i lock hlock
      refine .inr ⟨first, mem_cons_self, ?_, rfl⟩
      rintro rfl
      rw [hfree] at hlock
      cases hlock

/-- **Where no lock of a record is left, no evaluation denies for it.** -/
theorem evaluate_scope_ne {policy : AuthThrottlePolicy} {banned : String → Bool}
    {check : LoginCheck} {guard : LoginGuard} (hfree : guard.IsFree identity)
    (hmem : identity ∈ check.identities) :
    (evaluate policy banned now check guard).1.scope ≠ some identity.scope := by
  intro hscope
  have hother : ∃ other ∈ check.identities, other ≠ identity ∧ other.scope = identity.scope := by
    obtain ⟨hkept, hden⟩ :=
      @evaluateCache_spec now identity check.identities guard.cache hfree.cached
    rw [evaluate] at hscope
    split at hscope
    · cases identity <;> cases hscope
    split at hscope
    · split at hscope
      · rename_i decision _ heq
        rw [heq] at hden
        obtain ⟨other, hother, hne, hspec⟩ := hden decision rfl
        exact ⟨other, hother, hne, Option.some.inj (hspec.symm.trans hscope)⟩
      · rename_i cache _
        have hrecords := @evaluateRecords_scope now identity guard.throttles check.identities
          cache hfree.record
        rcases hrecords with hnone | ⟨other, hother, hne, hspec⟩
        · exact absurd (hnone.symm.trans hscope) nofun
        · exact ⟨other, hother, hne, Option.some.inj (hspec.symm.trans hscope)⟩
    · cases hscope
  obtain ⟨other, hmemOther, hne, hsame⟩ := hother
  exact hne (inj_on_of_nodup_map check.nodup_scopes hmemOther hmem hsame)

end

end Cfms.Security
