import Cfms.Lib.Run
import Cfms.Security.LoginGuard

/-!
# How long a lock lasts

A request that was admitted before a lock was set may fail after it.  A failure in the window of a
locked record locks it for longer.  A failure after the window has run out starts the count again,
and unless one failure is enough to lock, it takes the lock away, however long the lock had still to
go.  For an account the pause that resets the count does the same, and with a threshold of one it
starts again with the shortest delay.

`Respects` says that this does not happen to a locked record.  The runs that never shorten a lock
are those whose steps all do.
-/

namespace Cfms.Security

open Lib Lib.Run Option

/-! ### Runs -/

/-- The guard, and the instant of the last step. -/
structure GuardState where
  guard : LoginGuard
  clock : ℚ

inductive GuardAction
  | failure (failure : FailedLogin)
  | purge
  deriving DecidableEq

variable (policy : AuthThrottlePolicy) (s : GuardState)

/-- A step at an instant; instants do not go back. -/
def guardStep (step : ℚ × GuardAction) : Option GuardState :=
  if s.clock ≤ step.1 then
    match step.2 with
    | .failure failure => some ⟨(reportFailure policy step.1 failure s.guard).1, step.1⟩
    | .purge => some ⟨⟨purgeExpired policy step.1 s.guard.throttles, s.guard.cache⟩, step.1⟩
  else none

def GuardState.start (instant : ℚ) : GuardState := ⟨⟨Throttles.empty, fun _ => none⟩, instant⟩

def GuardState.lockedUntil (s : GuardState) (identity : ThrottleIdentity) : Option ℚ :=
  s.guard.throttles.lockedUntil identity

/-- A record that is locked until `u` somewhere in the run is locked at least until `u` after the
steps that follow before `u`. -/
def NeverShortens (actions : List (ℚ × GuardAction)) : Prop :=
  ∀ front middle back, actions = front ++ middle ++ back → ∀ before after,
    run (guardStep policy) s front = some before →
      run (guardStep policy) before middle = some after →
        ∀ identity u, before.lockedUntil identity = some u → (∀ step ∈ middle, step.1 < u) →
          ∃ u', after.lockedUntil identity = some u' ∧ u ≤ u'

/-! ### One record -/

variable (now : ℚ)

/-- A lock that is still to go at an instant does not become shorter. -/
def KeepsLock (before after : Option ℚ) : Prop :=
  ∀ u, before = some u → now < u → ∃ u', after = some u' ∧ u ≤ u'

/-- What a lock says about its record. -/
structure WindowThrottle.Sound (threshold blockSeconds : ℕ) (clock : ℚ) (record : WindowThrottle) :
    Prop where
  past : record.lastAttempt ≤ clock
  locked : ∀ u, record.lockedUntil = some u →
    threshold ≤ record.failedAttempts ∧ u = record.lastAttempt + blockSeconds

structure AccountThrottle.Sound (clock : ℚ) (record : AccountThrottle) : Prop where
  past : record.lastAttempt ≤ clock
  locked : ∀ u, record.lockedUntil = some u →
    policy.accountFailureThreshold ≤ record.failedAttempts ∧
      u = record.lastAttempt + policy.delay record.failedAttempts

/-- A failure does not find the record locked with its window run out, unless one failure locks. -/
def WindowThrottle.Respects (record : WindowThrottle) (now : ℚ) (threshold windowSeconds : ℕ) :
    Prop :=
  ∀ u, record.lockedUntil = some u → now < u →
    now < record.windowStartedAt + windowSeconds ∨ threshold = 1

/-- A failure does not find the record locked with its count reset, unless one failure locks for
long enough. -/
def AccountThrottle.Respects (record : AccountThrottle) (now : ℚ) (policy : AuthThrottlePolicy) :
    Prop :=
  ∀ u, record.lockedUntil = some u → now < u →
    now < record.lastAttempt + (policy.accountResetSeconds : ℕ) ∨
      policy.accountFailureThreshold = 1 ∧ u ≤ now + (policy.accountBaseDelaySeconds : ℕ)

instance (record : WindowThrottle) (now : ℚ) (threshold windowSeconds : ℕ) :
    Decidable (record.Respects now threshold windowSeconds) :=
  decidable_of_iff (∀ u ∈ record.lockedUntil, now < u →
    now < record.windowStartedAt + windowSeconds ∨ threshold = 1) Iff.rfl

instance (record : AccountThrottle) (now : ℚ) (policy : AuthThrottlePolicy) :
    Decidable (record.Respects now policy) :=
  decidable_of_iff (∀ u ∈ record.lockedUntil, now < u →
    now < record.lastAttempt + (policy.accountResetSeconds : ℕ) ∨
      policy.accountFailureThreshold = 1 ∧ u ≤ now + (policy.accountBaseDelaySeconds : ℕ)) Iff.rfl

section

variable {policy : AuthThrottlePolicy} {clock now : ℚ} {threshold windowSeconds blockSeconds : ℕ}

theorem WindowThrottle.sound_updateFixedWindow (record : WindowThrottle) :
    (record.updateFixedWindow now threshold windowSeconds blockSeconds).Sound threshold
      blockSeconds now := by
  refine ⟨le_refl now, ?_⟩
  intro u hu
  obtain ⟨hle, hlock⟩ := ite_none_right_eq_some.mp hu
  exact ⟨hle, (some.inj hlock).symm⟩

theorem AccountThrottle.sound_updateAccount (record : AccountThrottle) :
    (record.updateAccount now policy).Sound policy now := by
  refine ⟨le_refl now, ?_⟩
  intro u hu
  obtain ⟨hle, hlock⟩ := ite_none_right_eq_some.mp hu
  exact ⟨hle, (some.inj hlock).symm⟩

variable {record : WindowThrottle}

theorem WindowThrottle.Sound.mono
    (h : record.Sound threshold blockSeconds clock) (hclock : clock ≤ now) :
    record.Sound threshold blockSeconds now :=
  ⟨h.past.trans hclock, h.locked⟩

theorem AccountThrottle.Sound.mono {record : AccountThrottle} (h : record.Sound policy clock)
    (hclock : clock ≤ now) : record.Sound policy now :=
  ⟨h.past.trans hclock, h.locked⟩

theorem AuthThrottlePolicy.delay_mono {m n : ℕ} (h : m ≤ n) : policy.delay m ≤ policy.delay n := by
  have hexponent : 2 ^ (m - policy.accountFailureThreshold) ≤
      2 ^ (n - (policy.accountFailureThreshold : ℕ)) := Nat.pow_le_pow_right (by omega) (by omega)
  exact min_le_min_right _ (Nat.mul_le_mul_left _ hexponent)

/-- **A failure keeps the lock of an address record exactly when it respects it.** -/
theorem WindowThrottle.keepsLock_iff (hthreshold : 0 < threshold)
    (hsound : record.Sound threshold blockSeconds clock) (hclock : clock ≤ now) :
    KeepsLock now record.lockedUntil
        (record.updateFixedWindow now threshold windowSeconds blockSeconds).lockedUntil ↔
      record.Respects now threshold windowSeconds := by
  refine forall_congr' fun u => imp_congr_right fun hu => imp_congr_right fun hnow => ?_
  obtain ⟨hatts, rfl⟩ := hsound.locked u hu
  have hlong : record.lastAttempt + (blockSeconds : ℚ) ≤ now + blockSeconds := by
    have := hsound.past
    linarith
  simp only [WindowThrottle.updateFixedWindow]
  by_cases hrestart : record.windowStartedAt + windowSeconds ≤ now
  · -- the window has run out: the count starts again
    rw [if_pos hrestart]
    by_cases hone : threshold = 1
    · subst hone
      exact iff_of_true ⟨_, if_pos (le_refl 1), hlong⟩ (.inr rfl)
    · have hmore : ¬ threshold ≤ 1 := by omega
      rw [if_neg hmore]
      refine iff_of_false (by rintro ⟨_, hnone, -⟩; cases hnone) ?_
      rintro (hearlier | hsame)
      · exact absurd hrestart (not_le.mpr hearlier)
      · exact hone hsame
  · rw [if_neg hrestart]
    have hreach : threshold ≤ record.failedAttempts + 1 := by omega
    exact iff_of_true ⟨_, if_pos hreach, hlong⟩ (.inl (not_le.mp hrestart))

/-- **A failure keeps the lock of an account record exactly when it respects it.** -/
theorem AccountThrottle.keepsLock_iff {record : AccountThrottle}
    (hsound : record.Sound policy clock) (hclock : clock ≤ now) :
    KeepsLock now record.lockedUntil (record.updateAccount now policy).lockedUntil ↔
      record.Respects now policy := by
  refine forall_congr' fun u => imp_congr_right fun hu => imp_congr_right fun hnow => ?_
  obtain ⟨hatts, rfl⟩ := hsound.locked u hu
  have hpast := hsound.past
  have hthreshold : 0 < (policy.accountFailureThreshold : ℕ) := policy.accountFailureThreshold.pos
  simp only [AccountThrottle.updateAccount]
  by_cases hreset : record.lastAttempt + (policy.accountResetSeconds : ℕ) ≤ now
  · rw [if_pos hreset]
    by_cases hone : policy.accountFailureThreshold = 1
    · have hle : (policy.accountFailureThreshold : ℕ) ≤ 1 := by rw [hone]; exact le_refl 1
      have hbase : policy.delay 1 = policy.accountBaseDelaySeconds := by
        unfold AuthThrottlePolicy.delay
        rw [hone]
        simpa using policy.base_le_max
      rw [if_pos hle, hbase]
      constructor
      · rintro ⟨u', hu', hle'⟩
        exact .inr ⟨hone, (some.inj hu') ▸ hle'⟩
      · rintro (hearlier | ⟨-, henough⟩)
        · exact absurd hreset (not_le.mpr hearlier)
        · exact ⟨_, rfl, henough⟩
    · have hmore : ¬ (policy.accountFailureThreshold : ℕ) ≤ 1 := by
        intro hle
        exact hone (PNat.coe_injective (Nat.le_antisymm hle hthreshold))
      rw [if_neg hmore]
      refine iff_of_false (by rintro ⟨_, hnone, -⟩; cases hnone) ?_
      rintro (hearlier | ⟨hsame, -⟩)
      · exact absurd hreset (not_le.mpr hearlier)
      · exact hone hsame
  · rw [if_neg hreset]
    have hreach : (policy.accountFailureThreshold : ℕ) ≤ record.failedAttempts + 1 := by omega
    have hdelay : (policy.delay record.failedAttempts : ℚ) ≤
        policy.delay (record.failedAttempts + 1) :=
      Nat.cast_le.mpr (policy.delay_mono (Nat.le_succ _))
    refine iff_of_true ⟨_, if_pos hreach, ?_⟩ (.inl (not_le.mp hreset))
    linarith

end

/-! ### The guard -/

structure GuardState.Sound : Prop where
  traffic : ∀ key record, s.guard.throttles.traffic.lookup key = some record →
    record.Sound policy.ipFailureThreshold policy.ipBlockSeconds s.clock
  accounts : ∀ key record, s.guard.throttles.accounts.lookup key = some record →
    record.Sound policy s.clock
  logins : ∀ key record, s.guard.throttles.logins.lookup key = some record →
    record.Sound policy.accountIpFailureThreshold policy.accountIpBlockSeconds s.clock

structure GuardState.RespectsFailure (failure : FailedLogin) : Prop where
  traffic : ∀ record, s.guard.throttles.traffic.lookup failure.ipAddress = some record →
    record.Respects now policy.ipFailureThreshold policy.ipWindowSeconds
  accounts : ∀ record,
    s.guard.throttles.accounts.lookup (failure.username, failure.factor) = some record →
      record.Respects now policy
  logins : ∀ record,
    s.guard.throttles.logins.lookup (failure.username, failure.ipAddress) = some record →
      record.Respects now policy.accountIpFailureThreshold policy.accountIpWindowSeconds

instance (policy : AuthThrottlePolicy) (s : GuardState) (now : ℚ) (failure : FailedLogin) :
    Decidable (s.RespectsFailure policy now failure) :=
  decidable_of_iff
    ((∀ record ∈ s.guard.throttles.traffic.lookup failure.ipAddress,
        record.Respects now policy.ipFailureThreshold policy.ipWindowSeconds) ∧
      (∀ record ∈ s.guard.throttles.accounts.lookup (failure.username, failure.factor),
        record.Respects now policy) ∧
      ∀ record ∈ s.guard.throttles.logins.lookup (failure.username, failure.ipAddress),
        record.Respects now policy.accountIpFailureThreshold policy.accountIpWindowSeconds)
    ⟨fun h => ⟨h.1, h.2.1, h.2.2⟩, fun h => ⟨h.traffic, h.accounts, h.logins⟩⟩

/-- A failure respects the locks; where throttling is off nothing is counted. -/
def Respects : ℚ × GuardAction → Prop
  | (now, .failure failure) => policy.enabled = true → s.RespectsFailure policy now failure
  | (_, .purge) => True

instance (policy : AuthThrottlePolicy) (s : GuardState) :
    (step : ℚ × GuardAction) → Decidable (Respects policy s step)
  | (now, .failure failure) =>
    inferInstanceAs (Decidable (policy.enabled = true → s.RespectsFailure policy now failure))
  | (_, .purge) => inferInstanceAs (Decidable True)

/-- A step keeps the locks that are still to go. -/
def KeepsLocks (s s' : GuardState) : Prop :=
  ∀ identity, KeepsLock now (s.lockedUntil identity) (s'.lockedUntil identity)

section

variable {policy : AuthThrottlePolicy} {s s' : GuardState} {now : ℚ} {action : GuardAction}

theorem guardStep_cases (h : guardStep policy s (now, action) = some s') :
    s.clock ≤ now ∧ s'.clock = now ∧
      ((∃ err, action = .failure err ∧ policy.enabled = true ∧
          s'.guard.throttles = countFailure policy now err s.guard.throttles) ∨
        (∃ err, action = .failure err ∧ policy.enabled = false ∧
          s'.guard.throttles = s.guard.throttles) ∨
        (action = .purge ∧ s'.guard.throttles = purgeExpired policy now s.guard.throttles)) := by
  obtain ⟨hclock, hstep⟩ := ite_none_right_eq_some.mp h
  refine ⟨hclock, ?_⟩
  cases action with
  | failure err =>
    cases hstep
    refine ⟨rfl, ?_⟩
    have hthr := @reportFailure_throttles policy now err s.guard
    cases hen : policy.enabled with
    | true =>
      rw [hen] at hthr
      exact .inl ⟨err, rfl, rfl, hthr⟩
    | false =>
      rw [hen] at hthr
      exact .inr (.inl ⟨err, rfl, rfl, hthr⟩)
  | purge =>
    cases hstep
    exact ⟨rfl, .inr (.inr ⟨rfl, rfl⟩)⟩

theorem GuardState.sound_start (instant : ℚ) : (GuardState.start instant).Sound policy :=
  ⟨fun _ _ h => absurd h Table.lookup_empty_ne_some,
    fun _ _ h => absurd h Table.lookup_empty_ne_some,
    fun _ _ h => absurd h Table.lookup_empty_ne_some⟩

/-- **Steps keep the records sound.** -/
theorem GuardState.Sound.step (hsound : s.Sound policy)
    (h : guardStep policy s (now, action) = some s') : s'.Sound policy := by
  obtain ⟨hclock, hnow, hcases⟩ := guardStep_cases h
  have htraffic := fun key record hrec => (hsound.traffic key record hrec).mono hclock
  have haccts := fun key record hrec => (hsound.accounts key record hrec).mono hclock
  have hlogins := fun key record hrec => (hsound.logins key record hrec).mono hclock
  rcases hcases with ⟨err, -, -, hthr⟩ | ⟨err, -, -, hthr⟩ | ⟨-, hthr⟩
  · refine ⟨?_, ?_, ?_⟩ <;> rw [hthr, hnow]
    · exact Table.forall_insert (WindowThrottle.sound_updateFixedWindow _) htraffic
    · exact Table.forall_insert (AccountThrottle.sound_updateAccount _) haccts
    · exact Table.forall_insert (WindowThrottle.sound_updateFixedWindow _) hlogins
  · refine ⟨?_, ?_, ?_⟩ <;> rw [hthr, hnow]
    · exact htraffic
    · exact haccts
    · exact hlogins
  · refine ⟨?_, ?_, ?_⟩ <;> rw [hthr, hnow]
    · exact Table.forall_delete htraffic
    · exact Table.forall_delete haccts
    · exact Table.forall_delete hlogins

theorem keepsLock_refl (lock : Option ℚ) : KeepsLock now lock lock :=
  fun u hu _ => ⟨u, hu, le_refl u⟩

variable {κ ρ : Type} {table : Table κ ρ} {key : κ}

theorem keepsLock_of_lookup [DecidableEq κ] {table : Table κ ρ} {key : κ}
    {lockedUntil : ρ → Option ℚ} {after : Option ℚ} :
    KeepsLock now ((table.lookup key).bind lockedUntil) after ↔
      ∀ record, table.lookup key = some record → KeepsLock now (lockedUntil record) after := by
  cases table.lookup key with
  | none => exact iff_of_true nofun nofun
  | some record =>
    constructor
    · rintro h _ heq
      cases heq
      exact h
    · intro h
      exact h record rfl

theorem keepsLock_delete [DecidableEq κ] {table : Table κ ρ} {key : κ}
    {lockedUntil : ρ → Option ℚ} {old : ρ → Bool} :
    KeepsLock now ((table.lookup key).bind lockedUntil) (((table.delete fun _ record =>
        old record && (lockedUntil record).all fun u => u ≤ now).lookup key).bind lockedUntil) := by
  intro u hu hnow
  obtain ⟨record, hrec, hlock⟩ := bind_eq_some_iff.mp hu
  refine ⟨u, bind_eq_some_iff.mpr ⟨record, ?_, hlock⟩, le_refl u⟩
  refine Table.lookup_delete_eq_some.mpr ⟨hrec, ?_⟩
  rw [hlock, all_some, decide_eq_false (not_le.mpr hnow), Bool.and_false]

theorem keepsLocks_purge {throttles : Throttles} (identity : ThrottleIdentity) :
    KeepsLock now (throttles.lockedUntil identity)
      ((purgeExpired policy now throttles).lockedUntil identity) := by
  cases identity with
  | ip ipAddress | account username factor | accountIp username ipAddress => exact keepsLock_delete

variable (hsound : s.Sound policy)

include hsound

theorem keepsLocks_countFailure_iff (hclock : s.clock ≤ now)
    {err : FailedLogin} :
    (∀ identity, KeepsLock now (s.lockedUntil identity)
        ((countFailure policy now err s.guard.throttles).lockedUntil identity)) ↔
      s.RespectsFailure policy now err := by
  have hip : KeepsLock now (s.lockedUntil (.ip err.ipAddress))
      (trafficAfter policy now err s.guard.throttles).lockedUntil ↔
        ∀ record, s.guard.throttles.traffic.lookup err.ipAddress = some record →
          record.Respects now policy.ipFailureThreshold policy.ipWindowSeconds := by
    refine keepsLock_of_lookup.trans (forall_congr' fun record => imp_congr_right fun hrec => ?_)
    rw [trafficAfter, hrec]
    exact WindowThrottle.keepsLock_iff policy.ipFailureThreshold.pos
      (hsound.traffic _ record hrec) hclock
  have hacct : KeepsLock now (s.lockedUntil (.account err.username err.factor))
      (accountAfter policy now err s.guard.throttles).lockedUntil ↔
        ∀ record,
          s.guard.throttles.accounts.lookup (err.username, err.factor) = some record →
            record.Respects now policy := by
    refine keepsLock_of_lookup.trans (forall_congr' fun record => imp_congr_right fun hrec => ?_)
    rw [accountAfter, hrec]
    exact AccountThrottle.keepsLock_iff (hsound.accounts _ record hrec) hclock
  have hlogin : KeepsLock now (s.lockedUntil (.accountIp err.username err.ipAddress))
      (loginAfter policy now err s.guard.throttles).lockedUntil ↔
        ∀ record,
          s.guard.throttles.logins.lookup (err.username, err.ipAddress) = some record →
            record.Respects now policy.accountIpFailureThreshold policy.accountIpWindowSeconds := by
    refine keepsLock_of_lookup.trans (forall_congr' fun record => imp_congr_right fun hrec => ?_)
    rw [loginAfter, hrec]
    exact WindowThrottle.keepsLock_iff policy.accountIpFailureThreshold.pos
      (hsound.logins _ record hrec) hclock
  constructor
  · intro h
    constructor
    · rw [← hip, ← lockedUntil_countFailure_ip]
      exact h _
    · rw [← hacct, ← lockedUntil_countFailure_account]
      exact h _
    · rw [← hlogin, ← lockedUntil_countFailure_accountIp]
      exact h _
  · intro h identity
    by_cases hmem : identity ∈ err.identities
    · rw [FailedLogin.identities, List.mem_cons, List.mem_cons, List.mem_singleton] at hmem
      rcases hmem with rfl | rfl | rfl
      · rw [lockedUntil_countFailure_ip]
        exact hip.mpr h.traffic
      · rw [lockedUntil_countFailure_account]
        exact hacct.mpr h.accounts
      · rw [lockedUntil_countFailure_accountIp]
        exact hlogin.mpr h.logins
    · rw [lockedUntil_countFailure_of_notMem hmem]
      exact keepsLock_refl _

/-- **One step.** -/
theorem keepsLocks_iff (h : guardStep policy s (now, action) = some s') :
    KeepsLocks now s s' ↔ Respects policy s (now, action) := by
  obtain ⟨hclock, -, hcases⟩ := guardStep_cases h
  rw [KeepsLocks]
  rcases hcases with
    ⟨err, rfl, hen, hthr⟩ | ⟨err, rfl, hdis, hthr⟩ | ⟨rfl, hthr⟩
  · simp only [Respects, hen, forall_const, GuardState.lockedUntil, hthr]
    exact keepsLocks_countFailure_iff hsound hclock
  · simp only [Respects, hdis, GuardState.lockedUntil, hthr]
    exact iff_of_true (fun _ => keepsLock_refl _) nofun
  · simp only [GuardState.lockedUntil, hthr]
    exact iff_of_true keepsLocks_purge trivial

variable {actions : List (ℚ × GuardAction)}

theorem exists_lock_of_meets {identity : ThrottleIdentity} {u : ℚ}
    (hmeets : Meets (guardStep policy) (Respects policy) s actions)
    (hrun : run (guardStep policy) s actions = some s') (hlock : s.lockedUntil identity = some u)
    (hbef : ∀ step ∈ actions, step.1 < u) :
    ∃ u', s'.lockedUntil identity = some u' ∧ u ≤ u' := by
  induction actions generalizing s u with
  | nil =>
    cases hrun
    exact ⟨u, hlock, le_refl u⟩
  | cons step rest ih =>
    obtain ⟨next, hstep, hrest⟩ := run_cons_eq_some.mp hrun
    have hkeeps := (keepsLocks_iff hsound hstep).mpr hmeets.1
    obtain ⟨u₁, hlock₁, hle₁⟩ := hkeeps identity u hlock (hbef step List.mem_cons_self)
    obtain ⟨u', hlock', hle'⟩ := ih (hsound.step hstep) (hmeets.2 next hstep) hrest hlock₁
      fun later hlater => (hbef later (List.mem_cons_of_mem step hlater)).trans_le hle₁
    exact ⟨u', hlock', hle₁.trans hle'⟩

/-- **A run never shortens a lock exactly when its steps respect the locks.** -/
theorem neverShortens_iff
    (hrun : run (guardStep policy) s actions = some s') :
    NeverShortens policy s actions ↔ Meets (guardStep policy) (Respects policy) s actions := by
  constructor
  · intro h
    induction actions generalizing s with
    | nil => trivial
    | cons step rest ih =>
      obtain ⟨next, hstep, hrest⟩ := run_cons_eq_some.mp hrun
      refine meets_cons hstep ((keepsLocks_iff hsound hstep).mp ?_)
        (ih (hsound.step hstep) hrest ?_)
      · intro identity u hlock hnow
        refine h [] [step] rest rfl s next rfl (run_cons_eq_some.mpr ⟨next, hstep, rfl⟩) identity u
          hlock ?_
        intro only honly
        rw [List.mem_singleton.mp honly]
        exact hnow
      · rintro front middle back rfl before after hfront hmid
        exact h (step :: front) middle back rfl before after
          (run_cons_eq_some.mpr ⟨next, hstep, hfront⟩) hmid
  · rintro hmeets front middle back rfl before after hfront hmid identity u hlock hearlier
    rw [List.append_assoc, meets_append] at hmeets
    have hbef : before.Sound policy :=
      run_invariant (fun _ _ _ hs _ hstep => hs.step hstep) hsound (meets_true front) hfront
    exact exists_lock_of_meets hbef (meets_append.mp (hmeets.2 before hfront)).1 hmid hlock hearlier

omit hsound

end

/-! ### Runs from the start -/

/-- **Failures never shorten a lock exactly when none finds a locked record whose count starts
again.** -/
theorem failures_never_shorten_locks (policy : AuthThrottlePolicy) (instant : ℚ)
    (actions : List (ℚ × GuardAction)) (last : GuardState)
    (hrun : run (guardStep policy) (.start instant) actions = some last) :
    NeverShortens policy (.start instant) actions ↔
      Meets (guardStep policy) (Respects policy) (.start instant) actions :=
  neverShortens_iff (GuardState.sound_start instant) hrun

/-- Two failures of an address in ten seconds lock it for fifteen minutes. -/
def longBlock : AuthThrottlePolicy where
  ipFailureThreshold := 2
  ipWindowSeconds := 10
  ipBlockSeconds := 900
  base_le_max := by decide

/-- One failure locks the account, for every address and for the one that it came from. -/
def quickLocks : AuthThrottlePolicy where
  accountFailureThreshold := 1
  accountIpFailureThreshold := 1
  base_le_max := by decide

/-- A failure of one address with an account. -/
def failureOf (username : String) : GuardAction := .failure ⟨"203.0.113.9", username, "password"⟩

/-- The third failure falls into the window. -/
theorem failures_never_shorten_locks_in_window : NeverShortens longBlock (.start 0)
      [(0, failureOf "alice"), (1, failureOf "bob"), (9, failureOf "carol")] := by
  have hmeets : meetsBool (guardStep longBlock) (fun s step => decide (Respects longBlock s step))
      (.start 0) [(0, failureOf "alice"), (1, failureOf "bob"), (9, failureOf "carol")] = true := by
    decide +kernel
  refine (failures_never_shorten_locks longBlock 0 _ _
    (run_eq_some_getD (.start 0) (by decide +kernel))).mpr ?_
  simpa only [decide_eq_true_eq] using meets_of_meetsBool hmeets

/-- The third failure comes after the window, and the address is no longer locked. -/
theorem failure_takes_lock_away :
    ¬ ∀ policy instant actions, (run (guardStep policy) (.start instant) actions).isSome = true →
      NeverShortens policy (.start instant) actions := by
  intro hall
  have hkept := hall longBlock 0
    [(0, failureOf "alice"), (1, failureOf "bob"), (10, failureOf "carol")] (by decide +kernel)
    [(0, failureOf "alice"), (1, failureOf "bob")] [(10, failureOf "carol")] [] rfl _ _
    (run_eq_some_getD (.start 0) (by decide +kernel))
    (run_eq_some_getD (.start 0) (by decide +kernel)) (.ip "203.0.113.9") 901 (by decide +kernel)
    (by decide +kernel)
  obtain ⟨u', hlock, -⟩ := hkept
  revert hlock
  rw [show GuardState.lockedUntil _ _ = none by decide +kernel]
  nofun

end Cfms.Security
