import Cfms.Access.Model
import Cfms.Identity.Policies

/-!
# Logging in

An account as the authentication code reads it, the three registered providers, and the functions of
`auth/flows.py`, `auth/registry.py`, `auth/password_state.py` and `sessions.py` that a login runs
through.  Each runs in a transaction on the account; an exception is an `AuthError`.

The checks of passwords, one-time codes and signatures belong to libraries and are parameters, as is
the hash function.  Throttling, rate limits and labels are left out.
-/

namespace Cfms.Identity

open List

open Access (Instant)

/-! ### The account -/

inductive UserStatus
  | active
  | disabled
  deriving DecidableEq

structure UserAuthPolicy where
  revision : ℕ
  chains : List AuthChain
  deriving DecidableEq

structure UserPasswordCredential where
  credentialId : String
  passHash : String
  passwdLastModified : Instant
  deriving DecidableEq

structure UserTotpCredential where
  credentialId : String
  /-- The secret and the backup codes, of which `TotpCredential` keeps a list. -/
  secret : String
  enabled : Bool
  deriving DecidableEq

structure UserAuthPublicKey where
  id : String
  publicKeyDer : String
  fingerprint : String
  deriving DecidableEq

structure Account where
  id : String
  status : UserStatus
  secretKey : String
  policies : AuthPurpose → Option UserAuthPolicy
  password : Option UserPasswordCredential
  totp : Option UserTotpCredential
  publicKeys : List UserAuthPublicKey

/-- `policy.revision if policy else 0`. -/
def Account.revision (account : Account) (purpose : AuthPurpose) : ℕ :=
  ((account.policies purpose).map UserAuthPolicy.revision).getD 0

def Account.chains (account : Account) (purpose : AuthPurpose) : List AuthChain :=
  ((account.policies purpose).map UserAuthPolicy.chains).getD []

/-! ### Providers -/

structure AuthMethodProvider where
  methodId : String
  supportedPurposes : List AuthPurpose
  listCredentials : Account → List RegisteredCredential

def passwordAuthProvider : AuthMethodProvider where
  methodId := "password"
  supportedPurposes := [.login, .mfa, .escalation]
  listCredentials account :=
    (account.password.map fun c => (⟨"password", c.credentialId, true, none⟩ :
      RegisteredCredential)).toList

def publicKeyAuthProvider : AuthMethodProvider where
  methodId := "publickey"
  supportedPurposes := [.login, .mfa, .escalation]
  listCredentials account :=
    account.publicKeys.map fun key => ⟨"publickey", key.id, true, some key.fingerprint⟩

def totpAuthProvider : AuthMethodProvider where
  methodId := "totp"
  supportedPurposes := [.mfa, .escalation]
  listCredentials account :=
    (account.totp.map fun c => (⟨"totp", c.credentialId, c.enabled, none⟩ :
      RegisteredCredential)).toList

def authRegistry : List AuthMethodProvider :=
  [passwordAuthProvider, publicKeyAuthProvider, totpAuthProvider]

/-- `AuthRegistry.get`. -/
def getProvider (methodId : String) : Option AuthMethodProvider :=
  authRegistry.find? (·.methodId == methodId)

def Account.credentialsOf (account : Account) (methods : List String) :
    List RegisteredCredential :=
  methods.dedup.flatMap fun method =>
    ((getProvider method).map (·.listCredentials account)).getD []

/-- A chain that `evaluate_user_policy` considers. -/
def isEligible (purpose : AuthPurpose) (method excludedMethod : Option String) (chain : AuthChain) :
    Bool :=
  chain.isSingleMethod && method.all (· == chain.head.method) &&
    excludedMethod.all (· != chain.head.method) &&
    (getProvider chain.head.method).any (·.supportedPurposes.contains purpose)

def evaluateUserPolicy (account : Account) (purpose : AuthPurpose) (evidence : List AuthEvidence)
    (attemptId : String) (method excludedMethod : Option String) : AuthPolicyDecision :=
  let chains := account.chains purpose
  let eligible := chains.filter (isEligible purpose method excludedMethod)
  if !chains.isEmpty && eligible.isEmpty then { satisfied := false }
  else
    evaluateAuthPolicy
      (account.credentialsOf (eligible.map (·.head.method) ++ evidence.map AuthEvidence.method))
      purpose eligible evidence account.id attemptId

/-! ### The context of an attempt -/

inductive AuthError
  /-- `AuthenticationFailure`. -/
  | failure (code : ℕ) (message : String)
  /-- `InvalidAuthenticationAttempt`. -/
  | invalid (message : String)
  /-- A failed assertion. -/
  | assertion
  deriving DecidableEq

structure AuthenticationContext where
  attemptId : String
  loginMethod : Option String
  signingKeyDigest : String
  loginRevision : ℕ
  mfaRevision : ℕ
  escalationRevision : ℕ
  evidence : List AuthEvidence := []
  deriving DecidableEq

def AuthenticationContext.revision (context : AuthenticationContext) : AuthPurpose → ℕ
  | .login => context.loginRevision
  | .mfa => context.mfaRevision
  | .escalation => context.escalationRevision

structure PasswordAssessment where
  credentialId : String
  modifiedAt : Instant
  policyDigest : String
  rulesSatisfied : Bool
  deriving DecidableEq

/-- The hash function, the lifetime of a token, the password policy, and the checks of the libraries:
of a stored hash or secret, which the check may leave changed, and of a signature. -/
structure AuthConfig where
  sha256 : String → String
  tokenExpirySeconds : Instant
  passwordPolicyDigest : String
  passwordRules : String → Bool
  forceExpiration : Bool
  expireAfterSeconds : Instant
  checkPassword : String → String → Option String
  checkTotp : String → String → Option String
  checkSignature : String → String → String → Bool

variable (config : AuthConfig)

/-- `create_authentication_context`, with the attempt id it draws. -/
def createAuthenticationContext (account : Account) (purpose : AuthPurpose)
    (method attemptId : String) : AuthenticationContext where
  attemptId := attemptId
  loginMethod := if purpose = .login then some method else none
  signingKeyDigest := config.sha256 account.secretKey
  loginRevision := if purpose = .escalation then 0 else account.revision .login
  mfaRevision := if purpose = .escalation then 0 else account.revision .mfa
  escalationRevision := if purpose = .escalation then account.revision .escalation else 0

def validateAuthenticationContext (account : Account) (context : AuthenticationContext)
    (purposes : List AuthPurpose) : Except AuthError Unit :=
  if context.signingKeyDigest ≠ config.sha256 account.secretKey then
    throw (.invalid "Authentication credentials changed; restart authentication")
  else if purposes.any fun purpose => account.revision purpose != context.revision purpose then
    throw (.invalid "Authentication policy changed; restart authentication")
  else if !evidenceIsValid (account.credentialsOf (context.evidence.map AuthEvidence.method))
      context.evidence account.id context.attemptId then
    throw (.invalid "Authentication credentials changed; restart authentication")
  else pure ()

/-- The part of `get_login_progress` after the context is found valid. -/
def loginProgress (account : Account) (context : AuthenticationContext) (loginMethod : String) :
    Except AuthError AuthPolicyDecision :=
  let login := evaluateUserPolicy account .login
    (context.evidence.filter (·.method == loginMethod)) context.attemptId (some loginMethod) none
  if !login.satisfied then pure { login with purpose := some .login }
  else
    let mfaEvidence := context.evidence.filter (·.method != loginMethod)
    if (mfaEvidence.map AuthEvidence.method).dedup.length > 1 then
      throw (.invalid "MFA must use one method")
    else
      pure { evaluateUserPolicy account .mfa mfaEvidence context.attemptId
          (mfaEvidence.head?.map AuthEvidence.method) (some loginMethod) with
        purpose := some .mfa }

def getLoginProgress (account : Account) (context : AuthenticationContext) :
    Except AuthError AuthPolicyDecision := do
  validateAuthenticationContext config account context [.login, .mfa]
  match context.loginMethod with
  | none => throw (.invalid "Login method missing; restart login")
  | some loginMethod => loginProgress account context loginMethod

/-! ### Attempts -/

structure AuthVerificationResult where
  success : Bool
  credentialId : Option String := none
  passwordAssessment : Option PasswordAssessment := none
  deriving DecidableEq

structure AuthenticationAttempt where
  method : String
  purpose : AuthPurpose
  context : Option AuthenticationContext := none
  expiresAt : Option Instant := none
  passwordAssessment : Option PasswordAssessment := none
  deriving DecidableEq

/-- The context, which is asserted to be there. -/
def AuthenticationAttempt.boundContext (attempt : AuthenticationAttempt) :
    Except AuthError AuthenticationContext :=
  match attempt.context with
  | none => throw .assertion
  | some context => pure context

def AuthenticationAttempt.checkExpiry (attempt : AuthenticationAttempt) (now : Instant) :
    Except AuthError Unit :=
  if attempt.expiresAt.any (· ≤ now) then
    throw (.invalid "Authentication expired; restart authentication")
  else pure ()

def AuthenticationAttempt.bind (attempt : AuthenticationAttempt) (account : Account) (now : Instant)
    (attemptId : String) : Except AuthError AuthenticationAttempt := do
  attempt.checkExpiry now
  match attempt.context with
  | some _ => pure attempt
  | none =>
    if attempt.purpose = .mfa then
      throw (.invalid "Authentication context missing; restart login")
    else
      pure { attempt with
        context := some
          (createAuthenticationContext config account attempt.purpose attempt.method attemptId) }

def AuthenticationAttempt.progress (attempt : AuthenticationAttempt) (account : Account)
    (now : Instant) : Except AuthError AuthPolicyDecision := do
  attempt.checkExpiry now
  let context ← attempt.boundContext
  if attempt.purpose = .escalation then do
    validateAuthenticationContext config account context [.escalation]
    pure (evaluateUserPolicy account .escalation context.evidence context.attemptId
      (some attempt.method) none)
  else do
    let progress ← getLoginProgress config account context
    if attempt.purpose = .mfa ∧ some attempt.method = context.loginMethod then
      throw (.failure 403 "MFA must use a different authentication method")
    else pure progress

def AuthenticationAttempt.permittedCredentials (attempt : AuthenticationAttempt) (account : Account)
    (now : Instant) : Except AuthError (List String) := do
  let progress ← attempt.progress config account now
  if progress.satisfied || progress.purpose.any (· != attempt.purpose) then
    throw (.failure 403 "Authentication stage is not pending")
  else
    pure ((progress.nextSteps.filter (·.method == attempt.method)).flatMap AuthStep.credentialIds)

/-- The attempt with one more piece of evidence. -/
def AuthenticationAttempt.withEvidence (attempt : AuthenticationAttempt)
    (context : AuthenticationContext) (event : AuthEvidence)
    (assessment : Option PasswordAssessment) : AuthenticationAttempt :=
  { attempt with
    context := some { context with evidence := context.evidence ++ [event] }
    passwordAssessment := assessment.or attempt.passwordAssessment }

/-- The event that an accepted verification adds. -/
def AuthenticationAttempt.event (attempt : AuthenticationAttempt) (account : Account)
    (context : AuthenticationContext) (credentialId eventId : String) : AuthEvidence :=
  ⟨account.id, context.attemptId, eventId, attempt.method, credentialId⟩

/-- `accept`; the credential of a successful verification must be permitted. -/
def AuthenticationAttempt.accept (attempt : AuthenticationAttempt) (account : Account)
    (now : Instant) (verified : AuthVerificationResult) (eventId : String) :
    Except AuthError (AuthenticationAttempt × AuthPolicyDecision) :=
  match verified.success, verified.credentialId with
  | true, some credentialId => do
    let permitted ← attempt.permittedCredentials config account now
    if !permitted.contains credentialId then throw (.failure 401 "Invalid credentials")
    else if account.status ≠ .active then throw (.failure 4003 "User account is not active")
    else do
      let context ← attempt.boundContext
      let accepted := attempt.withEvidence context
        (attempt.event account context credentialId eventId) verified.passwordAssessment
      let progress ← accepted.progress config account now
      pure (accepted, progress)
  | _, _ => throw (.failure 401 "Invalid credentials")

/-! ### The credentials of an account -/

def Account.providerCredentials (account : Account) (method : String) :
    List RegisteredCredential :=
  ((getProvider method).map (·.listCredentials account)).getD []

variable {method : String}

theorem method_of_mem_providerCredentials {account : Account}
    {cred : RegisteredCredential} (h : cred ∈ account.providerCredentials method) :
    cred.method = method := by
  unfold Account.providerCredentials at h
  cases hprov : getProvider method with
  | none =>
    rw [hprov] at h
    cases h
  | some provider =>
    rw [hprov] at h
    have hfound : (provider.methodId == method) = true :=
      find?_some (p := fun p : AuthMethodProvider => p.methodId == method) hprov
    have hid : provider.methodId = method := beq_iff_eq.mp hfound
    rw [← hid]
    have hmem : provider ∈ authRegistry := mem_of_find?_eq_some hprov
    simp only [authRegistry, mem_cons, not_mem_nil, or_false] at hmem
    rcases hmem with rfl | rfl | rfl
    · obtain ⟨_, -, rfl⟩ := by
        simpa [passwordAuthProvider] using h
      rfl
    · obtain ⟨_, -, rfl⟩ := by
        simpa [publicKeyAuthProvider] using h
      rfl
    · obtain ⟨_, -, rfl⟩ := by
        simpa [totpAuthProvider] using h
      rfl

variable {methods : List String}

theorem filter_method_flatMap (account : Account) (method : String) (hnodup : methods.Nodup) :
    (methods.flatMap account.providerCredentials).filter (·.method == method) =
      if method ∈ methods then account.providerCredentials method else [] := by
  induction methods with
  | nil => rfl
  | cons first rest ih =>
    obtain ⟨hnew, hrest⟩ := nodup_cons.mp hnodup
    rw [flatMap_cons, filter_append, ih hrest]
    by_cases heq : first = method
    · subst heq
      rw [if_neg hnew, if_pos mem_cons_self, append_nil, filter_eq_self]
      intro cred hmem
      exact beq_iff_eq.mpr (method_of_mem_providerCredentials hmem)
    · have hnone : (account.providerCredentials first).filter (·.method == method) = [] := by
        rw [filter_eq_nil_iff]
        intro cred hmem hmeth
        exact heq ((method_of_mem_providerCredentials hmem).symm.trans (beq_iff_eq.mp hmeth))
      rw [hnone]
      simp [Ne.symm heq]

theorem activeCredential_filter (creds : List RegisteredCredential) (method credId : String) :
    activeCredential (creds.filter (·.method == method)) method credId =
      activeCredential creds method credId := by
  unfold activeCredential
  rw [← filter_reverse, find?_filter]
  congr 1
  funext cred
  by_cases hmeth : cred.method = method <;> simp [hmeth, Bool.beq_eq_decide_eq]

def Account.listUserCredentials (account : Account) : List RegisteredCredential :=
  authRegistry.flatMap (·.listCredentials account)

/-- The active credential of a method is the same among all credentials of the account and among
those of some methods with this one. -/
theorem activeCredential_credentialsOf (account : Account)
    (h : method ∈ methods) (credId : String) :
    activeCredential (account.credentialsOf methods) method credId =
      activeCredential (account.providerCredentials method) method credId := by
  rw [← activeCredential_filter (account.credentialsOf methods)]
  congr 1
  exact (filter_method_flatMap account method (nodup_dedup methods)).trans
    (if_pos (mem_dedup.mpr h))

theorem activeCredential_listUserCredentials (account : Account) (method credId : String) :
    activeCredential account.listUserCredentials method credId =
      activeCredential (account.providerCredentials method) method credId := by
  rw [← activeCredential_filter account.listUserCredentials]
  congr 1
  have hnodup : (["password", "publickey", "totp"] : List String).Nodup := by decide
  refine (filter_method_flatMap account method hnodup).trans ?_
  split
  · rfl
  rename_i hunknown
  simp only [mem_cons, not_mem_nil, or_false, not_or] at hunknown
  obtain ⟨hpass, hpub, htotp⟩ := hunknown
  have hnone : getProvider method = none := by
    simp [getProvider, authRegistry, passwordAuthProvider, publicKeyAuthProvider,
      totpAuthProvider, Ne.symm hpass, Ne.symm hpub, Ne.symm htotp]
  rw [Account.providerCredentials, hnone]
  rfl

/-! ### What the transactions of an attempt return -/

theorem bind_eq_ok {ε α β : Type} {x : Except ε α} {f : α → Except ε β} {result : β} :
    (x >>= f) = .ok result ↔ ∃ a, x = .ok a ∧ f a = .ok result := by
  cases x with
  | error e => exact ⟨nofun, by rintro ⟨_, h, -⟩; cases h⟩
  | ok a => exact ⟨fun h => ⟨a, rfl, h⟩, by rintro ⟨_, ha, h⟩; cases ha; exact h⟩

section

variable {config} {account : Account} {attempt attempt' : AuthenticationAttempt}
  {context : AuthenticationContext} {now : Instant}

theorem boundContext_ok (h : attempt.boundContext = .ok context) :
    attempt.context = some context := by
  unfold AuthenticationAttempt.boundContext at h
  split at h
  · cases h
  rename_i bound hbound
  cases h
  exact hbound

theorem bind_ok {attemptId : String} (h : attempt.bind config account now attemptId = .ok attempt') :
    (attempt.context.isSome ∧ attempt' = attempt) ∨
      (attempt.context = none ∧ attempt.purpose ≠ .mfa ∧ attempt' = { attempt with
        context := some
          (createAuthenticationContext config account attempt.purpose attempt.method attemptId) }) := by
  obtain ⟨_, -, h⟩ := bind_eq_ok.mp h
  cases hctx : attempt.context with
  | some bound =>
    rw [hctx] at h
    cases h
    exact Or.inl ⟨rfl, rfl⟩
  | none =>
    simp only [hctx] at h
    by_cases hmfa : attempt.purpose = .mfa
    · rw [if_pos hmfa] at h
      cases h
    · rw [if_neg hmfa] at h
      cases h
      exact Or.inr ⟨rfl, hmfa, rfl⟩

theorem accept_ok {verified : AuthVerificationResult} {eventId : String}
    {progress : AuthPolicyDecision}
    (h : attempt.accept config account now verified eventId = .ok (attempt', progress)) :
    ∃ context credId permitted, attempt.context = some context ∧ verified.success = true ∧
      verified.credentialId = some credId ∧
      attempt.permittedCredentials config account now = .ok permitted ∧
      credId ∈ permitted ∧ account.status = .active ∧
      attempt' = attempt.withEvidence context (attempt.event account context credId eventId)
        verified.passwordAssessment ∧
      attempt'.progress config account now = .ok progress := by
  unfold AuthenticationAttempt.accept at h
  split at h
  · rename_i credId hsuccess hcred
    obtain ⟨permitted, hperm, h⟩ := bind_eq_ok.mp h
    by_cases hmem : credId ∈ permitted
    · rw [if_neg (by simp [hmem])] at h
      by_cases hact : account.status = .active
      · rw [if_neg (not_not.mpr hact)] at h
        obtain ⟨context, hctx, h⟩ := bind_eq_ok.mp h
        obtain ⟨reached, hreach, h⟩ := bind_eq_ok.mp h
        cases h
        exact ⟨context, credId, permitted, boundContext_ok hctx, hsuccess, hcred,
          hperm, hmem, hact, rfl, hreach⟩
      · rw [if_pos hact] at h
        cases h
    · rw [if_pos (by simp [hmem])] at h
      cases h
  · cases h

theorem validateAuthenticationContext_ok {purposes : List AuthPurpose} :
    validateAuthenticationContext config account context purposes = .ok () ↔
      context.signingKeyDigest = config.sha256 account.secretKey ∧
        (∀ purpose ∈ purposes, account.revision purpose = context.revision purpose) ∧
        evidenceIsValid (account.credentialsOf (context.evidence.map AuthEvidence.method))
          context.evidence account.id context.attemptId = true := by
  unfold validateAuthenticationContext
  by_cases hkey : context.signingKeyDigest = config.sha256 account.secretKey
  · rw [if_neg (not_not.mpr hkey)]
    by_cases hrevs : ∀ purpose ∈ purposes, account.revision purpose = context.revision purpose
    · rw [if_neg (by simpa using hrevs)]
      by_cases hvalid : evidenceIsValid
          (account.credentialsOf (context.evidence.map AuthEvidence.method)) context.evidence
          account.id context.attemptId = true
      · rw [if_neg (by simp [hvalid])]
        exact iff_of_true rfl ⟨hkey, hrevs, hvalid⟩
      · rw [if_pos (by simpa using hvalid)]
        exact iff_of_false nofun fun h => hvalid h.2.2
    · rw [if_pos (by simpa using hrevs)]
      exact iff_of_false nofun fun h => hrevs h.2.1
  · rw [if_pos hkey]
    exact iff_of_false nofun fun h => hkey h.1

theorem getLoginProgress_ok {progress : AuthPolicyDecision} :
    getLoginProgress config account context = .ok progress ↔
      validateAuthenticationContext config account context [.login, .mfa] = .ok () ∧
        ∃ loginMethod, context.loginMethod = some loginMethod ∧
          loginProgress account context loginMethod = .ok progress := by
  unfold getLoginProgress
  rw [bind_eq_ok]
  constructor
  · rintro ⟨_, hvalid, h⟩
    cases hmeth : context.loginMethod with
    | none =>
      rw [hmeth] at h
      cases h
    | some loginMethod =>
      rw [hmeth] at h
      exact ⟨hvalid, loginMethod, rfl, h⟩
  · rintro ⟨hvalid, loginMethod, hmeth, h⟩
    refine ⟨(), hvalid, ?_⟩
    rw [hmeth]
    exact h

end

/-! ### What a satisfied login means -/

/-- The events complete an alternative of the policy that uses one method. -/
def CompletedFor (account : Account) (purpose : AuthPurpose) (method : String)
    (used : List AuthEvidence) : Prop :=
  ∃ chain ∈ account.chains purpose, (∀ step ∈ chain.steps, step.method = method) ∧
    CompletedBy account.listUserCredentials chain.steps used

/-- The login policy is completed with the login method, and the MFA policy is empty or completed
with another method; no event counts for both. -/
def BothPoliciesPassed (account : Account) (context : AuthenticationContext) : Prop :=
  ∃ loginMethod used, context.loginMethod = some loginMethod ∧ used.Sublist context.evidence ∧
    CompletedFor account .login loginMethod used ∧
    (account.chains .mfa = [] ∨ ∃ mfaMethod mfaUsed, mfaMethod ≠ loginMethod ∧
      mfaUsed.Sublist context.evidence ∧ CompletedFor account .mfa mfaMethod mfaUsed ∧
      ∀ e ∈ used, ∀ f ∈ mfaUsed, e.eventId ≠ f.eventId)

section

variable {account : Account} {purpose : AuthPurpose} {evidence used : List AuthEvidence}
  {chain : AuthChain} {context : AuthenticationContext}

theorem CompletedBy.congr {creds creds' : List RegisteredCredential}
    {steps : List AuthStep} (h : CompletedBy creds steps used)
    (hsame : ∀ e ∈ used, keyIdentityOf creds e = keyIdentityOf creds' e) :
    CompletedBy creds' steps used where
  each := h.each
  distinctKeys := by
    refine h.distinctKeys.imp_of_mem ?_
    intro e f he hf hdist hkey hkeyf
    rw [← hsame e he, ← hsame f hf]
    exact hdist hkey hkeyf

theorem keyIdentityOf_credentialsOf {methods : List String} {event : AuthEvidence}
    (h : event.method ∈ methods) :
    keyIdentityOf (account.credentialsOf methods) event =
      keyIdentityOf account.listUserCredentials event := by
  unfold keyIdentityOf
  rw [activeCredential_credentialsOf account h, activeCredential_listUserCredentials]

variable {method excludedMethod : Option String}

theorem isEligible_iff : isEligible purpose method excludedMethod chain = true ↔
      (∀ step ∈ chain.steps, step.method = chain.head.method) ∧
        (∀ m, method = some m → m = chain.head.method) ∧
        (∀ m, excludedMethod = some m → m ≠ chain.head.method) ∧
        ∃ provider, getProvider chain.head.method = some provider ∧
          purpose ∈ provider.supportedPurposes := by
  unfold isEligible AuthChain.isSingleMethod
  simp only [Bool.and_eq_true, all_eq_true, beq_iff_eq, Option.all_eq_true, bne_iff_ne,
    Option.any_eq_true, contains_iff_mem, and_assoc]

/-- **A satisfied policy of an account is empty and about MFA, or has a completed alternative.** -/
theorem evaluateUserPolicy_satisfied {attemptId : String}
    (h : (evaluateUserPolicy account purpose evidence attemptId method excludedMethod).satisfied =
      true) :
    (account.chains purpose = [] ∧ purpose = .mfa) ∨
      ∃ chain ∈ account.chains purpose, isEligible purpose method excludedMethod chain = true ∧
        ∃ used : List AuthEvidence, used.Sublist evidence ∧
          CompletedBy account.listUserCredentials chain.steps used := by
  simp only [evaluateUserPolicy] at h
  split at h
  · cases h
  rename_i hsome
  rcases evaluateAuthPolicy_satisfied h with ⟨hempty, hmfa⟩ |
    ⟨chain, hmem, -, used, hused, hcompleted⟩
  · refine Or.inl ⟨?_, hmfa⟩
    by_contra hchains
    simp [hempty, hchains] at hsome
  · obtain ⟨hchain, helig⟩ := mem_filter.mp hmem
    refine Or.inr ⟨chain, hchain, helig, used, hused, hcompleted.congr ?_⟩
    intro e he
    apply keyIdentityOf_credentialsOf
    exact mem_append_right _ (mem_map_of_mem (hused.subset he))

/-- **A satisfied progress passes both policies.** -/
theorem bothPoliciesPassed_of_loginProgress {loginMethod : String} {progress : AuthPolicyDecision}
    (hmeth : context.loginMethod = some loginMethod)
    (hnodup : (context.evidence.map AuthEvidence.eventId).Nodup)
    (h : loginProgress account context loginMethod = .ok progress)
    (hsat : progress.satisfied = true) : BothPoliciesPassed account context := by
  simp only [loginProgress] at h
  split at h
  · rename_i hinc
    cases h
    rw [Bool.not_eq_true'] at hinc
    exact absurd hsat (by simp [hinc])
  · rename_i hcompl
    have hlogin := evaluateUserPolicy_satisfied (by simpa using hcompl)
    split at h
    · cases h
    cases h
    rcases hlogin with ⟨-, hwrong⟩ | ⟨chain, hchain, helig, used, hused, hcompleted⟩
    · cases hwrong
    obtain ⟨hsing, hof, -⟩ := isEligible_iff.mp helig
    rw [← hof loginMethod rfl] at hsing
    refine ⟨loginMethod, used, hmeth, hused.trans filter_sublist,
      ⟨chain, hchain, hsing, hcompleted⟩, ?_⟩
    rcases evaluateUserPolicy_satisfied hsat with ⟨hempty, -⟩ |
      ⟨mfaChain, hmfaChain, hmfaEligible, mfaUsed, hmfaUsed, hmfaCompleted⟩
    · exact Or.inl hempty
    obtain ⟨hmfaSingle, -, hother, -⟩ := isEligible_iff.mp hmfaEligible
    refine Or.inr ⟨mfaChain.head.method, mfaUsed, (hother loginMethod rfl).symm,
      hmfaUsed.trans filter_sublist, ⟨mfaChain, hmfaChain, hmfaSingle, hmfaCompleted⟩, ?_⟩
    intro e he f hf hsame
    have heMem := mem_filter.mp (hused.subset he)
    have hfMem := mem_filter.mp (hmfaUsed.subset hf)
    have heq : e = f := inj_on_of_nodup_map hnodup heMem.1 hfMem.1 hsame
    subst heq
    have hdiffers := hfMem.2
    rw [bne, heMem.2] at hdiffers
    cases hdiffers

end

end Cfms.Identity
