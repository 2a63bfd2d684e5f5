import Cfms.Identity.Login

/-!
# Tokens and sessions

What a provider verifies, the tokens of an account, and how a login ends: `tokens.py`, `sessions.py`,
`auth/password_state.py`, the `verify` methods of the providers and the token methods of `User`.  A
raw token is modelled by the token it encodes together with the key it is signed with, so that only
what was issued can be presented.
-/

namespace Cfms.Identity

open Access (Instant)

/-! ### Tokens -/

/-- The combinations of flags that tokens are issued with. -/
inductive TokenPurpose
  | auth
  | postAuth
  | general
  | generalWithEscalation
  deriving DecidableEq

/-- The value of the `IntFlag`. -/
def TokenPurpose.flags : TokenPurpose → ℕ
  | .auth => 1
  | .postAuth => 2
  | .general => 4
  | .generalWithEscalation => 12

/-- `purpose & wanted == wanted`. -/
def TokenPurpose.includes (purpose wanted : TokenPurpose) : Bool :=
  purpose.flags &&& wanted.flags == wanted.flags

/-- The token continues an authentication: `purpose & (AUTH | POST_AUTH)`. -/
def TokenPurpose.isContinuation (purpose : TokenPurpose) : Bool :=
  purpose.flags &&& 3 != 0

structure Token where
  sub : String
  purpose : TokenPurpose
  exp : Instant
  secret : String
  authContext : Option AuthenticationContext := none
  deriving DecidableEq

/-- `Token.from_raw` accepts the token under a key. -/
def Token.verifies (token : Token) (secret : String) (now : Instant) : Bool :=
  token.secret == secret && decide (now < token.exp) &&
    (!token.purpose.isContinuation ||
      token.authContext.any fun context => context.loginMethod.any (· != ""))

def Account.isTokenValid (account : Account) (token : Token) (purpose : TokenPurpose)
    (now : Instant) : Bool :=
  account.status == .active && token.verifies account.secretKey now &&
    token.sub == account.id && token.purpose.includes purpose

variable (config : AuthConfig)

/-- `User.renew_token`, of a token that is there. -/
def Account.renewToken (account : Account) (old : Token) (now : Instant) : Except AuthError Token :=
  if old.purpose.isContinuation then
    throw (.invalid "Cannot renew an authentication continuation token")
  else if !account.isTokenValid old old.purpose now then
    throw (.invalid "Cannot renew an invalid token")
  else pure ⟨account.id, .general, now + config.tokenExpirySeconds, account.secretKey, none⟩

def escalationTokenExpirySeconds : Instant := 300

def Account.escalationToken (account : Account) (now : Instant) : Token :=
  ⟨account.id, .generalWithEscalation, now + escalationTokenExpirySeconds, account.secretKey, none⟩

/-- The transaction of an exchange for escalation, before any provider is asked; `none` when the
policy demands a proof. -/
def Account.escalateDirectly (account : Account) (source : Token) (now : Instant) :
    Except AuthError (Option Token) :=
  if account.status ≠ .active then throw (.failure 4003 "User account is not active")
  else if !account.isTokenValid source .general now then
    throw (.failure 401 "Invalid authentication token")
  else if (account.chains .escalation).isEmpty then pure (some (account.escalationToken now))
  else pure none

/-! ### Verification -/

/-- The challenge a public key signs; its bytes hold a nonce. -/
structure Challenge where
  userId : String
  fingerprint : String
  data : String
  expiresAt : Instant
  deriving DecidableEq

/-- What a client sends to a provider.  A fingerprint is decoded. -/
inductive Proof
  | password (password : String)
  | publicKey (fingerprint signature : String)
  | totp (token : String)
  deriving DecidableEq

def assessPassword (credential : UserPasswordCredential) (password : String) :
    PasswordAssessment where
  credentialId := credential.credentialId
  modifiedAt := credential.passwdLastModified
  policyDigest := config.passwordPolicyDigest
  rulesSatisfied := config.passwordRules password

def verificationFailed (account : Account) : AuthVerificationResult × Account :=
  ({ success := false }, account)

/-- `PasswordAuthProvider.verify`; the stored hash may be renewed. -/
def verifyPassword (account : Account) (password : String) : AuthVerificationResult × Account :=
  match account.password with
  | none => verificationFailed account
  | some credential =>
    match config.checkPassword credential.passHash password with
    | none => verificationFailed account
    | some passHash =>
      ({ success := true
         credentialId := some credential.credentialId
         passwordAssessment := some (assessPassword config credential password) },
        { account with password := some { credential with passHash := passHash } })

/-- `TOTPAuthProvider.verify`; a backup code is consumed. -/
def verifyTotp (account : Account) (token : String) : AuthVerificationResult × Account :=
  match account.totp with
  | none => verificationFailed account
  | some credential =>
    if !credential.enabled then verificationFailed account
    else
      match config.checkTotp credential.secret token with
      | none => verificationFailed account
      | some secret =>
        ({ success := true, credentialId := some credential.credentialId },
          { account with totp := some { credential with secret := secret } })

/-- `PublicKeyAuthProvider.verify`. -/
def verifyPublicKey (account : Account) (challenge : Option Challenge) (now : Instant)
    (fingerprint signature : String) : AuthVerificationResult × Account :=
  match challenge with
  | none => verificationFailed account
  | some challenge =>
    if challenge.userId ≠ account.id ∨ challenge.expiresAt ≤ now ∨
        fingerprint ≠ challenge.fingerprint then verificationFailed account
    else
      match account.publicKeys.find? (·.fingerprint == fingerprint) with
      | none => verificationFailed account
      | some key =>
        if config.checkSignature key.publicKeyDer challenge.data signature then
          ({ success := true, credentialId := some key.id }, account)
        else verificationFailed account

/-- `verify` of the provider with a method id; a proof of another form is not valid. -/
def verify (method : String) (account : Account) (challenge : Option Challenge) (now : Instant) :
    Proof → AuthVerificationResult × Account
  | .password password =>
    if method = "password" then verifyPassword config account password
    else verificationFailed account
  | .totp token =>
    if method = "totp" then verifyTotp config account token else verificationFailed account
  | .publicKey fingerprint signature =>
    if method = "publickey" then verifyPublicKey config account challenge now fingerprint signature
    else verificationFailed account

/-- Checks that accept what is stored, for concrete runs. -/
def plainConfig : AuthConfig where
  sha256 := id
  tokenExpirySeconds := 3600
  passwordPolicyDigest := "policy"
  passwordRules _ := true
  forceExpiration := false
  expireAfterSeconds := 0
  checkPassword stored given := if given = stored then some stored else none
  checkTotp stored given := if given = stored then some stored else none
  checkSignature key data signature := decide (signature = key ++ data)

/-! ### The end of a login -/

/-- The caching provider, by attempt id. -/
abbrev AssessmentCache := String → Option PasswordAssessment

/-- The checks of `password_change_requirement` on the assessment it has found. -/
def assessedRequirement (account : Account) (passwordIds : List String)
    (assessment : PasswordAssessment) (now : Instant) : Except AuthError (Option ℕ) :=
  match account.password with
  | none => throw (.invalid "Password or password policy changed; restart login")
  | some credential =>
    if !passwordIds.contains assessment.credentialId ∨
        credential.credentialId ≠ assessment.credentialId ∨
        credential.passwdLastModified ≠ assessment.modifiedAt ∨
        assessment.policyDigest ≠ config.passwordPolicyDigest then
      throw (.invalid "Password or password policy changed; restart login")
    else if !assessment.rulesSatisfied then pure (some 4001)
    else if credential.passwdLastModified = 0 ∨
        (config.forceExpiration ∧
          config.expireAfterSeconds < now - credential.passwdLastModified) then
      pure (some 4002)
    else pure none

def passwordChangeRequirement (account : Account) (cache : AssessmentCache)
    (context : AuthenticationContext) (assessment : Option PasswordAssessment) (now : Instant) :
    Except AuthError (Option ℕ) :=
  let passwordIds := (context.evidence.filter (·.method == "password")).map
    AuthEvidence.credentialId
  if passwordIds.isEmpty then pure none
  else
    match assessment.or (cache context.attemptId) with
    | none => throw (.invalid "Authentication state expired; restart login")
    | some assessment => assessedRequirement config account passwordIds assessment now

structure Answer where
  code : ℕ
  message : String
  token : Option Token := none
  deriving DecidableEq

/-- `finish_login_attempt` when both policies pass. -/
def openSession (account : Account) (cache : AssessmentCache) (context : AuthenticationContext)
    (assessment : Option PasswordAssessment) (duration now : Instant) :
    Except AuthError (Answer × AssessmentCache) := do
  let requirement ← passwordChangeRequirement config account cache context assessment now
  match requirement with
  | some code =>
    pure (⟨code, "Password must be changed before you can log in",
      some ⟨account.id, .postAuth, now + min 300 duration, account.secretKey, some context⟩⟩, cache)
  | none =>
    pure (⟨200, "Login successful",
      some ⟨account.id, .general, now + config.tokenExpirySeconds, account.secretKey, none⟩⟩,
      if context.evidence.any (·.method == "password") then
        Function.update cache context.attemptId none
      else cache)

/-- `finish_login_attempt` when the MFA policy is not complete. -/
def offerContinuation (account : Account) (cache : AssessmentCache) (context : AuthenticationContext)
    (nextSteps : List AuthStep) (duration now : Instant) : Answer × AssessmentCache :=
  if nextSteps.isEmpty then
    (⟨403, "Authentication policy cannot be completed by this endpoint", none⟩, cache)
  else
    (⟨202, "Multi-factor authentication required",
      some ⟨account.id, .auth, now + duration, account.secretKey, some context⟩⟩, cache)

/-- The cache after the assessment is saved, `none` when that fails. -/
def saveAssessment (cache : AssessmentCache) (context : AuthenticationContext)
    (assessment : Option PasswordAssessment) (cacheWorks : Bool) : Option AssessmentCache :=
  match assessment with
  | none => some cache
  | some assessment =>
    if cacheWorks then some (Function.update cache context.attemptId (some assessment)) else none

/-- `duration` of `finish_login_attempt`. -/
def continuationDuration (expiresAt : Option Instant) (now : Instant) : Instant :=
  match expiresAt with
  | none => config.tokenExpirySeconds / 2
  | some expiresAt => min (config.tokenExpirySeconds / 2) (expiresAt - now)

/-- `finish_login_attempt` after the status and the login policy are found right. -/
def finishMfa (account : Account) (cache : AssessmentCache) (context : AuthenticationContext)
    (assessment : Option PasswordAssessment) (progress : AuthPolicyDecision)
    (duration now : Instant) (cacheWorks : Bool) : Except AuthError (Answer × AssessmentCache) :=
  if duration ≤ 0 then throw (.invalid "Authentication expired; restart login")
  else
    match saveAssessment cache context assessment cacheWorks with
    | none => pure (⟨503, "Authentication state could not be saved; restart login", none⟩, cache)
    | some cache =>
      if progress.satisfied then openSession config account cache context assessment duration now
      else pure (offerContinuation account cache context progress.nextSteps duration now)

def finishLoginAttempt (account : Account) (cache : AssessmentCache)
    (context : AuthenticationContext) (expiresAt : Option Instant)
    (assessment : Option PasswordAssessment) (now : Instant) (cacheWorks : Bool) :
    Except AuthError (Answer × AssessmentCache) := do
  let progress ← getLoginProgress config account context
  if account.status ≠ .active then pure (⟨4003, "User account is not active", none⟩, cache)
  else if progress.purpose = some .login then
    pure (⟨403, "Login policy is not complete", none⟩, cache)
  else
    finishMfa config account cache context assessment progress
      (continuationDuration config expiresAt now) now cacheWorks

/-- The last transaction of `authenticate_request`. -/
def finishAuthentication (attempt : AuthenticationAttempt) (account : Account)
    (cache : AssessmentCache) (now : Instant) (cacheWorks : Bool) :
    Except AuthError (Answer × AssessmentCache) := do
  attempt.checkExpiry now
  if account.status ≠ .active then throw (.failure 4003 "User account is not active")
  else do
    let progress ← attempt.progress config account now
    if attempt.purpose = .escalation then
      if !progress.satisfied then throw (.failure 403 "Escalation policy is not complete")
      else pure (⟨200, "Escalation successful", some (account.escalationToken now)⟩, cache)
    else if attempt.purpose = .mfa ∧ !progress.satisfied then
      throw (.failure 403 "MFA policy is not complete")
    else do
      let context ← attempt.boundContext
      finishLoginAttempt config account cache context attempt.expiresAt attempt.passwordAssessment
        now cacheWorks

/-! ### The tokens of a login -/

/-- A token that ends a login transaction: a session when the progress is satisfied, and else a
continuation that carries the context. -/
structure EndsLogin (account : Account) (context : AuthenticationContext)
    (progress : AuthPolicyDecision) (token : Token) : Prop where
  sub : token.sub = account.id
  secret : token.secret = account.secretKey
  session : token.purpose = .general → progress.satisfied = true ∧ token.authContext = none
  continuation : token.purpose ≠ .general → token.authContext = some context
  notEscalated : token.purpose ≠ .generalWithEscalation

section

variable {config} {account : Account} {cache cache' : AssessmentCache}
  {context : AuthenticationContext} {assessment : Option PasswordAssessment}
  {progress : AuthPolicyDecision} {duration now : Instant} {cacheWorks : Bool}
  {expiresAt : Option Instant} {answer : Answer} {token : Token}

theorem openSession_token
    (h : openSession config account cache context assessment duration now = .ok (answer, cache'))
    (hsat : progress.satisfied = true) (htoken : answer.token = some token) :
    EndsLogin account context progress token := by
  obtain ⟨requirement, -, h⟩ := bind_eq_ok.mp h
  cases requirement with
  | some code =>
    cases h
    cases htoken
    exact ⟨rfl, rfl, nofun, fun _ => rfl, nofun⟩
  | none =>
    cases h
    cases htoken
    exact ⟨rfl, rfl, fun _ => ⟨hsat, rfl⟩, fun hne => absurd rfl hne, nofun⟩

theorem offerContinuation_token {nextSteps : List AuthStep}
    (htoken : (offerContinuation account cache context nextSteps duration now).1.token =
      some token) : EndsLogin account context progress token := by
  unfold offerContinuation at htoken
  split at htoken
  · cases htoken
  · cases htoken
    exact ⟨rfl, rfl, nofun, fun _ => rfl, nofun⟩

theorem finishMfa_token
    (h : finishMfa config account cache context assessment progress duration now cacheWorks =
      .ok (answer, cache'))
    (htoken : answer.token = some token) : EndsLogin account context progress token := by
  unfold finishMfa at h
  split at h
  · cases h
  split at h
  · cases h
    cases htoken
  · split at h
    · rename_i hsat
      exact openSession_token h hsat htoken
    · have hans : (offerContinuation _ _ context _ duration now).1 = answer :=
        (Prod.ext_iff.mp (Except.ok.inj h)).1
      rw [← hans] at htoken
      exact offerContinuation_token htoken

/-- **A token that `finish_login_attempt` returns** is for an active account with a valid context. -/
theorem finishLoginAttempt_token
    (h : finishLoginAttempt config account cache context expiresAt assessment now cacheWorks =
      .ok (answer, cache'))
    (htoken : answer.token = some token) :
    account.status = .active ∧ ∃ progress, getLoginProgress config account context = .ok progress ∧
      EndsLogin account context progress token := by
  obtain ⟨progress, hprog, h⟩ := bind_eq_ok.mp h
  by_cases hact : account.status = .active
  · rw [if_neg (not_not.mpr hact)] at h
    refine ⟨hact, progress, hprog, ?_⟩
    split at h
    · cases h
      cases htoken
    · exact finishMfa_token h htoken
  · rw [if_pos hact] at h
    cases h
    cases htoken

/-- **A token that ends an attempt** is an escalation on a valid context, or ends a login. -/
theorem finishAuthentication_token {attempt : AuthenticationAttempt}
    (h : finishAuthentication config attempt account cache now cacheWorks = .ok (answer, cache'))
    (htoken : answer.token = some token) :
    ∃ context, attempt.context = some context ∧
      context.signingKeyDigest = config.sha256 account.secretKey ∧
      ((attempt.purpose = .escalation ∧ token = account.escalationToken now) ∨
        (attempt.purpose ≠ .escalation ∧ ∃ progress, EndsLogin account context progress token)) := by
  obtain ⟨_, -, h⟩ := bind_eq_ok.mp h
  split at h
  · cases h
  obtain ⟨progress, hprog, h⟩ := bind_eq_ok.mp h
  by_cases hesc : attempt.purpose = .escalation
  · rw [if_pos hesc] at h
    split at h
    · cases h
    cases h
    cases htoken
    obtain ⟨_, -, hprog⟩ := bind_eq_ok.mp hprog
    obtain ⟨context, hctx, hprog⟩ := bind_eq_ok.mp hprog
    rw [if_pos hesc] at hprog
    obtain ⟨_, hvalid, -⟩ := bind_eq_ok.mp hprog
    exact ⟨context, boundContext_ok hctx, (validateAuthenticationContext_ok.mp hvalid).1,
      Or.inl ⟨hesc, rfl⟩⟩
  · rw [if_neg hesc] at h
    split at h
    · cases h
    obtain ⟨context, hctx, h⟩ := bind_eq_ok.mp h
    obtain ⟨-, progress, hlogin, hends⟩ := finishLoginAttempt_token h htoken
    have hvalid := (getLoginProgress_ok.mp hlogin).1
    exact ⟨context, boundContext_ok hctx, (validateAuthenticationContext_ok.mp hvalid).1,
      Or.inr ⟨hesc, progress, hends⟩⟩

theorem renewToken_ok {old : Token} (h : account.renewToken config old now = .ok token) :
    old.secret = account.secretKey ∧ token.secret = account.secretKey ∧
      token.authContext = none := by
  unfold Account.renewToken at h
  split at h
  · cases h
  split at h
  · cases h
  rename_i hvalid
  cases h
  simp only [Bool.not_eq_true', Bool.not_eq_false, Account.isTokenValid, Token.verifies,
    Bool.and_eq_true, beq_iff_eq] at hvalid
  exact ⟨hvalid.1.1.2.1.1, rfl, rfl⟩

theorem escalateDirectly_ok {source : Token} {direct : Option Token}
    (h : account.escalateDirectly source now = .ok direct) :
    source.secret = account.secretKey ∧
      (direct = none ∨ direct = some (account.escalationToken now)) := by
  unfold Account.escalateDirectly at h
  split at h
  · cases h
  split at h
  · cases h
  rename_i hvalid
  simp only [Bool.not_eq_true', Bool.not_eq_false, Account.isTokenValid, Token.verifies,
    Bool.and_eq_true, beq_iff_eq] at hvalid
  refine ⟨hvalid.1.1.2.1.1, ?_⟩
  split at h
  · cases h
    exact Or.inr rfl
  · cases h
    exact Or.inl rfl

end

end Cfms.Identity
