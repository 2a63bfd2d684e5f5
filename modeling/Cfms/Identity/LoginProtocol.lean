import Cfms.Lib.Run
import Cfms.Identity.Management

/-!
# Requests for tokens

Any number of requests work on one account at a time: logins, exchanges of an AUTH token for a
session, escalations and refreshes.  A request is a sequence of transactions, and what it knows
between two of them is its `Phase`.  Management, key rotation and changes of status commit in
between, as do the transactions of other requests.

A token can be presented when it was issued before.  An exception ends its request.  What was
issued, and which proofs were accepted, is kept for the statements.
-/

namespace Cfms.Identity

open Access (Instant)
open Lib.Run

/-! ### The system -/

inductive Phase
  /-- The exchange has a verified token and goes on to the escalation transaction. -/
  | escalating (method : Option String)
  | refreshing
  | authenticating (attempt : AuthenticationAttempt) (challenge : Option Challenge)

structure Request where
  source : Option Token
  phase : Phase

structure Issuance where
  source : Option Token
  token : Token
  deriving DecidableEq

/-- A proof that was accepted: what it was checked against, and the event it became. -/
structure Acceptance where
  account : Account
  challenge : Option Challenge
  now : Instant
  proof : Proof
  event : AuthEvidence

/-- The proof was valid for the credential that the event names. -/
def Acceptance.Verified (config : AuthConfig) (acceptance : Acceptance) : Prop :=
  let verified := (verify config acceptance.event.method acceptance.account acceptance.challenge
    acceptance.now acceptance.proof).1
  verified.success = true ∧ verified.credentialId = some acceptance.event.credentialId

structure System where
  account : Account
  cache : AssessmentCache
  requests : ℕ → Option Request
  issued : List Issuance
  acceptances : List Acceptance

/-- An account nobody has a token of. -/
def System.start (account : Account) : System := ⟨account, fun _ => none, fun _ => none, [], []⟩

def System.close (s : System) (i : ℕ) : System :=
  { s with requests := Function.update s.requests i none }

def System.put (s : System) (i : ℕ) (request : Request) : System :=
  { s with requests := Function.update s.requests i (some request) }

def System.answer (s : System) (i : ℕ) (source : Option Token) (token : Token) : System :=
  { s.close i with issued := s.issued ++ [⟨source, token⟩] }

/-! ### Transactions -/

/-- `authenticate_request` asks the provider of the method, which must support the purpose. -/
def System.startAttempt (s : System) (i : ℕ) (source : Option Token)
    (attempt : AuthenticationAttempt) : System :=
  match getProvider attempt.method with
  | none => s.close i
  | some provider =>
    if provider.supportedPurposes.contains attempt.purpose then
      s.put i ⟨source, .authenticating attempt none⟩
    else s.close i

/-- The router accepts the token of a request. -/
def System.presents (s : System) (source : Token) (now : Instant) : Bool :=
  s.issued.any (·.token == source) && source.sub == s.account.id &&
    source.verifies s.account.secretKey now && s.account.status == .active &&
    source.purpose != .postAuth

/-- `RequestExchangeTokenHandler` up to its first transaction. -/
def System.openExchange (s : System) (i : ℕ) (source : Token) (target : TokenPurpose)
    (method : Option String) : System :=
  match source.purpose, target with
  | .auth, .general =>
    match source.authContext, method with
    | some context, some method =>
      if context.loginMethod.all (· == "") then s.close i
      else
        s.startAttempt i (some source)
          { method := method, purpose := .mfa, context := some context,
            expiresAt := some source.exp }
    | _, _ => s.close i
  | .general, .generalWithEscalation => s.put i ⟨some source, .escalating method⟩
  | _, _ => s.close i

/-- The escalation transaction of the exchange, and what follows it. -/
def System.escalate (s : System) (i : ℕ) (source : Token) (method : Option String) (now : Instant) :
    System :=
  match s.account.escalateDirectly source now with
  | .error _ => s.close i
  | .ok (some token) => s.answer i (some source) token
  | .ok none =>
    match method with
    | none => s.close i
    | some method =>
      s.startAttempt i (some source)
        { method := method, purpose := .escalation, expiresAt := some source.exp }

variable (config : AuthConfig)

/-- `RequestRefreshTokenHandler`. -/
def System.renew (s : System) (i : ℕ) (source : Token) (now : Instant) : System :=
  match s.account.renewToken config source now with
  | .error _ => s.close i
  | .ok token => s.answer i (some source) token

def System.bind (s : System) (i : ℕ) (source : Option Token) (attempt : AuthenticationAttempt)
    (challenge : Option Challenge) (now : Instant) (attemptId : String) : System :=
  match attempt.bind config s.account now attemptId with
  | .error _ => s.close i
  | .ok bound => s.put i ⟨source, .authenticating bound challenge⟩

/-- The provider asks what is permitted; a public key gets a challenge for a minute. -/
def System.permit (s : System) (i : ℕ) (source : Option Token) (attempt : AuthenticationAttempt)
    (challenge : Option Challenge) (now : Instant) (fingerprint data : String) : System :=
  match attempt.permittedCredentials config s.account now with
  | .error _ => s.close i
  | .ok permitted =>
    if attempt.method ≠ "publickey" then s.put i ⟨source, .authenticating attempt challenge⟩
    else if s.account.publicKeys.any fun key =>
        permitted.contains key.id && key.fingerprint == fingerprint then
      s.put i ⟨source, .authenticating attempt
        (some ⟨s.account.id, fingerprint, data, now + 60⟩)⟩
    else s.close i

/-- The proof that an accepted event was made with. -/
def System.acceptance (s : System) (attempt : AuthenticationAttempt)
    (context : AuthenticationContext) (challenge : Option Challenge) (now : Instant) (proof : Proof)
    (credentialId eventId : String) : Acceptance :=
  ⟨s.account, challenge, now, proof, attempt.event s.account context credentialId eventId⟩

/-- What an accepted proof leaves behind. -/
def System.recordAcceptance (s : System) (attempt : AuthenticationAttempt) (challenge : Option Challenge)
    (now : Instant) (proof : Proof) (verified : AuthVerificationResult) (eventId : String) :
    List Acceptance :=
  match attempt.context, verified.credentialId with
  | some context, some credentialId =>
    s.acceptances ++ [s.acceptance attempt context challenge now proof credentialId eventId]
  | _, _ => s.acceptances

/-- The provider verifies a proof and has it accepted. -/
def System.accept (s : System) (i : ℕ) (source : Option Token) (attempt : AuthenticationAttempt)
    (challenge : Option Challenge) (now : Instant) (proof : Proof) (eventId : String) : System :=
  let verification := verify config attempt.method s.account challenge now proof
  match attempt.accept config verification.2 now verification.1 eventId with
  | .error _ => s.close i
  | .ok (accepted, _) =>
    { s.put i ⟨source, .authenticating accepted none⟩ with
      account := verification.2
      acceptances := s.recordAcceptance attempt challenge now proof verification.1 eventId }

/-- The last transaction. -/
def System.issue (s : System) (i : ℕ) (source : Option Token) (attempt : AuthenticationAttempt)
    (now : Instant) (cacheWorks : Bool) : System :=
  match finishAuthentication config attempt s.account s.cache now cacheWorks with
  | .error _ => s.close i
  | .ok (⟨_, _, none⟩, cache) => { s.close i with cache := cache }
  | .ok (⟨_, _, some token⟩, cache) => { s.answer i source token with cache := cache }

/-! ### Steps -/

inductive Action
  | openLogin (i : ℕ) (method : String)
  | openExchange (i : ℕ) (source : Token) (target : TokenPurpose) (method : Option String)
      (now : Instant)
  | openRefresh (i : ℕ) (source : Token) (now : Instant)
  | escalate (i : ℕ) (now : Instant)
  | renew (i : ℕ) (now : Instant)
  | bind (i : ℕ) (now : Instant) (attemptId : String)
  | permit (i : ℕ) (now : Instant) (fingerprint data : String)
  | accept (i : ℕ) (now : Instant) (proof : Proof) (eventId : String)
  | issue (i : ℕ) (now : Instant) (cacheWorks : Bool)
  | disconnect (i : ℕ)
  /-- A committed operation of authentication management; one that raises changes nothing. -/
  | manage (operation : Operation)
  | rotateKey (key : String)
  | setStatus (status : UserStatus)
  /-- An entry of the cache expires. -/
  | evict (attemptId : String)

/-- Another transaction commits. -/
def System.manage (s : System) (operation : Operation) : System :=
  match perform config s.account operation with
  | .error _ => s
  | .ok account => { s with account := account }

/-- A transaction of the request `i`. -/
def System.request (s : System) (i : ℕ) (transaction : Request → Option System) : Option System :=
  (s.requests i).bind transaction

def onAttempt (transaction : Option Token → AuthenticationAttempt → Option Challenge → System) :
    Request → Option System
  | ⟨source, .authenticating attempt challenge⟩ => some (transaction source attempt challenge)
  | _ => none

/-- One step; `none` when the request is not in the phase for it. -/
def protocolStep (s : System) : Action → Option System
  | .openLogin i method =>
    if (s.requests i).isSome then none
    else some (s.startAttempt i none { method := method, purpose := .login })
  | .openExchange i source target method now =>
    if (s.requests i).isSome ∨ !s.presents source now then none
    else some (s.openExchange i source target method)
  | .openRefresh i source now =>
    if (s.requests i).isSome ∨ !s.presents source now ∨ !source.purpose.includes .general then none
    else some (s.put i ⟨some source, .refreshing⟩)
  | .escalate i now => s.request i fun
    | ⟨some source, .escalating method⟩ => some (s.escalate i source method now)
    | _ => none
  | .renew i now => s.request i fun
    | ⟨some source, .refreshing⟩ => some (s.renew config i source now)
    | _ => none
  | .bind i now attemptId => s.request i (onAttempt fun source attempt challenge =>
      s.bind config i source attempt challenge now attemptId)
  | .permit i now fingerprint data => s.request i (onAttempt fun source attempt challenge =>
      s.permit config i source attempt challenge now fingerprint data)
  | .accept i now proof eventId => s.request i (onAttempt fun source attempt challenge =>
      s.accept config i source attempt challenge now proof eventId)
  | .issue i now cacheWorks => s.request i (onAttempt fun source attempt _ =>
      s.issue config i source attempt now cacheWorks)
  | .disconnect i => some (s.close i)
  | .manage operation => some (s.manage config operation)
  | .rotateKey key => some { s with account := { s.account with secretKey := key } }
  | .setStatus status => some { s with account := { s.account with status := status } }
  | .evict attemptId => some { s with cache := Function.update s.cache attemptId none }

/-! ### What a step does -/

section

variable {config} {s s' : System} {a : Action} {i : ℕ} {source : Option Token}
  {attempt : AuthenticationAttempt} {challenge : Option Challenge} {now : Instant}

/-- Only the account and the cache differ. -/
structure SameRequests (s s' : System) : Prop where
  requests : s'.requests = s.requests
  issued : s'.issued = s.issued
  acceptances : s'.acceptances = s.acceptances

theorem SameRequests.refl (s : System) : SameRequests s s := ⟨rfl, rfl, rfl⟩

/-- What a step can do to the requests, the tokens and the accepted proofs. -/
inductive Effect (config : AuthConfig) (s : System) (a : Action) : System → Prop
  | other {s' : System} : SameRequests s s' → Effect config s a s'
  | close {s' : System} (i : ℕ) : SameRequests s s' → Effect config s a (s'.close i)
  | login (i : ℕ) (method : String) :
      Effect config s a
        (s.put i ⟨none, .authenticating { method := method, purpose := .login } none⟩)
  | exchange (i : ℕ) (x : Issuance) (context : AuthenticationContext) (method : String) :
      x ∈ s.issued → x.token.purpose = .auth → x.token.authContext = some context →
      Effect config s a (s.put i ⟨some x.token, .authenticating
        { method := method, purpose := .mfa, context := some context,
          expiresAt := some x.token.exp } none⟩)
  | wait (i : ℕ) (source : Token) (phase : Phase) :
      (∀ attempt challenge, phase ≠ .authenticating attempt challenge) →
      Effect config s a (s.put i ⟨some source, phase⟩)
  | escalate (i : ℕ) (source : Token) (method : String) : source.secret = s.account.secretKey →
      Effect config s a (s.put i ⟨some source, .authenticating
        { method := method, purpose := .escalation, expiresAt := some source.exp } none⟩)
  | derive (i : ℕ) (source token : Token) : source.secret = s.account.secretKey →
      token.secret = s.account.secretKey → token.authContext = none →
      Effect config s a (s.answer i (some source) token)
  | bind (i : ℕ) (now : Instant) (attemptId : String) (source : Option Token)
      (attempt bound : AuthenticationAttempt) (challenge : Option Challenge) :
      a = .bind i now attemptId →
      s.requests i = some ⟨source, .authenticating attempt challenge⟩ →
      attempt.bind config s.account now attemptId = .ok bound →
      Effect config s a (s.put i ⟨source, .authenticating bound challenge⟩)
  | permit (i : ℕ) (source : Option Token) (attempt : AuthenticationAttempt)
      (challenge challenge' : Option Challenge) :
      s.requests i = some ⟨source, .authenticating attempt challenge⟩ →
      Effect config s a (s.put i ⟨source, .authenticating attempt challenge'⟩)
  | accept (i : ℕ) (source : Option Token) (attempt accepted : AuthenticationAttempt)
      (challenge : Option Challenge) (account : Account) (acceptance : Acceptance)
      (context : AuthenticationContext) (assessment : Option PasswordAssessment) :
      s.requests i = some ⟨source, .authenticating attempt challenge⟩ →
      attempt.context = some context → acceptance.Verified config →
      accepted = attempt.withEvidence context acceptance.event assessment →
      Effect config s a { s.put i ⟨source, .authenticating accepted none⟩ with
        account := account, acceptances := s.acceptances ++ [acceptance] }
  | issue (i : ℕ) (source : Option Token) (attempt : AuthenticationAttempt)
      (challenge : Option Challenge) (now : Instant) (cacheWorks : Bool) (answer : Answer)
      (token : Token) (cache : AssessmentCache) :
      s.requests i = some ⟨source, .authenticating attempt challenge⟩ →
      finishAuthentication config attempt s.account s.cache now cacheWorks = .ok (answer, cache) →
      answer.token = some token →
      Effect config s a { s.answer i source token with cache := cache }

theorem startAttempt_cases : s.startAttempt i source attempt = s.close i ∨
      s.startAttempt i source attempt = s.put i ⟨source, .authenticating attempt none⟩ := by
  unfold System.startAttempt
  split
  · exact Or.inl rfl
  split
  · exact Or.inr rfl
  · exact Or.inl rfl

variable {token : Token} {method : Option String}

theorem effect_openExchange {target : TokenPurpose} (hpresents : s.presents token now = true) :
    Effect config s a (s.openExchange i token target method) := by
  have hclose : Effect config s a (s.close i) := .close i (.refl s)
  unfold System.openExchange
  split
  · rename_i hpurp
    split
    · rename_i ctx method hctx
      split
      · exact hclose
      rcases startAttempt_cases (s := s) (i := i) with h | h
      · rw [h]
        exact hclose
      · rw [h]
        simp only [System.presents, Bool.and_eq_true, List.any_eq_true, beq_iff_eq] at hpresents
        obtain ⟨⟨⟨⟨⟨x, hx, rfl⟩, -⟩, -⟩, -⟩, -⟩ := hpresents
        exact .exchange i x ctx method hx hpurp hctx
    · exact hclose
  · exact .wait i token _ fun _ _ => Phase.noConfusion
  · exact hclose

theorem effect_escalate : Effect config s a (s.escalate i token method now) := by
  have hclose : Effect config s a (s.close i) := .close i (.refl s)
  unfold System.escalate
  split
  · exact hclose
  · rename_i direct hdirect
    obtain ⟨hsrc, hnone | hsome⟩ := escalateDirectly_ok hdirect
    · cases hnone
    · cases hsome
      exact .derive i token _ hsrc rfl rfl
  · rename_i hproof
    obtain ⟨hsrc, -⟩ := escalateDirectly_ok hproof
    split
    · exact hclose
    rename_i method
    rcases startAttempt_cases (s := s) (i := i) with h | h
    · rw [h]
      exact hclose
    · rw [h]
      exact .escalate i token method hsrc

theorem effect_renew : Effect config s a (s.renew config i token now) := by
  unfold System.renew
  split
  · exact .close i (.refl s)
  rename_i renewed hrenewed
  obtain ⟨hsrc, hsecret, hctx⟩ := renewToken_ok hrenewed
  exact .derive i token renewed hsrc hsecret hctx

theorem effect_permit {fingerprint data : String}
    (hreq : s.requests i = some ⟨source, .authenticating attempt challenge⟩) :
    Effect config s a (s.permit config i source attempt challenge now fingerprint data) := by
  unfold System.permit
  split
  · exact .close i (.refl s)
  split
  · exact .permit i source attempt challenge challenge hreq
  split
  · exact .permit i source attempt challenge _ hreq
  · exact .close i (.refl s)

theorem verify_id (method : String) (account : Account) (proof : Proof) :
    (verify config method account challenge now proof).2.id = account.id := by
  cases proof with
  | password password =>
    simp only [verify]
    split
    · unfold verifyPassword
      split
      · rfl
      · split <;> rfl
    · rfl
  | totp token =>
    simp only [verify]
    split
    · unfold verifyTotp
      split
      · rfl
      split
      · rfl
      · split <;> rfl
    · rfl
  | publicKey fingerprint signature =>
    simp only [verify]
    split
    · unfold verifyPublicKey
      split
      · rfl
      split
      · rfl
      split
      · rfl
      · split <;> rfl
    · rfl

variable (hreq : s.requests i = some ⟨source, .authenticating attempt challenge⟩)

include hreq

theorem effect_accept {proof : Proof} {eventId : String} :
    Effect config s a (s.accept config i source attempt challenge now proof eventId) := by
  simp only [System.accept]
  split
  · exact .close i (.refl s)
  rename_i accepted progress hacc
  obtain ⟨ctx, credId, permitted, hctx, hsuccess, hcred, -, -, -, heq, -⟩ :=
    accept_ok hacc
  have hevent : attempt.event (verify config attempt.method s.account challenge now proof).2
      ctx credId eventId = attempt.event s.account ctx credId eventId := by
    unfold AuthenticationAttempt.event
    rw [verify_id]
  rw [hevent] at heq
  have hrec : s.recordAcceptance attempt challenge now proof
      (verify config attempt.method s.account challenge now proof).1 eventId =
      s.acceptances ++ [s.acceptance attempt ctx challenge now proof credId eventId] := by
    rw [System.recordAcceptance, hctx, hcred]
  rw [hrec]
  exact .accept i source attempt accepted challenge _ _ ctx _ hreq hctx ⟨hsuccess, hcred⟩ heq

theorem effect_issue {cacheWorks : Bool} :
    Effect config s a (s.issue config i source attempt now cacheWorks) := by
  unfold System.issue
  split
  · exact .close i (.refl s)
  · rename_i cache hfin
    have hsame : SameRequests s { s with cache := cache } := ⟨rfl, rfl, rfl⟩
    exact .close i hsame
  · rename_i token cache hfin
    exact .issue i source attempt challenge now cacheWorks _ token cache hreq hfin rfl

omit hreq

theorem onAttempt_eq_some
    {transaction : Option Token → AuthenticationAttempt → Option Challenge → System}
    (h : s.request i (onAttempt transaction) = some s') :
    ∃ source attempt challenge, s.requests i = some ⟨source, .authenticating attempt challenge⟩ ∧
      s' = transaction source attempt challenge := by
  obtain ⟨⟨source, phase⟩, hreq, h⟩ := Option.bind_eq_some_iff.mp h
  cases phase with
  | escalating method | refreshing => cases h
  | authenticating attempt challenge =>
    cases h
    exact ⟨source, attempt, challenge, hreq, rfl⟩

/-- **What one step does.** -/
theorem protocolStep_effect (h : protocolStep config s a = some s') : Effect config s a s' := by
  cases a with
  | openLogin i method =>
    simp only [protocolStep] at h
    split at h
    · cases h
    cases h
    rcases startAttempt_cases (s := s) (i := i) with heq | heq
    · rw [heq]
      exact .close i (.refl s)
    · rw [heq]
      exact .login i method
  | openExchange i token target method now =>
    simp only [protocolStep] at h
    split at h
    · cases h
    rename_i hopen
    cases h
    have hpresents : s.presents token now = true := by simpa using (not_or.mp hopen).2
    exact effect_openExchange hpresents
  | openRefresh i token now =>
    simp only [protocolStep] at h
    split at h
    · cases h
    · cases h
      exact .wait i token _ fun _ _ => Phase.noConfusion
  | escalate i now =>
    obtain ⟨⟨source, phase⟩, -, h⟩ := Option.bind_eq_some_iff.mp h
    split at h
    · cases h
      exact effect_escalate
    · cases h
  | renew i now =>
    obtain ⟨⟨source, phase⟩, -, h⟩ := Option.bind_eq_some_iff.mp h
    split at h
    · cases h
      exact effect_renew
    · cases h
  | bind i now attemptId =>
    obtain ⟨source, attempt, challenge, hreq, rfl⟩ := onAttempt_eq_some h
    show Effect config s _ (s.bind config i source attempt challenge now attemptId)
    unfold System.bind
    split
    · exact .close i (.refl s)
    · rename_i bound hbound
      exact .bind i now attemptId source attempt bound challenge rfl hreq hbound
  | permit i now fingerprint data =>
    obtain ⟨source, attempt, challenge, hreq, rfl⟩ := onAttempt_eq_some h
    exact effect_permit hreq
  | accept i now proof eventId =>
    obtain ⟨source, attempt, challenge, hreq, rfl⟩ := onAttempt_eq_some h
    exact effect_accept hreq
  | issue i now cacheWorks =>
    obtain ⟨source, attempt, challenge, hreq, rfl⟩ := onAttempt_eq_some h
    exact effect_issue hreq
  | disconnect i =>
    cases h
    exact .close i (.refl s)
  | manage operation =>
    cases h
    unfold System.manage
    split
    · exact .other (.refl s)
    · exact .other ⟨rfl, rfl, rfl⟩
  | rotateKey key | setStatus status | evict attemptId =>
    cases h
    exact .other ⟨rfl, rfl, rfl⟩

end

end Cfms.Identity
