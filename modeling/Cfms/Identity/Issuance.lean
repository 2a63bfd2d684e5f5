import Cfms.Identity.LoginProtocol

/-!
# What issued tokens rest on

Two properties of every run of the protocol.  A session is opened when the evidence of the attempt,
all of it verified proofs, passes both policies of the account as it is then.  A token that is
derived from another is signed with the same key, as long as no key change comes between the
escalation transaction of an exchange and the moment its provider binds the account.

Both follow from an invariant about each open request and each issued token.
-/

namespace Cfms.Identity

open List

open Access (Instant)
open Lib.Run

/-! ### Invariants of requests and tokens -/

/-- Every open request has `P`, every issued token `Q`. -/
structure Holds (P : Request → Prop) (Q : Issuance → Prop) (s : System) : Prop where
  requests : ∀ i request, s.requests i = some request → P request
  issued : ∀ x ∈ s.issued, Q x

section

variable {config : AuthConfig} {P P' : Request → Prop} {Q Q' : Issuance → Prop} {s s' : System}
  {i : ℕ}

theorem holds_start (account : Account) : Holds P Q (System.start account) where
  requests := by
    intro i request hreq
    cases hreq
  issued := by
    intro x hx
    cases hx

theorem Holds.same (h : Holds P Q s) (hsame : SameRequests s s') : Holds P Q s' where
  requests := by
    intro i request hreq
    rw [hsame.requests] at hreq
    exact h.requests i request hreq
  issued := by
    intro x hx
    rw [hsame.issued] at hx
    exact h.issued x hx

theorem Holds.mono (h : Holds P Q s) (hP : ∀ request, P request → P' request)
    (hQ : ∀ x, Q x → Q' x) : Holds P' Q' s where
  requests i request hreq := hP request (h.requests i request hreq)
  issued x hx := hQ x (h.issued x hx)

theorem Holds.close (h : Holds P Q s) (i : ℕ) : Holds P Q (s.close i) where
  requests := by
    intro j request hreq
    by_cases hj : j = i
    · subst hj
      simp [System.close] at hreq
    · refine h.requests j request ?_
      simpa [System.close, hj] using hreq
  issued := h.issued

theorem Holds.put (h : Holds P Q s) {request : Request} (hreq : P request) :
    Holds P Q (s.put i request) where
  requests := by
    intro j other hother
    by_cases hj : j = i
    · subst hj
      simp only [System.put, Function.update_self, Option.some.injEq] at hother
      rw [← hother]
      exact hreq
    · refine h.requests j other ?_
      simpa [System.put, hj] using hother
  issued := h.issued

theorem Holds.answer (h : Holds P Q s) {source : Option Token} {token : Token}
    (htoken : Q ⟨source, token⟩) : Holds P Q (s.answer i source token) where
  requests := (h.close i).requests
  issued := by
    intro x hx
    rcases mem_append.mp hx with hold | hnew
    · exact h.issued x hold
    · rw [mem_singleton.mp hnew]
      exact htoken

end

/-! ### Sessions -/

variable (config : AuthConfig)

/-- The evidence of a context was accepted, each piece after a successful verification. -/
def Evidenced (acceptances : List Acceptance) (context : AuthenticationContext) : Prop :=
  ∀ e ∈ context.evidence, ∃ acceptance ∈ acceptances,
    acceptance.event = e ∧ acceptance.Verified config

def EvidencedRequest (acceptances : List Acceptance) (request : Request) : Prop :=
  ∀ attempt challenge, request.phase = .authenticating attempt challenge →
    ∀ context, attempt.context = some context → Evidenced config acceptances context

def EvidencedToken (acceptances : List Acceptance) (x : Issuance) : Prop :=
  ∀ context, x.token.authContext = some context → Evidenced config acceptances context

variable (s : System)

def AllEvidenced : Prop :=
  Holds (EvidencedRequest config s.acceptances) (EvidencedToken config s.acceptances) s

/-- What a session rests on, in the state of the transaction that opens it. -/
structure SessionJustified (context : AuthenticationContext) : Prop where
  active : s.account.status = .active
  key : context.signingKeyDigest = config.sha256 s.account.secretKey
  revisions : ∀ purpose ∈ [AuthPurpose.login, .mfa],
    s.account.revision purpose = context.revision purpose
  policies : BothPoliciesPassed s.account context
  registered : ∀ e ∈ context.evidence, ∃ credential ∈ s.account.listUserCredentials,
    credential.method = e.method ∧ credential.credentialId = e.credentialId ∧
      credential.active = true
  distinct : (context.evidence.map AuthEvidence.eventId).Nodup
  attempt : ∀ e ∈ context.evidence, e.userId = s.account.id ∧ e.attemptId = context.attemptId
  verified : Evidenced config s.acceptances context

section

variable {config : AuthConfig} {s s' : System} {a : Action} {acceptances : List Acceptance}
  {context : AuthenticationContext}

theorem Evidenced.append (h : Evidenced config acceptances context) (more : List Acceptance) :
    Evidenced config (acceptances ++ more) context := by
  intro e he
  obtain ⟨acceptance, hmem, hevent⟩ := h e he
  exact ⟨acceptance, mem_append_left more hmem, hevent⟩

theorem evidencedRequest_attempt {source : Option Token} {attempt : AuthenticationAttempt}
    {challenge : Option Challenge} :
    EvidencedRequest config acceptances ⟨source, .authenticating attempt challenge⟩ ↔
      ∀ context, attempt.context = some context → Evidenced config acceptances context := by
  constructor
  · intro h
    exact h attempt challenge rfl
  · intro h attempt' challenge' hphase
    cases hphase
    exact h

theorem allEvidenced_step (h : AllEvidenced config s) (hstep : protocolStep config s a = some s') :
    AllEvidenced config s' := by
  cases protocolStep_effect hstep with
  | other hsame =>
    unfold AllEvidenced
    rw [hsame.acceptances]
    exact h.same hsame
  | close i hsame =>
    have hkept := (h.same hsame).close i
    rw [← hsame.acceptances] at hkept
    exact hkept
  | login i method | escalate i source method hsrc => exact h.put (evidencedRequest_attempt.mpr nofun)
  | exchange i x context method hx hpurp hctx =>
    refine h.put (evidencedRequest_attempt.mpr ?_)
    intro bound hbound
    cases hbound
    exact h.issued x hx context hctx
  | wait i source phase hphase =>
    exact h.put fun attempt challenge heq => absurd heq (hphase attempt challenge)
  | derive i source token hsrc hsecret hctx =>
    refine h.answer ?_
    intro context heq
    rw [hctx] at heq
    cases heq
  | bind i now attemptId source attempt bound challenge ha hreq hbound =>
    have hbef := evidencedRequest_attempt.mp (h.requests i _ hreq)
    refine h.put (evidencedRequest_attempt.mpr ?_)
    rcases bind_ok hbound with ⟨-, rfl⟩ | ⟨-, -, rfl⟩
    · exact hbef
    intro context heq
    cases heq
    -- A fresh context has no evidence.
    exact nofun
  | permit i source attempt challenge challenge' hreq =>
    exact h.put (evidencedRequest_attempt.mpr (evidencedRequest_attempt.mp (h.requests i _ hreq)))
  | accept i source attempt accepted challenge account acceptance context assessment hreq
      hctx hver hacc =>
    have hbef := evidencedRequest_attempt.mp (h.requests i _ hreq) context hctx
    have hmore : Holds (EvidencedRequest config (s.acceptances ++ [acceptance]))
        (EvidencedToken config (s.acceptances ++ [acceptance])) s :=
      h.mono (fun request hold attempt challenge hphase context heq =>
          (hold attempt challenge hphase context heq).append _)
        (fun x hold context heq => (hold context heq).append _)
    have hnew : EvidencedRequest config (s.acceptances ++ [acceptance])
        ⟨source, .authenticating accepted none⟩ := by
      refine evidencedRequest_attempt.mpr ?_
      intro bound hbound e he
      rw [hacc] at hbound
      cases hbound
      rcases mem_append.mp he with hold | hlast
      · exact hbef.append _ e hold
      · rw [mem_singleton.mp hlast]
        exact ⟨acceptance, mem_append_right _ (mem_singleton_self _), rfl, hver⟩
    exact ⟨(hmore.put hnew).requests, (hmore.put (i := i) hnew).issued⟩
  | issue i source attempt challenge now cacheWorks answer token cache hreq hfin htoken =>
    have hbef := evidencedRequest_attempt.mp (h.requests i _ hreq)
    obtain ⟨context, hctx, -, hkind⟩ := finishAuthentication_token hfin htoken
    have hnew : EvidencedToken config s.acceptances ⟨source, token⟩ := by
      intro carried hcarr
      rcases hkind with ⟨-, rfl⟩ | ⟨-, progress, hends⟩
      · cases hcarr
      by_cases hgen : token.purpose = .general
      · rw [(hends.session hgen).2] at hcarr
        cases hcarr
      · rw [hends.continuation hgen] at hcarr
        cases hcarr
        exact hbef context hctx
    exact ⟨(h.answer hnew).requests, (h.answer (i := i) hnew).issued⟩

theorem allEvidenced_run {account : Account} {actions : List Action}
    (h : run (protocolStep config) (System.start account) actions = some s) :
    AllEvidenced config s :=
  run_invariant (C := fun _ _ => True) (fun _ _ _ hs _ hstep => allEvidenced_step hs hstep)
    (holds_start account) (meets_true actions) h

theorem registered_of_valid
    (h : evidenceIsValid (s.account.credentialsOf (context.evidence.map AuthEvidence.method))
      context.evidence s.account.id context.attemptId = true) {e : AuthEvidence}
    (he : e ∈ context.evidence) : ∃ cred ∈ s.account.listUserCredentials,
      cred.method = e.method ∧ cred.credentialId = e.credentialId ∧ cred.active = true := by
  simp only [evidenceIsValid, Bool.and_eq_true, all_eq_true] at h
  have hsome := (h.2 e he).2
  rw [activeCredential_credentialsOf s.account (mem_map_of_mem he),
    ← activeCredential_listUserCredentials] at hsome
  obtain ⟨cred, hfound⟩ := Option.isSome_iff_exists.mp hsome
  have hmem := mem_reverse.mp (mem_of_find?_eq_some hfound)
  have hfits := find?_some hfound
  simp only [Bool.and_eq_true, beq_iff_eq] at hfits
  exact ⟨cred, hmem, hfits.1.2, hfits.2, hfits.1.1⟩

/-- **A session is issued only after one attempt has passed both policies.** -/
theorem session_justified {account : Account} {actions : List Action}
    (hrun : run (protocolStep config) (System.start account) actions = some s) {i : ℕ}
    {source : Option Token} {attempt : AuthenticationAttempt} {challenge : Option Challenge}
    (hreq : s.requests i = some ⟨source, .authenticating attempt challenge⟩)
    (hctx : attempt.context = some context) {now : Instant} {cacheWorks : Bool}
    {answer : Answer} {cache : AssessmentCache}
    (hfin : finishLoginAttempt config s.account s.cache context attempt.expiresAt
      attempt.passwordAssessment now cacheWorks = .ok (answer, cache)) {token : Token}
    (htoken : answer.token = some token) (hgen : token.purpose = .general) :
    SessionJustified config s context := by
  obtain ⟨hact, progress, hprog, hends⟩ := finishLoginAttempt_token hfin htoken
  obtain ⟨hvalid, loginMethod, hmeth, hlogin⟩ := getLoginProgress_ok.mp hprog
  obtain ⟨hkey, hrevs, hev⟩ := validateAuthenticationContext_ok.mp hvalid
  have hparts := hev
  simp only [evidenceIsValid, Bool.and_eq_true, decide_eq_true_eq, all_eq_true,
    beq_iff_eq] at hparts
  exact {
    active := hact
    key := hkey
    revisions := hrevs
    policies := bothPoliciesPassed_of_loginProgress hmeth hparts.1 hlogin
      (hends.session hgen).1
    registered := fun e he => registered_of_valid hev he
    distinct := hparts.1
    attempt := fun e he => (hparts.2 e he).1
    verified := evidencedRequest_attempt.mp ((allEvidenced_run hrun).requests i _ hreq) context
      hctx }

def passwordAccount : Account where
  id := "user"
  status := .active
  secretKey := "key"
  policies purpose :=
    if purpose = .login then some ⟨1, [⟨[⟨"password", ["p"]⟩], by simp⟩]⟩ else none
  password := some ⟨"p", "secret", 5⟩
  totp := none
  publicKeys := []

/-- The same account with a public key as its second factor. -/
def guardedAccount : Account :=
  { passwordAccount with
    policies := fun purpose =>
      if purpose = .mfa then some ⟨1, [⟨[⟨"publickey", ["k"]⟩], List.cons_ne_nil _ _⟩]⟩
      else passwordAccount.policies purpose
    publicKeys := [⟨"k", "der", "fingerprint"⟩] }

/-- The context after the password, and after the signature by the key. -/
def guardedContext (more : List AuthEvidence) : AuthenticationContext :=
  ⟨"attempt", some "password", "key", 1, 1, 0,
    ⟨"user", "attempt", "event", "password", "p"⟩ :: more⟩

def guardedToken : Token := ⟨"user", .auth, 1811, "key", some (guardedContext [])⟩

/-- A login with the password and an exchange of its token, up to the last transaction. -/
def guardedLogin : List Action :=
  [.openLogin 0 "password", .bind 0 10 "attempt", .accept 0 10 (.password "secret") "event",
    .issue 0 11 true, .openExchange 1 guardedToken .general (some "publickey") 12,
    .bind 1 12 "unused", .permit 1 12 "fingerprint" "nonce",
    .accept 1 13 (.publicKey "fingerprint" "dernonce") "signed"]

def guardedSystem : System :=
  (run (protocolStep plainConfig) (System.start guardedAccount) guardedLogin).getD
    (System.start guardedAccount)

/-- The evidence that the signature adds. -/
def signedEvidence : AuthEvidence := ⟨"user", "attempt", "signed", "publickey", "k"⟩

theorem session_justified_password :
    SessionJustified plainConfig guardedSystem (guardedContext [signedEvidence]) :=
  session_justified
    (show run (protocolStep plainConfig) (System.start guardedAccount) guardedLogin =
      some guardedSystem by with_unfolding_all rfl)
    (show guardedSystem.requests 1 = some ⟨some guardedToken, .authenticating
      { method := "publickey", purpose := .mfa, context := some (guardedContext [signedEvidence]),
        expiresAt := some 1811 } none⟩ by with_unfolding_all rfl)
    rfl
    (show finishLoginAttempt plainConfig guardedSystem.account guardedSystem.cache
      (guardedContext [signedEvidence]) (some 1811) none 14 true =
      .ok (⟨200, "Login successful", some ⟨"user", .general, 3614, "key", none⟩⟩, _) by
        with_unfolding_all rfl)
    rfl rfl

end

/-! ### Derived tokens -/

/-- The second token was issued for the first. -/
def DerivedFrom (source token : Token) : Prop :=
  (⟨some source, token⟩ : Issuance) ∈ s.issued

/-- Every token that was issued for another is signed with the same key. -/
def DerivationKeepsKey : Prop :=
  ∀ source token, DerivedFrom s source token → token.secret = source.secret

/-- An escalation whose provider binds the account finds the key that its source is signed with. -/
def BindsUnderSourceKey : Action → Prop
  | .bind i _ _ => ∀ source attempt challenge,
      s.requests i = some ⟨some source, .authenticating attempt challenge⟩ →
      attempt.purpose = .escalation → attempt.context = none →
      source.secret = s.account.secretKey
  | _ => True

/-- An attempt that came with a token is no login, and its context is of the token's key. -/
def KeyedRequest (request : Request) : Prop :=
  ∀ source attempt challenge, request = ⟨some source, .authenticating attempt challenge⟩ →
    attempt.purpose ≠ .login ∧ ∀ context, attempt.context = some context →
      context.signingKeyDigest = config.sha256 source.secret

def KeyedToken (x : Issuance) : Prop :=
  (∀ context, x.token.authContext = some context →
    context.signingKeyDigest = config.sha256 x.token.secret) ∧
  ∀ source, x.source = some source → x.token.secret = source.secret

section

variable {config : AuthConfig} {s s' : System} {a : Action}

theorem keyedRequest_of_context {source : Option Token} {attempt attempt' : AuthenticationAttempt}
    {challenge challenge' : Option Challenge}
    (h : KeyedRequest config ⟨source, .authenticating attempt challenge⟩)
    (hpurp : attempt'.purpose = attempt.purpose)
    (hctx : ∀ source', source = some source' → ∀ context, attempt'.context = some context →
      context.signingKeyDigest = config.sha256 source'.secret) :
    KeyedRequest config ⟨source, .authenticating attempt' challenge'⟩ := by
  intro source' bound challenge'' heq
  cases heq
  rw [hpurp]
  exact ⟨(h source' attempt challenge rfl).1, hctx source' rfl⟩

theorem keyed_step (hsha : Function.Injective config.sha256)
    (h : Holds (KeyedRequest config) (KeyedToken config) s) (hcond : BindsUnderSourceKey s a)
    (hstep : protocolStep config s a = some s') :
    Holds (KeyedRequest config) (KeyedToken config) s' := by
  cases protocolStep_effect hstep with
  | other hsame => exact h.same hsame
  | close i hsame => exact (h.same hsame).close i
  | login i method =>
    refine h.put ?_
    intro source attempt challenge heq
    cases heq
  | exchange i x context method hx hpurp hctx =>
    refine h.put ?_
    intro source attempt challenge heq
    cases heq
    refine ⟨nofun, ?_⟩
    intro bound hbound
    cases hbound
    exact (h.issued x hx).1 context hctx
  | wait i source phase hphase =>
    refine h.put ?_
    intro source' attempt challenge heq
    cases heq
    exact absurd rfl (hphase attempt challenge)
  | escalate i source method hsrc =>
    refine h.put ?_
    intro source' attempt challenge heq
    cases heq
    exact ⟨nofun, nofun⟩
  | derive i source token hsrc hsecret hctx =>
    refine h.answer ⟨?_, ?_⟩
    · intro context heq
      rw [hctx] at heq
      cases heq
    · intro source' heq
      cases heq
      exact hsecret.trans hsrc.symm
  | bind i now attemptId source attempt bound challenge ha hreq hbound =>
    have hbef := h.requests i _ hreq
    rcases bind_ok hbound with ⟨-, rfl⟩ | ⟨hnone, hmfa, rfl⟩
    · exact h.put hbef
    refine h.put (keyedRequest_of_context hbef rfl ?_)
    rintro source' rfl context heq
    cases heq
    -- With a token and no context, the attempt is an escalation.
    have hpurp : attempt.purpose = .escalation := by
      cases hp : attempt.purpose with
      | login => exact absurd hp (hbef source' attempt challenge rfl).1
      | mfa => exact absurd hp hmfa
      | escalation => rfl
    subst ha
    rw [hcond source' attempt challenge hreq hpurp hnone]
    rfl
  | permit i source attempt challenge challenge' hreq =>
    have hbef := h.requests i _ hreq
    refine h.put (keyedRequest_of_context hbef rfl ?_)
    rintro source' rfl
    exact (hbef source' attempt challenge rfl).2
  | accept i source attempt accepted challenge account acceptance context assessment hreq
      hctx hver hacc =>
    have hbef := h.requests i _ hreq
    have hnew : KeyedRequest config ⟨source, .authenticating accepted none⟩ := by
      rw [hacc]
      refine keyedRequest_of_context hbef rfl ?_
      rintro source' rfl bound hbound
      cases hbound
      exact (hbef source' attempt challenge rfl).2 context hctx
    exact ⟨(h.put hnew).requests, (h.put (i := i) hnew).issued⟩
  | issue i source attempt challenge now cacheWorks answer token cache hreq hfin htoken =>
    have hbef := h.requests i _ hreq
    obtain ⟨context, hctx, hdig, hkind⟩ := finishAuthentication_token hfin htoken
    have hsecret : token.secret = s.account.secretKey := by
      rcases hkind with ⟨-, rfl⟩ | ⟨-, progress, hends⟩
      · rfl
      · exact hends.secret
    have hcarr : ∀ carried, token.authContext = some carried → carried = context := by
      intro carried heq
      rcases hkind with ⟨-, rfl⟩ | ⟨-, progress, hends⟩
      · cases heq
      by_cases hgen : token.purpose = .general
      · rw [(hends.session hgen).2] at heq
        cases heq
      · rw [hends.continuation hgen] at heq
        exact (Option.some.inj heq).symm
    have hnew : KeyedToken config ⟨source, token⟩ := by
      refine ⟨?_, ?_⟩
      · intro carried heq
        rw [hcarr carried heq, hdig, ← hsecret]
      · rintro source' rfl
        -- Both keys have the digest of the context.
        have hsrc := (hbef source' attempt challenge rfl).2 context hctx
        rw [hsecret]
        exact hsha (hdig.symm.trans hsrc)
    exact ⟨(h.answer hnew).requests, (h.answer (i := i) hnew).issued⟩

/-- **Derivation keeps the key in every run whose escalations bind under the key of their source**,
and a token that the current key does not verify leads to none that it does. -/
theorem derivation_keeps_key (hsha : Function.Injective config.sha256) {account : Account}
    {actions : List Action}
    (hmeets : Meets (protocolStep config) BindsUnderSourceKey (System.start account) actions)
    (hrun : run (protocolStep config) (System.start account) actions = some s) :
    DerivationKeepsKey s ∧ ∀ held token, Relation.ReflTransGen (DerivedFrom s) held token →
        held.secret ≠ s.account.secretKey → ∀ now, token.verifies s.account.secretKey now = false := by
  have hkeyed : Holds (KeyedRequest config) (KeyedToken config) s :=
    run_invariant (fun _ _ _ hs hcond hstep => keyed_step hsha hs hcond hstep)
      (holds_start account) hmeets hrun
  have hkeeps : DerivationKeepsKey s :=
    fun source token hder => (hkeyed.issued _ hder).2 source rfl
  refine ⟨hkeeps, ?_⟩
  intro held token hder hold now
  have hsame : token.secret = held.secret := by
    induction hder with
    | refl => rfl
    | tail _ hlast ih => exact (hkeeps _ _ hlast).trans ih
  have hother : (token.secret == s.account.secretKey) = false := by
    rw [hsame]
    exact beq_false_of_ne hold
  simp [Token.verifies, hother]

def escalatingAccount : Account :=
  { passwordAccount with
    policies := fun purpose =>
      if purpose = .escalation then some ⟨1, [⟨[⟨"publickey", ["k"]⟩], List.cons_ne_nil _ _⟩]⟩
      else passwordAccount.policies purpose
    publicKeys := [⟨"k", "der", "fingerprint"⟩] }

def passwordSession : Token := ⟨"user", .general, 3611, "key", none⟩

def escalationStarted : List Action :=
  [.openLogin 0 "password", .bind 0 10 "login", .accept 0 10 (.password "secret") "event",
    .issue 0 11 true, .openExchange 1 passwordSession .generalWithEscalation (some "publickey") 20,
    .escalate 1 20]

/-- The proof of the escalation. -/
def escalationProved : List Action :=
  [.bind 1 21 "escalation", .permit 1 21 "fingerprint" "nonce",
    .accept 1 22 (.publicKey "fingerprint" "dernonce") "signed", .issue 1 22 true]

def rotatedEscalation : System :=
  (run (protocolStep plainConfig) (System.start escalatingAccount)
    (escalationStarted ++
      .manage (.setPassword ⟨"p", "changed", 21, "new key", none⟩) :: escalationProved)).getD
    (System.start escalatingAccount)

/-- The password is changed between the escalation transaction and the binding, and the exchange
turns a token of the old key into one of the new key. -/
theorem derivation_crosses_rotation :
    run (protocolStep plainConfig) (System.start escalatingAccount) (escalationStarted ++
          .manage (.setPassword ⟨"p", "changed", 21, "new key", none⟩) :: escalationProved) =
        some rotatedEscalation ∧
      rotatedEscalation.account.secretKey = "new key" ∧ ¬ DerivationKeepsKey rotatedEscalation := by
  refine ⟨by with_unfolding_all rfl, by with_unfolding_all rfl, ?_⟩
  intro hkeeps
  have hiss : rotatedEscalation.issued = [⟨none, passwordSession⟩,
      ⟨some passwordSession, ⟨"user", .generalWithEscalation, 322, "new key", none⟩⟩] := by
    with_unfolding_all rfl
  have hder : DerivedFrom rotatedEscalation passwordSession
      ⟨"user", .generalWithEscalation, 322, "new key", none⟩ := by
    rw [DerivedFrom, hiss]
    simp
  exact absurd (hkeeps _ _ hder) (by decide)

theorem meets_escalation :
    Meets (protocolStep plainConfig) BindsUnderSourceKey (System.start escalatingAccount)
      (escalationStarted ++ escalationProved) := by
  with_unfolding_all
    refine meets_cons rfl trivial ?_
    refine meets_cons rfl (by intro _ _ _ h; cases h) ?_
    refine meets_cons rfl trivial ?_
    refine meets_cons rfl trivial ?_
    refine meets_cons rfl trivial ?_
    refine meets_cons rfl trivial ?_
    refine meets_cons rfl (by intro _ _ _ h; cases h; intros; rfl) ?_
    refine meets_cons rfl trivial ?_
    refine meets_cons rfl trivial ?_
    refine meets_cons rfl trivial ?_
    trivial

def plainEscalation : System :=
  (run (protocolStep plainConfig) (System.start escalatingAccount)
    (escalationStarted ++ escalationProved)).getD (System.start escalatingAccount)

theorem derivation_keeps_key_escalation :
    DerivationKeepsKey plainEscalation ∧ plainEscalation.issued = [⟨none, passwordSession⟩,
        ⟨some passwordSession, ⟨"user", .generalWithEscalation, 322, "key", none⟩⟩] :=
  ⟨(derivation_keeps_key Function.injective_id meets_escalation
    (by with_unfolding_all rfl)).1, by with_unfolding_all rfl⟩

end

end Cfms.Identity
