import Cfms.Identity.Management

/-!
# Completing a policy proof by proof

A plan for a chain names one active credential for each step, no public key twice.  The server does
not know the plan: before each proof it computes from the evidence which credentials it permits, and
it accepts a proof of one of these.  This module shows that a client that follows a plan is never
refused, and that the stage is complete at the latest when the plan is used up.
-/

namespace Cfms.Identity

open List

open Access (Instant)
open Lib.OrderedMatching

/-! ### Plans -/

def Account.keyIdentity (account : Account) (credentialId : String) : Option String :=
  (activeCredential account.listUserCredentials "publickey" credentialId).bind
    RegisteredCredential.keyIdentity

variable (account : Account)

/-- One active credential for each step; no public key comes twice. -/
structure Plan (chain : AuthChain) (ids : List String) : Prop where
  admitted : List.Forall₂ (fun (step : AuthStep) id => id ∈ step.credentialIds) chain.steps ids
  active : ∀ id ∈ ids,
    (activeCredential account.listUserCredentials chain.head.method id).isSome = true
  keyed : chain.head.method = "publickey" → ∀ id ∈ ids, (account.keyIdentity id).isSome = true
  distinct : chain.head.method = "publickey" → (ids.map account.keyIdentity).Nodup

/-- A proof is the id of a credential, and the event it becomes when it is accepted. -/
abbrev SubmittedProof := String × String

/-- The events that proofs of one method become. -/
def evidenceOf (attemptId method : String) (proofs : List SubmittedProof) : List AuthEvidence :=
  proofs.map fun proof => ⟨account.id, attemptId, proof.2, method, proof.1⟩

structure GoodEvidence (attemptId : String) (evidence : List AuthEvidence) : Prop where
  nodup : (evidence.map AuthEvidence.eventId).Nodup
  own : ∀ e ∈ evidence, e.userId = account.id ∧ e.attemptId = attemptId
  active : ∀ e ∈ evidence,
    (activeCredential account.listUserCredentials e.method e.credentialId).isSome = true

section

variable {account : Account} {chain : AuthChain} {ids : List String} {attemptId method : String}
  {proofs : List SubmittedProof} {evidence : List AuthEvidence}

variable (h : GoodEvidence account attemptId evidence)

include h

theorem GoodEvidence.valid {methods : List String}
    (hmeths : ∀ e ∈ evidence, e.method ∈ methods) :
    evidenceIsValid (account.credentialsOf methods) evidence account.id attemptId = true := by
  simp only [evidenceIsValid, Bool.and_eq_true, decide_eq_true_eq, all_eq_true, beq_iff_eq]
  refine ⟨h.nodup, ?_⟩
  intro e he
  refine ⟨h.own e he, ?_⟩
  rw [activeCredential_credentialsOf account (hmeths e he), ← activeCredential_listUserCredentials]
  exact h.active e he

theorem GoodEvidence.sublist {part : List AuthEvidence}
    (hpart : part.Sublist evidence) : GoodEvidence account attemptId part where
  nodup := h.nodup.sublist (hpart.map _)
  own e he := h.own e (hpart.subset he)
  active e he := h.active e (hpart.subset he)

theorem GoodEvidence.append {more : List AuthEvidence} (hmore : GoodEvidence account attemptId more)
    (hdist : ∀ e ∈ evidence, ∀ f ∈ more, e.eventId ≠ f.eventId) :
    GoodEvidence account attemptId (evidence ++ more) where
  nodup := by
    rw [map_append]
    refine List.Nodup.append h.nodup hmore.nodup ?_
    intro id hid hid'
    obtain ⟨e, he, rfl⟩ := mem_map.mp hid
    obtain ⟨f, hf, hsame⟩ := mem_map.mp hid'
    exact hdist e he f hf hsame.symm
  own e he := (mem_append.mp he).elim (h.own e) (hmore.own e)
  active e he := (mem_append.mp he).elim (h.active e) (hmore.active e)

omit h

theorem mem_evidenceOf {e : AuthEvidence} : e ∈ evidenceOf account attemptId method proofs ↔
      ∃ proof ∈ proofs, e = ⟨account.id, attemptId, proof.2, method, proof.1⟩ := by
  simp only [evidenceOf, mem_map, eq_comm]

theorem evidenceOf_take (k : ℕ) : evidenceOf account attemptId method (proofs.take k) =
      (evidenceOf account attemptId method proofs).take k := map_take

theorem Plan.goodEvidence (hplan : Plan account chain (proofs.map Prod.fst))
    (hnodup : (proofs.map Prod.snd).Nodup) :
    GoodEvidence account attemptId (evidenceOf account attemptId chain.head.method proofs) where
  nodup := by
    rw [evidenceOf, map_map]
    exact hnodup
  own := by
    intro e he
    obtain ⟨proof, -, rfl⟩ := mem_evidenceOf.mp he
    exact ⟨rfl, rfl⟩
  active := by
    intro e he
    obtain ⟨proof, hproof, rfl⟩ := mem_evidenceOf.mp he
    exact hplan.active proof.1 (mem_map_of_mem hproof)

theorem Plan.consumes (hplan : Plan account chain (proofs.map Prod.fst))
    (hsing : ∀ step ∈ chain.steps, step.method = chain.head.method) :
    ∃ keys, consume (takeEvent account.listUserCredentials) chain.steps
      (evidenceOf account attemptId chain.head.method proofs) ∅ = some keys := by
  have hident : ∀ proof : SubmittedProof, chain.head.method = "publickey" →
      keyIdentityOf account.listUserCredentials
        ⟨account.id, attemptId, proof.2, chain.head.method, proof.1⟩ =
        account.keyIdentity proof.1 := by
    intro proof hkey
    rw [keyIdentityOf, Account.keyIdentity, hkey]
  refine consume_of_completes ?_ ?_ ?_
  · have hsteps := hplan.admitted
    rw [forall₂_map_right_iff] at hsteps
    rw [forall₂_iff_zip] at hsteps
    rw [evidenceOf, forall₂_map_right_iff, forall₂_iff_zip]
    refine ⟨hsteps.1, ?_⟩
    intro step proof hmem
    exact ⟨(hsing step (of_mem_zip hmem).1).symm, hsteps.2 hmem⟩
  · intro e he hkey
    obtain ⟨proof, hproof, rfl⟩ := mem_evidenceOf.mp he
    obtain ⟨identity, hid⟩ := Option.isSome_iff_exists.mp
      (hplan.keyed hkey proof.1 (mem_map_of_mem hproof))
    exact ⟨identity, (hident proof hkey).trans hid, Finset.notMem_empty identity⟩
  · rw [evidenceOf, pairwise_map]
    by_cases hkey : chain.head.method = "publickey"
    · have hdist := hplan.distinct hkey
      rw [map_map, List.Nodup, pairwise_map] at hdist
      refine hdist.imp ?_
      intro first second hne _ _
      rw [hident first hkey, hident second hkey]
      exact hne
    · exact pairwise_of_forall fun first second hfirst => absurd hfirst hkey

end

/-! ### Following a plan -/

/-- A chain that a client can complete for a purpose. -/
structure Usable (purpose : AuthPurpose) (chain : AuthChain) : Prop where
  member : chain ∈ account.chains purpose
  single : ∀ step ∈ chain.steps, step.method = chain.head.method
  supported : ∃ provider, getProvider chain.head.method = some provider ∧
    purpose ∈ provider.supportedPurposes
  allowed : purpose = .login → chain.head.method ∉ loginDisallowedMethods
  /-- One request takes one proof, except for public keys. -/
  brief : chain.head.method ≠ "publickey" → chain.steps.length = 1
  planned : ∃ ids, Plan account chain ids

section

variable {account : Account} {purpose : AuthPurpose} {chain : AuthChain} {attemptId : String}
  {proofs : List SubmittedProof}

variable {creds creds' : List RegisteredCredential} {usedKeys : Finset String}

theorem takeEvent_congr {step : AuthStep} {event : AuthEvidence}
    (h : keyIdentityOf creds event = keyIdentityOf creds' event) :
    takeEvent creds step event usedKeys = takeEvent creds' step event usedKeys := by
  unfold takeEvent
  rw [h]

theorem consume_congr {steps : List AuthStep} {events : List AuthEvidence}
    (h : ∀ e ∈ events, keyIdentityOf creds e = keyIdentityOf creds' e) :
    consume (takeEvent creds) steps events usedKeys =
      consume (takeEvent creds') steps events usedKeys := by
  induction events generalizing steps usedKeys with
  | nil => cases steps <;> rfl
  | cons e rest ih =>
    cases steps with
    | nil => rfl
    | cons step steps =>
      rw [consume, takeEvent_congr (h e mem_cons_self)]
      congr 1
      funext keys
      exact ih fun f hf => h f (mem_cons_of_mem e hf)

theorem Usable.considered (h : Usable account purpose chain) {methods : List String}
    (hmeth : chain.head.method ∈ methods) :
    isConsidered (account.credentialsOf methods) purpose chain = true := by
  obtain ⟨ids, hplan⟩ := h.planned
  simp only [isConsidered, AuthChain.isSingleMethod, Bool.and_eq_true, all_eq_true,
    beq_iff_eq, Bool.not_eq_true', Bool.and_eq_false_imp, any_eq_false, any_eq_true]
  refine ⟨⟨h.single, ?_⟩, ?_⟩
  · intro hlogin step hstep
    rw [h.single step hstep, contains_iff_mem]
    exact h.allowed hlogin
  · intro step hstep
    obtain ⟨i, hi, hget⟩ := mem_iff_getElem.mp hstep
    have hzip := forall₂_iff_get.mp hplan.admitted
    have hi' : i < ids.length := hzip.1 ▸ hi
    have hadm := hzip.2 i hi hi'
    rw [get_eq_getElem, hget] at hadm
    refine ⟨ids[i], hadm, ?_⟩
    rw [h.single step hstep, activeCredential_credentialsOf account hmeth,
      ← activeCredential_listUserCredentials]
    exact hplan.active _ (getElem_mem hi')

theorem Usable.single_proof (h : Usable account purpose chain)
    (hplan : Plan account chain (proofs.map Prod.fst)) (hkey : chain.head.method ≠ "publickey") :
    proofs.length = 1 := by
  have hlen := hplan.admitted.length_eq
  rw [h.brief hkey, length_map] at hlen
  exact hlen.symm

/-- **A plan is never refused**: after any number of its proofs, the policy is satisfied or offers
the next one. -/
theorem Usable.follows (h : Usable account purpose chain)
    (hplan : Plan account chain (proofs.map Prod.fst)) (hnodup : (proofs.map Prod.snd).Nodup)
    {method excludedMethod : Option String}
    (helig : isEligible purpose method excludedMethod chain = true) {k : ℕ}
    (hk : k ≤ proofs.length) :
    (evaluateUserPolicy account purpose
        (evidenceOf account attemptId chain.head.method (proofs.take k)) attemptId method
        excludedMethod).satisfied = true ∨
      ∃ proof, proofs[k]? = some proof ∧ ∃ offered ∈ (evaluateUserPolicy account purpose
          (evidenceOf account attemptId chain.head.method (proofs.take k)) attemptId method
          excludedMethod).nextSteps,
          offered.method = chain.head.method ∧ proof.1 ∈ offered.credentialIds := by
  have hmem : chain ∈ (account.chains purpose).filter (isEligible purpose method excludedMethod) :=
    mem_filter.mpr ⟨h.member, helig⟩
  have hgood : GoodEvidence account attemptId
      (evidenceOf account attemptId chain.head.method proofs) := hplan.goodEvidence hnodup
  have hmeths : ∀ e ∈ evidenceOf account attemptId chain.head.method proofs,
      e.method = chain.head.method := by
    intro e he
    obtain ⟨proof, -, rfl⟩ := mem_evidenceOf.mp he
    rfl
  rw [evidenceOf_take]
  simp only [evaluateUserPolicy]
  rw [if_neg (by simp [ne_nil_of_mem hmem])]
  set methods := ((account.chains purpose).filter
      (isEligible purpose method excludedMethod)).map (fun x => x.head.method) ++
    ((evidenceOf account attemptId chain.head.method proofs).take k).map AuthEvidence.method
    with hset
  have hhead : chain.head.method ∈ methods :=
    mem_append_left _ (mem_map.mpr ⟨chain, hmem, rfl⟩)
  obtain ⟨keys, hkeys⟩ : ∃ keys, consume (takeEvent account.listUserCredentials) chain.steps
      (evidenceOf account attemptId chain.head.method proofs) ∅ = some keys :=
    hplan.consumes h.single
  have hcons : consume (takeEvent (account.credentialsOf methods)) chain.steps
      (evidenceOf account attemptId chain.head.method proofs) ∅ = some keys := by
    rw [← hkeys]
    apply consume_congr
    intro e he
    apply keyIdentityOf_credentialsOf
    rw [hmeths e he]
    exact hhead
  have hact : ∀ e ∈ evidenceOf account attemptId chain.head.method proofs,
      (activeCredential (account.credentialsOf methods) e.method e.credentialId).isSome := by
    intro e he
    have hmeth : e.method ∈ methods := by
      rw [hmeths e he]
      exact hhead
    rw [activeCredential_credentialsOf account hmeth, ← activeCredential_listUserCredentials]
    exact hgood.active e he
  have hcount : k ≤ (evidenceOf account attemptId chain.head.method proofs).length := by
    rw [evidenceOf, length_map]
    exact hk
  have hvalid : evidenceIsValid (account.credentialsOf methods)
      ((evidenceOf account attemptId chain.head.method proofs).take k) account.id attemptId =
      true := by
    refine (hgood.sublist (take_sublist k _)).valid ?_
    intro e he
    rw [hmeths e (take_subset k _ he)]
    exact hhead
  rcases evaluateAuthPolicy_follows hmem (h.considered hhead) hcons hact hcount hvalid with
    hsat | ⟨event, hevent, offered, hoff, hmeth, hid⟩
  · exact Or.inl hsat
  rw [evidenceOf, getElem?_map] at hevent
  obtain ⟨proof, hproof, rfl⟩ := Option.map_eq_some_iff.mp hevent
  exact Or.inr ⟨proof, hproof, offered, hoff, hmeth, hid⟩

end

/-! ### Submitting proofs -/

def AuthenticationAttempt.stageOver (attempt : AuthenticationAttempt)
    (progress : AuthPolicyDecision) : Bool :=
  progress.satisfied || progress.purpose.any (· != attempt.purpose)

/-- Only `PublicKeyAuthProvider.authenticate` has a loop, which goes on while the policy has a next
step of its method. -/
def AuthenticationAttempt.asksForMore (attempt : AuthenticationAttempt)
    (progress : AuthPolicyDecision) : Bool :=
  attempt.method == "publickey" && progress.nextSteps.any (·.method == attempt.method)

/-- The message of a provider whose method cannot complete the stage. -/
def AuthenticationAttempt.cannotSatisfy (attempt : AuthenticationAttempt) : String :=
  (if attempt.method = "password" then "Password"
    else if attempt.method = "totp" then "TOTP" else "Public-key") ++
    " authentication cannot satisfy this policy"

variable (config : AuthConfig)

/-- The valid proofs of one request, in the `authenticate` of the method's provider.  A password or a
TOTP token is the only proof of its request: where the stage is not over after it, the request fails.
A public-key request waits for another proof as long as one can help. -/
def submitAll (account : Account) (now : Instant) :
    AuthenticationAttempt → List SubmittedProof → Except AuthError AuthenticationAttempt
  | attempt, [] => pure attempt
  | attempt, (credentialId, eventId) :: rest => do
    let permitted ← attempt.permittedCredentials config account now
    if !permitted.contains credentialId then throw (.failure 401 "Invalid credentials")
    else do
      let (accepted, progress) ← attempt.accept config account now
        { success := true, credentialId := some credentialId } eventId
      if attempt.stageOver progress then pure accepted
      else if attempt.asksForMore progress then submitAll account now accepted rest
      else throw (.failure 403 attempt.cannotSatisfy)

def AuthenticationAttempt.after (attempt : AuthenticationAttempt) (context : AuthenticationContext)
    (evidence : List AuthEvidence) : AuthenticationAttempt :=
  { attempt with context := some { context with evidence := context.evidence ++ evidence } }

/-- The attempt after these proofs. -/
def AuthenticationAttempt.afterProofs (attempt : AuthenticationAttempt) (account : Account)
    (context : AuthenticationContext) (proofs : List SubmittedProof) : AuthenticationAttempt :=
  attempt.after context (evidenceOf account context.attemptId attempt.method proofs)

/-- The stage is over, or the proof is one of those that are asked for next. -/
def AuthenticationAttempt.GoesOn (attempt : AuthenticationAttempt) (progress : AuthPolicyDecision)
    (proof? : Option SubmittedProof) : Prop :=
  attempt.stageOver progress = true ∨ ∃ proof, proof? = some proof ∧
    ∃ offered ∈ progress.nextSteps, offered.method = attempt.method ∧
      proof.1 ∈ offered.credentialIds

/-- The proofs are asked for one after another, until the stage is over. -/
def AuthenticationAttempt.Leads (attempt : AuthenticationAttempt) (account : Account) (now : Instant)
    (context : AuthenticationContext) (proofs : List SubmittedProof) : Prop :=
  ∀ k ≤ proofs.length, ∃ progress,
    (attempt.afterProofs account context (proofs.take k)).progress config account now = .ok progress ∧
      attempt.GoesOn progress proofs[k]?

section

variable {config} {account : Account} {now : Instant} {attempt : AuthenticationAttempt}
  {ctx : AuthenticationContext} {proofs : List SubmittedProof}

/-- A proof that is offered is accepted; what comes next depends on the progress it leads to. -/
theorem submitAll_offered (hact : account.status = .active) (hctx : attempt.context = some ctx)
    {progress : AuthPolicyDecision} (hprog : attempt.progress config account now = .ok progress)
    (hpend : attempt.stageOver progress = false) {credId eventId : String}
    (hoff : ∃ offered ∈ progress.nextSteps, offered.method = attempt.method ∧
      credId ∈ offered.credentialIds)
    {next : AuthenticationAttempt} (hnext : next = attempt.withEvidence ctx
      (attempt.event account ctx credId eventId) none)
    {later : AuthPolicyDecision} (hlater : next.progress config account now = .ok later)
    (rest : List SubmittedProof) :
    submitAll config account now attempt ((credId, eventId) :: rest) =
      if attempt.stageOver later then .ok next
      else if attempt.asksForMore later then submitAll config account now next rest
      else .error (.failure 403 attempt.cannotSatisfy) := by
  subst hnext
  obtain ⟨offered, hmem, hmeth, hid⟩ := hoff
  have hperm : attempt.permittedCredentials config account now = .ok
      ((progress.nextSteps.filter (·.method == attempt.method)).flatMap AuthStep.credentialIds) := by
    unfold AuthenticationAttempt.permittedCredentials
    rw [hprog]
    show (if attempt.stageOver progress = true then _ else _) = _
    rw [hpend]
    rfl
  have hin : credId ∈
      (progress.nextSteps.filter (·.method == attempt.method)).flatMap AuthStep.credentialIds :=
    mem_flatMap.mpr ⟨offered, mem_filter.mpr ⟨hmem, beq_iff_eq.mpr hmeth⟩, hid⟩
  have hbound : attempt.boundContext = .ok ctx := by
    unfold AuthenticationAttempt.boundContext
    rw [hctx]
    rfl
  have haccept : attempt.accept config account now
      { success := true, credentialId := some credId } eventId =
      .ok (attempt.withEvidence ctx (attempt.event account ctx credId eventId) none,
        later) := by
    refine bind_eq_ok.mpr ⟨_, hperm, ?_⟩
    rw [if_neg (by simp [hin]), if_neg (not_not.mpr hact)]
    exact bind_eq_ok.mpr ⟨ctx, hbound, bind_eq_ok.mpr ⟨later, hlater, rfl⟩⟩
  rw [submitAll, hperm]
  show (if !contains _ credId then _ else _) = _
  rw [if_neg (by simp [hin]), haccept]
  rfl

/-- **Proofs that are offered one after another are all accepted until the stage is over**, by a
request of public keys or with a single proof. -/
theorem submitAll_until_over (hact : account.status = .active)
    (hmany : attempt.method ≠ "publickey" → proofs.length = 1)
    (h : attempt.Leads config account now ctx proofs) :
    ∃ k progress, submitAll config account now (attempt.after ctx []) (proofs.take k) =
        .ok (attempt.afterProofs account ctx (proofs.take k)) ∧
      (attempt.afterProofs account ctx (proofs.take k)).progress config account now = .ok progress ∧
      attempt.stageOver progress = true := by
  induction proofs generalizing ctx with
  | nil =>
    obtain ⟨progress, hprog, hover | ⟨_, hnone, -⟩⟩ := h 0 (Nat.le_refl _)
    · exact ⟨0, progress, rfl, hprog, hover⟩
    · cases hnone
  | cons proof rest ih =>
    obtain ⟨progress, hprog, hnext⟩ := h 0 (Nat.zero_le _)
    by_cases hover : attempt.stageOver progress = true
    · exact ⟨0, progress, rfl, hprog, hover⟩
    rcases hnext with hover' | ⟨offered, hfirst, hoff⟩
    · exact absurd hover' hover
    cases hfirst
    -- The first proof is accepted, and the rest is submitted on a longer ctx.
    set event : AuthEvidence :=
      ⟨account.id, ctx.attemptId, proof.2, attempt.method, proof.1⟩ with hevent
    set longer : AuthenticationContext :=
      { ctx with evidence := ctx.evidence ++ [event] } with hlong
    have hshift : ∀ k, attempt.afterProofs account ctx ((proof :: rest).take (k + 1)) =
        attempt.afterProofs account longer (rest.take k) := by
      intro k
      simp [AuthenticationAttempt.afterProofs, AuthenticationAttempt.after, evidenceOf, hlong,
        hevent]
    have hwith : attempt.after longer [] = (attempt.after ctx []).withEvidence
        { ctx with evidence := ctx.evidence ++ [] }
        ((attempt.after ctx []).event account
          { ctx with evidence := ctx.evidence ++ [] } proof.1 proof.2) none := by
      simp [AuthenticationAttempt.withEvidence, AuthenticationAttempt.after,
        AuthenticationAttempt.event, hlong, hevent]
    obtain ⟨later, hlater, hlaterNext⟩ := h 1 (by simp)
    rw [hshift 0] at hlater
    change (attempt.after longer []).progress config account now = .ok later at hlater
    have hsubm : ∀ more, submitAll config account now (attempt.after ctx []) (proof :: more) =
        if attempt.stageOver later then .ok (attempt.after longer [])
        else if attempt.asksForMore later then
          submitAll config account now (attempt.after longer []) more
        else .error (.failure 403 attempt.cannotSatisfy) :=
      submitAll_offered hact rfl hprog (Bool.eq_false_iff.mpr hover) hoff hwith hlater
    by_cases hend : attempt.stageOver later = true
    · refine ⟨1, later, ?_, by rw [hshift 0]; exact hlater, hend⟩
      rw [hshift 0]
      exact (hsubm _).trans (if_pos hend)
    · -- Another proof follows, so the method is that of public keys, which asks for it.
      obtain ⟨second, hsnd, step, hstep, hmeth, -⟩ := hlaterNext.resolve_left hend
      have hkeys : attempt.method = "publickey" := by
        by_contra hother
        have hone := hmany hother
        rw [length_cons, Nat.succ_inj, length_eq_zero_iff] at hone
        rw [hone] at hsnd
        cases hsnd
      have hmore : attempt.asksForMore later = true :=
        (Bool.and_eq_true _ _).mpr ⟨beq_iff_eq.mpr hkeys,
          any_eq_true.mpr ⟨step, hstep, beq_iff_eq.mpr hmeth⟩⟩
      have hrem : attempt.Leads config account now longer rest := by
        intro k hk
        rw [← hshift k]
        exact h (k + 1) (Nat.succ_le_succ hk)
      obtain ⟨k, final, hrest, hfinal, hdone⟩ :=
        ih (fun hother => absurd hkeys hother) hrem
      refine ⟨k + 1, final, ?_, by rw [hshift k]; exact hfinal, hdone⟩
      rw [take_succ_cons, hsubm, if_neg hend, if_pos hmore, hrest, ← hshift k, take_succ_cons]

end

end Cfms.Identity
