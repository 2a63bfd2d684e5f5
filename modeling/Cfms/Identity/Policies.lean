import Mathlib.Data.Finset.Insert
import Cfms.Lib.OrderedMatching

/-!
# Authentication policies

A policy is a list of alternatives, and an alternative is a chain of steps, each with the
credentials it admits.  `evaluate_auth_policy` of `include/domains/identity/auth/policies.py` reads
the evidence of one attempt against the alternatives.  It follows every choice of events at once, as
`Cfms.Lib.OrderedMatching` does, with the key identities that are used up as memory.

The set of states has no order in the source, so the order of `next_steps` is not specified; the
model takes the order of insertion.
-/

namespace Cfms.Identity

open Lib.OrderedMatching List

/-! ### Data -/

inductive AuthPurpose
  | login
  | mfa
  | escalation
  deriving DecidableEq

structure RegisteredCredential where
  method : String
  credentialId : String
  active : Bool
  keyIdentity : Option String := none
  deriving DecidableEq

structure AuthStep where
  method : String
  credentialIds : List String
  deriving DecidableEq

/-- A chain has at least one step, as `auth_chains_adapter` demands. -/
structure AuthChain where
  steps : List AuthStep
  nonempty : steps ≠ []
  deriving DecidableEq

/-- `chain[0]`. -/
def AuthChain.head (chain : AuthChain) : AuthStep := chain.steps.head chain.nonempty

structure AuthEvidence where
  userId : String
  attemptId : String
  eventId : String
  method : String
  credentialId : String
  deriving DecidableEq

structure AuthPolicyDecision where
  satisfied : Bool
  nextSteps : List AuthStep := []
  purpose : Option AuthPurpose := none
  deriving DecidableEq

def loginDisallowedMethods : List String := ["totp"]

/-! ### Evaluation -/

section

variable (creds : List RegisteredCredential)

/-- `active[(method, credential_id)]`; a later credential replaces an earlier one. -/
def activeCredential (method credentialId : String) : Option RegisteredCredential :=
  creds.reverse.find? fun c =>
    c.active && c.method == method && c.credentialId == credentialId

def evidenceIsValid (evidence : List AuthEvidence) (userId attemptId : String) : Bool :=
  decide (evidence.map AuthEvidence.eventId).Nodup &&
    evidence.all fun e =>
      e.userId == userId && e.attemptId == attemptId &&
        (activeCredential creds e.method e.credentialId).isSome

def AuthChain.isSingleMethod (chain : AuthChain) : Bool :=
  chain.steps.all (·.method == chain.head.method)

def keyIdentityOf (event : AuthEvidence) : Option String :=
  (activeCredential creds event.method event.credentialId).bind
    RegisteredCredential.keyIdentity

/-- Whether an event may be taken for a step, and the keys that are used then. -/
def takeEvent (step : AuthStep) (event : AuthEvidence) (usedKeys : Finset String) :
    Option (Finset String) :=
  if event.method != step.method || !step.credentialIds.contains event.credentialId then none
  else if event.method == "publickey" then
    match keyIdentityOf creds event with
    | none => none
    | some identity => if identity ∈ usedKeys then none else some (insert identity usedKeys)
  else some usedKeys

/-- The loop over the evidence; `none` when it finds the chain complete. -/
def matchEvidence (chain : AuthChain) :
    List (ℕ × Finset String) → List AuthEvidence → Option (List (ℕ × Finset String))
  | states, [] => if states.any (·.1 == chain.steps.length) then none else some states
  | states, event :: rest =>
    if states.any (·.1 == chain.steps.length) then none
    else matchEvidence chain (follow (takeEvent creds) chain.steps states event) rest

/-- The credentials a step still admits. -/
def permittedIds (step : AuthStep) (usedKeys : Finset String) : List String :=
  step.credentialIds.filter fun credentialId =>
    match activeCredential creds step.method credentialId with
    | none => false
    | some credential =>
      step.method != "publickey" || credential.keyIdentity.all fun identity => identity ∉ usedKeys

/-- The step that a state of greatest progress comes to next. -/
def candidateStep (chain : AuthChain) (progress : ℕ) (state : ℕ × Finset String) :
    Option AuthStep :=
  if state.1 = progress then
    chain.steps[state.1]?.bind fun step =>
      let permitted := permittedIds creds step state.2
      if permitted.isEmpty then none else some ⟨step.method, permitted⟩
  else none

/-- Append what is not there yet. -/
def appendNew (nextSteps : List AuthStep) : Option AuthStep → List AuthStep
  | none => nextSteps
  | some candidate => if candidate ∈ nextSteps then nextSteps else nextSteps ++ [candidate]

/-- The loop over the states of a chain that is not complete. -/
def addCandidates (chain : AuthChain) (states : List (ℕ × Finset String))
    (nextSteps : List AuthStep) : List AuthStep :=
  let progress := states.foldl (fun most state => max most state.1) 0
  states.foldl (fun steps state => appendNew steps (candidateStep creds chain progress state))
    nextSteps

def isConsidered (purpose : AuthPurpose) (chain : AuthChain) : Bool :=
  chain.isSingleMethod &&
    !(purpose == .login && chain.steps.any (loginDisallowedMethods.contains ·.method)) &&
    chain.steps.all fun step =>
      step.credentialIds.any fun id => (activeCredential creds step.method id).isSome

/-- The loop over the chains. -/
def evaluateChains (purpose : AuthPurpose) (evidence : List AuthEvidence) :
    List AuthChain → List AuthStep → AuthPolicyDecision
  | [], nextSteps => { satisfied := false, nextSteps := nextSteps }
  | chain :: rest, nextSteps =>
    if isConsidered creds purpose chain then
      match matchEvidence creds chain [(0, ∅)] evidence with
      | none => { satisfied := true }
      | some states =>
        evaluateChains purpose evidence rest (addCandidates creds chain states nextSteps)
    else evaluateChains purpose evidence rest nextSteps

def evaluateAuthPolicy (purpose : AuthPurpose) (chains : List AuthChain)
    (evidence : List AuthEvidence) (userId attemptId : String) : AuthPolicyDecision :=
  if !evidenceIsValid creds evidence userId attemptId then { satisfied := false }
  else if chains.isEmpty then { satisfied := purpose == .mfa }
  else evaluateChains creds purpose evidence chains []

end

/-! ### What a satisfied policy means -/

def Completes (step : AuthStep) (event : AuthEvidence) : Prop :=
  event.method = step.method ∧ event.credentialId ∈ step.credentialIds

/-- The events complete the steps one for one and in order; no public key counts twice. -/
structure CompletedBy (credentials : List RegisteredCredential) (steps : List AuthStep)
    (used : List AuthEvidence) : Prop where
  each : List.Forall₂ Completes steps used
  distinctKeys : used.Pairwise fun e f => e.method = "publickey" → f.method = "publickey" →
    keyIdentityOf credentials e ≠ keyIdentityOf credentials f

section

variable {creds : List RegisteredCredential} {step : AuthStep} {event : AuthEvidence}
  {usedKeys usedKeys' : Finset String}

theorem takeEvent_eq_some : takeEvent creds step event usedKeys = some usedKeys' ↔
      Completes step event ∧
        ((event.method = "publickey" ∧ ∃ identity, keyIdentityOf creds event = some identity ∧
            identity ∉ usedKeys ∧ usedKeys' = insert identity usedKeys) ∨
          (event.method ≠ "publickey" ∧ usedKeys' = usedKeys)) := by
  have hguard : (event.method != step.method || !step.credentialIds.contains event.credentialId) =
      true ↔ ¬ Completes step event := by
    simp [Completes, imp_iff_not_or]
  unfold takeEvent
  by_cases hfits : Completes step event
  · rw [if_neg (fun h => hguard.mp h hfits)]
    by_cases hkey : event.method = "publickey"
    · rw [if_pos (beq_iff_eq.mpr hkey)]
      cases hident : keyIdentityOf creds event with
      | none => simp [hkey]
      | some identity =>
        by_cases hused : identity ∈ usedKeys
        · simp [hkey, hused]
        · simp [hfits, hkey, eq_comm]
    · rw [if_neg (fun h => hkey (beq_iff_eq.mp h))]
      simp [hfits, hkey, eq_comm]
  · rw [if_pos (hguard.mpr hfits)]
    simp [hfits]

theorem consume_takeEvent {steps : List AuthStep} {used : List AuthEvidence}
    (h : consume (takeEvent creds) steps used usedKeys = some usedKeys') :
    CompletedBy creds steps used ∧ ∀ e ∈ used, e.method = "publickey" →
      ∀ identity ∈ usedKeys, keyIdentityOf creds e ≠ some identity := by
  induction steps generalizing used usedKeys with
  | nil =>
    cases used with
    | nil => exact ⟨⟨.nil, .nil⟩, nofun⟩
    | cons e es => cases h
  | cons step steps ih =>
    cases used with
    | nil => cases h
    | cons e es =>
      obtain ⟨keys, htake, hrest⟩ := Option.bind_eq_some_iff.mp h
      obtain ⟨hfits, hkeys⟩ := takeEvent_eq_some.mp htake
      obtain ⟨hcompleted, hfresh⟩ := ih hrest
      have hkept : ∀ identity ∈ usedKeys, identity ∈ keys := by
        intro identity hmem
        rcases hkeys with ⟨-, added, -, -, rfl⟩ | ⟨-, rfl⟩
        · exact Finset.mem_insert_of_mem hmem
        · exact hmem
      have hhead : e.method = "publickey" →
          ∃ identity ∈ keys, keyIdentityOf creds e = some identity ∧ identity ∉ usedKeys := by
        intro hkey
        rcases hkeys with ⟨-, added, hadded, hunus, rfl⟩ | ⟨hother, -⟩
        · exact ⟨added, Finset.mem_insert_self added usedKeys, hadded, hunus⟩
        · exact absurd hkey hother
      refine ⟨⟨.cons hfits hcompleted.each, .cons ?_ hcompleted.distinctKeys⟩, ?_⟩
      · intro f hf hkey hkeyf
        obtain ⟨identity, hmem, hident, -⟩ := hhead hkey
        rw [hident]
        exact (hfresh f hf hkeyf identity hmem).symm
      · intro f hf hkey identity hmem
        rcases mem_cons.mp hf with rfl | hlater
        · obtain ⟨own, -, hown, hunus⟩ := hhead hkey
          rw [hown]
          intro hsame
          rw [Option.some.inj hsame] at hunus
          exact hunus hmem
        · exact hfresh f hlater hkey identity (hkept identity hmem)

variable {evidence : List AuthEvidence} {chain : AuthChain}

theorem matchEvidence_eq_none {states : List (ℕ × Finset String)} :
    matchEvidence creds chain states evidence = none ↔ ∃ keys, (chain.steps.length, keys) ∈
        followAll (takeEvent creds) chain.steps states evidence := by
  have hany : ∀ states : List (ℕ × Finset String),
      states.any (·.1 == chain.steps.length) = true ↔ ∃ keys, (chain.steps.length, keys) ∈ states := by
    intro states
    rw [any_eq_true]
    constructor
    · rintro ⟨⟨pos, keys⟩, hmem, hpos⟩
      rw [← beq_iff_eq.mp hpos]
      exact ⟨keys, hmem⟩
    · rintro ⟨keys, hmem⟩
      exact ⟨_, hmem, beq_self_eq_true _⟩
  induction evidence generalizing states with
  | nil =>
    rw [matchEvidence]
    split
    · rename_i hcompl
      exact iff_of_true rfl ((hany states).mp hcompl)
    · rename_i hinc
      exact iff_of_false nofun fun hmem => hinc ((hany states).mpr hmem)
  | cons event rest ih =>
    rw [matchEvidence]
    split
    · rename_i hcompl
      obtain ⟨keys, hmem⟩ := (hany states).mp hcompl
      exact iff_of_true rfl ⟨keys, mem_followAll_of_mem hmem⟩
    · exact ih

/-- **A chain that is found complete is completed by a subsequence of the evidence.** -/
theorem completedBy_of_matchEvidence (h : matchEvidence creds chain [(0, ∅)] evidence = none) :
    ∃ used : List AuthEvidence, used.Sublist evidence ∧ CompletedBy creds chain.steps used := by
  obtain ⟨keys, hmem⟩ := matchEvidence_eq_none.mp h
  obtain ⟨-, used, hused, hcons⟩ := mem_followAll.mp hmem
  rw [take_length] at hcons
  exact ⟨used, hused, (consume_takeEvent hcons).1⟩

variable {purpose : AuthPurpose} {chains : List AuthChain}

theorem evaluateChains_satisfied {nextSteps : List AuthStep}
    (h : (evaluateChains creds purpose evidence chains nextSteps).satisfied = true) :
    ∃ chain ∈ chains, isConsidered creds purpose chain = true ∧
      matchEvidence creds chain [(0, ∅)] evidence = none := by
  induction chains generalizing nextSteps with
  | nil => cases h
  | cons chain rest ih =>
    rw [evaluateChains] at h
    split at h
    · rename_i hconsidered
      split at h
      · rename_i hcompl
        exact ⟨chain, mem_cons_self, hconsidered, hcompl⟩
      · obtain ⟨found, hfound, hrest⟩ := ih h
        exact ⟨found, mem_cons_of_mem chain hfound, hrest⟩
    · obtain ⟨found, hfound, hrest⟩ := ih h
      exact ⟨found, mem_cons_of_mem chain hfound, hrest⟩

/-- **A satisfied policy has a completed alternative, or is empty and about MFA.** -/
theorem evaluateAuthPolicy_satisfied {userId attemptId : String}
    (h : (evaluateAuthPolicy creds purpose chains evidence userId attemptId).satisfied = true) :
    (chains = [] ∧ purpose = .mfa) ∨ ∃ chain ∈ chains, isConsidered creds purpose chain = true ∧
        ∃ used : List AuthEvidence, used.Sublist evidence ∧ CompletedBy creds chain.steps used := by
  unfold evaluateAuthPolicy at h
  split at h
  · cases h
  split at h
  · rename_i hempty
    exact Or.inl ⟨isEmpty_iff.mp hempty, beq_iff_eq.mp h⟩
  · obtain ⟨chain, hmem, hconsidered, hcompl⟩ := evaluateChains_satisfied h
    exact Or.inr ⟨chain, hmem, hconsidered, completedBy_of_matchEvidence hcompl⟩

end

/-! ### What an incomplete policy offers -/

section

variable {creds : List RegisteredCredential} {chain : AuthChain}
  {evidence : List AuthEvidence} {states : List (ℕ × Finset String)}

variable {steps : List AuthStep}

/-- The events of a plan are taken one after another when they fit their steps and no public key
comes twice. -/
theorem consume_of_completes {used : List AuthEvidence}
    {usedKeys : Finset String} (hfits : List.Forall₂ Completes steps used)
    (hfresh : ∀ e ∈ used, e.method = "publickey" →
      ∃ identity, keyIdentityOf creds e = some identity ∧ identity ∉ usedKeys)
    (hdist : used.Pairwise fun e f => e.method = "publickey" → f.method = "publickey" →
      keyIdentityOf creds e ≠ keyIdentityOf creds f) :
    ∃ keys, consume (takeEvent creds) steps used usedKeys = some keys := by
  induction hfits generalizing usedKeys with
  | nil => exact ⟨usedKeys, rfl⟩
  | @cons step e steps rest hfirst hrest ih =>
    obtain ⟨hother, hdist⟩ := pairwise_cons.mp hdist
    by_cases hkey : e.method = "publickey"
    · obtain ⟨identity, hident, hnew⟩ := hfresh e mem_cons_self hkey
      have htake : takeEvent creds step e usedKeys = some (insert identity usedKeys) :=
        takeEvent_eq_some.mpr ⟨hfirst, Or.inl ⟨hkey, identity, hident, hnew, rfl⟩⟩
      rw [consume, htake]
      refine ih ?_ hdist
      intro f hf hkeyf
      obtain ⟨identity', hident', hnew'⟩ := hfresh f (mem_cons_of_mem e hf) hkeyf
      refine ⟨identity', hident', ?_⟩
      rw [Finset.mem_insert, not_or]
      refine ⟨?_, hnew'⟩
      rintro rfl
      exact hother f hf hkey hkeyf (hident.trans hident'.symm)
    · have htake : takeEvent creds step e usedKeys = some usedKeys :=
        takeEvent_eq_some.mpr ⟨hfirst, Or.inr ⟨hkey, rfl⟩⟩
      rw [consume, htake]
      exact ih (fun f hf => hfresh f (mem_cons_of_mem e hf)) hdist

theorem matchEvidence_eq_some {start : List (ℕ × Finset String)}
    (h : matchEvidence creds chain start evidence = some states) :
    states = followAll (takeEvent creds) chain.steps start evidence := by
  induction evidence generalizing start with
  | nil =>
    rw [matchEvidence] at h
    split at h
    · cases h
    · exact (Option.some.inj h).symm
  | cons event rest ih =>
    rw [matchEvidence] at h
    split at h
    · cases h
    · exact ih h

variable {step : AuthStep}

theorem mem_appendNew {cand : Option AuthStep}
    (h : step ∈ steps ∨ cand = some step) : step ∈ appendNew steps cand := by
  cases cand with
  | none => exact h.resolve_right nofun
  | some new =>
    simp only [appendNew, Option.some.injEq] at h ⊢
    split
    · rename_i hmem
      rcases h with hold | rfl
      · exact hold
      · exact hmem
    · rcases h with hold | rfl
      · exact mem_append_left _ hold
      · exact mem_append_right _ (mem_singleton_self _)

variable {nextSteps : List AuthStep}

theorem mem_foldl_appendNew {cand : ℕ × Finset String → Option AuthStep}
    (h : step ∈ nextSteps ∨ ∃ state ∈ states, cand state = some step) :
    step ∈ states.foldl (fun steps state => appendNew steps (cand state)) nextSteps := by
  induction states generalizing nextSteps with
  | nil =>
    rcases h with hold | ⟨_, hmem, -⟩
    · exact hold
    · cases hmem
  | cons first rest ih =>
    apply ih
    rcases h with hold | ⟨state, hmem, hstate⟩
    · exact Or.inl (mem_appendNew (Or.inl hold))
    rcases mem_cons.mp hmem with rfl | hlater
    · exact Or.inl (mem_appendNew (Or.inr hstate))
    · exact Or.inr ⟨state, hlater, hstate⟩

theorem foldl_max_eq {most bound : ℕ} (hle : ∀ state ∈ states, state.1 ≤ bound) (hmost : most ≤ bound)
    (h : most = bound ∨ ∃ state ∈ states, state.1 = bound) :
    states.foldl (fun most state => max most state.1) most = bound := by
  induction states generalizing most with
  | nil =>
    rcases h with hmost | ⟨_, hmem, -⟩
    · exact hmost
    · cases hmem
  | cons first rest ih =>
    have hfirst := hle first mem_cons_self
    rw [foldl_cons]
    refine ih (fun state hmem => hle state (mem_cons_of_mem first hmem)) (by omega) ?_
    rcases h with hmost | ⟨state, hmem, hstate⟩
    · exact Or.inl (by omega)
    rcases mem_cons.mp hmem with rfl | hlater
    · exact Or.inl (by omega)
    · exact Or.inr ⟨state, hlater, hstate⟩

variable {keys : Finset String} {credId : String}

/-- Where the evidence is all used for the first steps of a chain, the next step is offered with
every credential that may still be used. -/
theorem offered_by_chain
    (hcons : consume (takeEvent creds) (chain.steps.take evidence.length) evidence ∅ = some keys)
    (hstep : chain.steps[evidence.length]? = some step)
    (hperm : credId ∈ permittedIds creds step keys)
    (hmatch : matchEvidence creds chain [(0, ∅)] evidence = some states) :
    ∃ offered ∈ addCandidates creds chain states nextSteps,
      offered.method = step.method ∧ credId ∈ offered.credentialIds := by
  have hstates := matchEvidence_eq_some hmatch
  have hlen : evidence.length ≤ chain.steps.length :=
    Nat.le_of_lt (List.getElem?_eq_some_iff.mp hstep).1
  have hmem : (evidence.length, keys) ∈ states := by
    rw [hstates]
    exact mem_followAll.mpr ⟨hlen, evidence, List.Sublist.refl _, hcons⟩
  have hmost : ∀ state ∈ states, state.1 ≤ evidence.length := by
    rintro ⟨pos, memory⟩ hstate
    rw [hstates] at hstate
    obtain ⟨hle, used, hused, htaken⟩ := mem_followAll.mp hstate
    have hcount := consume_length htaken
    rw [length_take] at hcount
    have hshorter := hused.length_le
    show pos ≤ evidence.length
    omega
  have hprog : states.foldl (fun most state => max most state.1) 0 = evidence.length :=
    foldl_max_eq hmost (Nat.zero_le _) (Or.inr ⟨_, hmem, rfl⟩)
  refine ⟨⟨step.method, permittedIds creds step keys⟩, ?_, rfl, hperm⟩
  have hne : permittedIds creds step keys ≠ [] := ne_nil_of_mem hperm
  apply mem_foldl_appendNew
  refine Or.inr ⟨_, hmem, ?_⟩
  simp [candidateStep, hprog, hstep, hne]

variable {purpose : AuthPurpose} {chains : List AuthChain}

theorem evaluateChains_offers (hchain : chain ∈ chains)
    (hconsidered : isConsidered creds purpose chain = true)
    (hoff : ∀ states nextSteps, matchEvidence creds chain [(0, ∅)] evidence = some states →
      ∃ offered ∈ addCandidates creds chain states nextSteps,
        offered.method = step.method ∧ credId ∈ offered.credentialIds)
    (nextSteps : List AuthStep) :
    (evaluateChains creds purpose evidence chains nextSteps).satisfied = true ∨
      ∃ offered ∈ (evaluateChains creds purpose evidence chains nextSteps).nextSteps,
        offered.method = step.method ∧ credId ∈ offered.credentialIds := by
  -- What is offered once is offered at the end, if no later chain is complete.
  have hkept : ∀ (rest : List AuthChain) (nextSteps : List AuthStep),
      (∃ offered ∈ nextSteps, offered.method = step.method ∧
        credId ∈ offered.credentialIds) →
      (evaluateChains creds purpose evidence rest nextSteps).satisfied = true ∨
        ∃ offered ∈ (evaluateChains creds purpose evidence rest nextSteps).nextSteps,
          offered.method = step.method ∧ credId ∈ offered.credentialIds := by
    intro rest
    induction rest with
    | nil => exact fun nextSteps h => Or.inr h
    | cons first rest ih =>
      rintro nextSteps ⟨offered, hmem, hfits⟩
      rw [evaluateChains]
      split
      · split
        · exact Or.inl rfl
        · exact ih _ ⟨offered, mem_foldl_appendNew (Or.inl hmem), hfits⟩
      · exact ih _ ⟨offered, hmem, hfits⟩
  induction chains generalizing nextSteps with
  | nil => cases hchain
  | cons first rest ih =>
    rw [evaluateChains]
    rcases mem_cons.mp hchain with rfl | hlater
    · rw [if_pos hconsidered]
      split
      · exact Or.inl rfl
      · rename_i states hmatch
        exact hkept rest _ (hoff states nextSteps hmatch)
    · split
      · split
        · exact Or.inl rfl
        · exact ih hlater _
      · exact ih hlater _

theorem evaluateChains_complete
    (hchain : chain ∈ chains) (hconsidered : isConsidered creds purpose chain = true)
    (hcompl : matchEvidence creds chain [(0, ∅)] evidence = none)
    (nextSteps : List AuthStep) :
    (evaluateChains creds purpose evidence chains nextSteps).satisfied = true := by
  induction chains generalizing nextSteps with
  | nil => cases hchain
  | cons first rest ih =>
    rw [evaluateChains]
    rcases mem_cons.mp hchain with rfl | hlater
    · rw [if_pos hconsidered, hcompl]
    split
    · split
      · rfl
      · exact ih hlater _
    · exact ih hlater _

/-- **Following a chain**: when the evidence is what a plan for the chain begins with, the policy is
satisfied, or it offers the next credential of the plan. -/
theorem evaluateAuthPolicy_follows {userId attemptId : String} {plan : List AuthEvidence}
    (hchain : chain ∈ chains) (hconsidered : isConsidered creds purpose chain = true)
    (hplan : consume (takeEvent creds) chain.steps plan ∅ = some keys)
    (hact : ∀ e ∈ plan, (activeCredential creds e.method e.credentialId).isSome)
    {k : ℕ} (hk : k ≤ plan.length)
    (hvalid : evidenceIsValid creds (plan.take k) userId attemptId = true) :
    (evaluateAuthPolicy creds purpose chains (plan.take k) userId attemptId).satisfied = true ∨
      ∃ event, plan[k]? = some event ∧ ∃ offered ∈
          (evaluateAuthPolicy creds purpose chains (plan.take k) userId attemptId).nextSteps,
          offered.method = event.method ∧ event.credentialId ∈ offered.credentialIds := by
  have hlen := consume_length hplan
  have heval : evaluateAuthPolicy creds purpose chains (plan.take k) userId attemptId =
      evaluateChains creds purpose (plan.take k) chains [] := by
    rw [evaluateAuthPolicy, hvalid, if_neg (by simp), if_neg]
    simpa using ne_nil_of_mem hchain
  rw [heval]
  obtain ⟨used, hused, hrest⟩ := consume_split hplan k
  by_cases hend : k = plan.length
  · refine Or.inl (evaluateChains_complete hchain hconsidered ?_ [])
    subst hend
    rw [take_length]
    refine matchEvidence_eq_none.mpr ⟨keys, mem_followAll.mpr ⟨Nat.le_refl _, plan,
      List.Sublist.refl _, ?_⟩⟩
    rw [take_length]
    exact hplan
  · have hlt : k < plan.length := by omega
    have hltSteps : k < chain.steps.length := by omega
    have htaken : (plan.take k).length = k := by rw [length_take, Nat.min_eq_left hk]
    rw [drop_eq_getElem_cons hlt, drop_eq_getElem_cons hltSteps] at hrest
    obtain ⟨after, htake, -⟩ := Option.bind_eq_some_iff.mp hrest
    obtain ⟨⟨hmeth, hadm⟩, hkeys⟩ := takeEvent_eq_some.mp htake
    have hperm : plan[k].credentialId ∈ permittedIds creds chain.steps[k] used := by
      refine mem_filter.mpr ⟨hadm, ?_⟩
      have hsome := hact plan[k] (getElem_mem hlt)
      rw [hmeth] at hsome
      obtain ⟨cred, hcred⟩ := Option.isSome_iff_exists.mp hsome
      rw [hcred]
      rcases hkeys with ⟨-, identity, hident, hnew, -⟩ | ⟨hother, -⟩
      · rw [keyIdentityOf, hmeth, hcred, Option.bind_some] at hident
        simp [hident, hnew]
      · rw [hmeth] at hother
        simp [hother]
    have hfront : consume (takeEvent creds) (chain.steps.take (plan.take k).length)
        (plan.take k) ∅ = some used := by
      rw [htaken]
      exact hused
    have hnext : chain.steps[(plan.take k).length]? = some chain.steps[k] := by
      rw [htaken]
      exact getElem?_eq_getElem hltSteps
    rcases evaluateChains_offers hchain hconsidered
      (fun states nextSteps hmatch => offered_by_chain hfront hnext hperm hmatch) []
      with hsat | hoff
    · exact Or.inl hsat
    refine Or.inr ⟨plan[k], getElem?_eq_getElem hlt, ?_⟩
    rw [hmeth]
    exact hoff

end

end Cfms.Identity
