import Cfms.Identity.Management

/-!
# What policies mean

`evaluate_auth_policy` follows sets of states through the evidence, and `can_complete_auth_chain`
looks for a matching.  Both decide what the policy language says: a chain accepts evidence when a
subsequence completes its steps in order with distinct keys (`evaluateAuthPolicy_iff`), and a chain
of public-key steps can be completed when some evidence is accepted (`canCompleteAuthChain_iff`).
-/

namespace Cfms.Identity

open Lib.OrderedMatching List
open Lib.AugmentingPath

variable (credentials : List RegisteredCredential)

/-- The events complete the steps, and the public keys among them have identities. -/
structure MatchedBy (steps : List AuthStep) (used : List AuthEvidence) : Prop where
  completed : CompletedBy credentials steps used
  identified : ∀ e ∈ used, e.method = "publickey" →
    ∃ identity, keyIdentityOf credentials e = some identity

def AuthChain.Accepts (purpose : AuthPurpose) (chain : AuthChain) (evidence : List AuthEvidence) :
    Prop :=
  (∀ step ∈ chain.steps, step.method = chain.head.method) ∧
    (purpose = .login → ∀ step ∈ chain.steps, step.method ≠ "totp") ∧
      ∃ used : List AuthEvidence, used.Sublist evidence ∧ MatchedBy credentials chain.steps used

section

variable {credentials : List RegisteredCredential} {chain : AuthChain} {purpose : AuthPurpose}
variable {evidence : List AuthEvidence} {userId attemptId : String}

variable {steps : List AuthStep} {used : List AuthEvidence}

theorem identified_of_consume {usedKeys usedKeys' : Finset String}
    (h : consume (takeEvent credentials) steps used usedKeys = some usedKeys') :
    ∀ e ∈ used, e.method = "publickey" → ∃ identity, keyIdentityOf credentials e = some identity := by
  induction steps generalizing used usedKeys with
  | nil =>
    cases used with
    | nil => exact nofun
    | cons e es => cases h
  | cons step steps ih =>
    cases used with
    | nil => cases h
    | cons e es =>
      obtain ⟨keys, htake, hrest⟩ := Option.bind_eq_some_iff.mp h
      intro f hf hkey
      rcases mem_cons.mp hf with rfl | hlater
      · rcases (takeEvent_eq_some.mp htake).2 with ⟨-, identity, hident, -⟩ | ⟨hother, -⟩
        · exact ⟨identity, hident⟩
        · exact absurd hkey hother
      · exact ih hrest f hlater hkey

theorem matchEvidence_eq_none_iff : matchEvidence credentials chain [(0, ∅)] evidence = none ↔
      ∃ used : List AuthEvidence, used.Sublist evidence ∧ MatchedBy credentials chain.steps used := by
  rw [matchEvidence_eq_none]
  constructor
  · rintro ⟨keys, hmem⟩
    obtain ⟨-, used, hused, hcons⟩ := mem_followAll.mp hmem
    rw [take_length] at hcons
    exact ⟨used, hused, (consume_takeEvent hcons).1, identified_of_consume hcons⟩
  · rintro ⟨used, hused, ⟨heach, hdist⟩, hidentified⟩
    have hfresh : ∀ e ∈ used, e.method = "publickey" →
        ∃ identity, keyIdentityOf credentials e = some identity ∧ identity ∉ (∅ : Finset String) := by
      intro e he hkey
      obtain ⟨identity, hident⟩ := hidentified e he hkey
      exact ⟨identity, hident, Finset.notMem_empty identity⟩
    obtain ⟨keys, hcons⟩ := consume_of_completes heach hfresh hdist
    refine ⟨keys, mem_followAll.mpr ⟨Nat.le_refl _, used, hused, ?_⟩⟩
    rw [take_length]
    exact hcons

theorem isSome_of_evidenceIsValid (h : evidenceIsValid credentials evidence userId attemptId = true)
    {e : AuthEvidence} (he : e ∈ evidence) :
    (activeCredential credentials e.method e.credentialId).isSome = true := by
  rw [evidenceIsValid, Bool.and_eq_true, all_eq_true] at h
  have hevent := h.2 e he
  simp only [Bool.and_eq_true] at hevent
  exact hevent.2

theorem exists_active_of_completes (h : List.Forall₂ Completes steps used)
    (hact : ∀ e ∈ used, (activeCredential credentials e.method e.credentialId).isSome = true) :
    ∀ step ∈ steps, ∃ id ∈ step.credentialIds,
      (activeCredential credentials step.method id).isSome = true := by
  induction h with
  | nil => exact nofun
  | @cons step e steps used hfirst _ ih =>
    intro other hother
    rcases mem_cons.mp hother with rfl | hlater
    · refine ⟨e.credentialId, hfirst.2, ?_⟩
      rw [← hfirst.1]
      exact hact e mem_cons_self
    · exact ih (fun f hf => hact f (mem_cons_of_mem e hf)) other hlater

theorem method_of_completes {method : String}
    (h : List.Forall₂ Completes steps used) (hsteps : ∀ step ∈ steps, step.method = method) :
    ∀ e ∈ used, e.method = method := by
  induction h with
  | nil => exact nofun
  | @cons step e steps used hfirst _ ih =>
    intro other hother
    rcases mem_cons.mp hother with rfl | hlater
    · exact hfirst.1.trans (hsteps step mem_cons_self)
    · exact ih (fun later hmem => hsteps later (mem_cons_of_mem step hmem)) other hlater

theorem accepts_iff (hvalid : evidenceIsValid credentials evidence userId attemptId = true) :
    chain.Accepts credentials purpose evidence ↔ isConsidered credentials purpose chain = true ∧
        matchEvidence credentials chain [(0, ∅)] evidence = none := by
  rw [matchEvidence_eq_none_iff]
  simp only [isConsidered, AuthChain.isSingleMethod, loginDisallowedMethods,
    Bool.and_eq_true, all_eq_true, any_eq_true, beq_iff_eq, Bool.not_eq_true',
    Bool.and_eq_false_imp, any_eq_false, contains_cons, contains_nil, Bool.or_false]
  constructor
  · rintro ⟨hsing, hlogin, used, hused, hmatch⟩
    have hact := exists_active_of_completes hmatch.completed.each
      fun e he => isSome_of_evidenceIsValid hvalid (hused.subset he)
    exact ⟨⟨⟨hsing, hlogin⟩, hact⟩, used, hused, hmatch⟩
  · rintro ⟨⟨⟨hsing, hlogin⟩, -⟩, used, hused, hmatch⟩
    exact ⟨hsing, hlogin, used, hused, hmatch⟩

/-- **The evaluation means what the language says.** -/
theorem evaluateAuthPolicy_iff {chains : List AuthChain}
    (hvalid : evidenceIsValid credentials evidence userId attemptId = true) :
    (evaluateAuthPolicy credentials purpose chains evidence userId attemptId).satisfied = true ↔
      (chains = [] ∧ purpose = .mfa) ∨
        ∃ chain ∈ chains, chain.Accepts credentials purpose evidence := by
  rw [evaluateAuthPolicy, hvalid, Bool.not_true]
  by_cases hchains : chains = []
  · subst hchains
    simp
  · have hempty : chains.isEmpty = false := by simp [hchains]
    rw [hempty]
    constructor
    · intro h
      obtain ⟨chain, hmem, hfound⟩ := evaluateChains_satisfied h
      exact .inr ⟨chain, hmem, (accepts_iff hvalid).mpr hfound⟩
    · rintro (⟨hnil, -⟩ | ⟨chain, hmem, hacc⟩)
      · exact absurd hnil hchains
      · obtain ⟨hconsidered, hcompl⟩ := (accepts_iff hvalid).mp hacc
        exact evaluateChains_complete hmem hconsidered hcompl []

end

/-! ### Availability -/

section

variable {credentials : List RegisteredCredential}

theorem exists_evidence_of_keys {steps : List AuthStep} {keys : List String}
    (hpub : ∀ step ∈ steps, step.method = "publickey")
    (h : List.Forall₂ (fun pool key => key ∈ pool) (keyPools credentials steps) keys)
    (userId attemptId : String) :
    ∃ evidence : List AuthEvidence, evidence.map AuthEvidence.eventId = keys ∧
      evidence.map (keyIdentityOf credentials) = keys.map some ∧
        List.Forall₂ Completes steps evidence ∧
          ∀ e ∈ evidence, e.userId = userId ∧ e.attemptId = attemptId ∧
            (activeCredential credentials e.method e.credentialId).isSome = true := by
  induction steps generalizing keys with
  | nil =>
    cases h
    exact ⟨[], rfl, rfl, .nil, nofun⟩
  | cons step rest ih =>
    cases h with
    | @cons _ key _ keys hkey hkeys =>
      obtain ⟨cred, hcred, hident⟩ := mem_filterMap.mp hkey
      obtain ⟨id, hid, hact⟩ := mem_filterMap.mp hcred
      obtain ⟨evidence, hevents, hidents, hcompletes, hev⟩ :=
        ih (fun other hother => hpub other (mem_cons_of_mem step hother)) hkeys
      let first : AuthEvidence := ⟨userId, attemptId, key, step.method, id⟩
      have hfirst : keyIdentityOf credentials first = some key := by
        show (activeCredential credentials step.method id).bind _ = some key
        rw [hact, Option.bind_some, hident]
      refine ⟨first :: evidence, ?_, ?_, .cons ⟨rfl, hid⟩ hcompletes, ?_⟩
      · rw [map_cons, hevents]
      · rw [map_cons, map_cons, hidents, hfirst]
      intro e he
      rcases mem_cons.mp he with rfl | hlater
      · refine ⟨rfl, rfl, ?_⟩
        show (activeCredential credentials step.method id).isSome = true
        rw [hact]
        rfl
      · exact hev e hlater

theorem representatives_of_matchedBy {steps : List AuthStep} {used : List AuthEvidence}
    (hpub : ∀ step ∈ steps, step.method = "publickey")
    (h : MatchedBy credentials steps used) :
    ∃ keys, Representatives (keyPools credentials steps) keys ∧
      used.map (keyIdentityOf credentials) = keys.map some := by
  obtain ⟨⟨heach, hdist⟩, hidentified⟩ := h
  suffices ∃ keys, List.Forall₂ (fun pool key => key ∈ pool) (keyPools credentials steps) keys ∧
      used.map (keyIdentityOf credentials) = keys.map some by
    obtain ⟨keys, hfits, hkeys⟩ := this
    refine ⟨keys, ⟨hfits, ?_⟩, hkeys⟩
    have hnodup : (used.map (keyIdentityOf credentials)).Nodup := by
      rw [List.Nodup, pairwise_map]
      refine hdist.imp_of_mem ?_
      intro e f he hf hdiff
      have hmeth : ∀ e ∈ used, e.method = "publickey" := method_of_completes heach hpub
      exact hdiff (hmeth e he) (hmeth f hf)
    rw [hkeys] at hnodup
    exact hnodup.of_map some
  clear hdist
  induction heach with
  | nil => exact ⟨[], .nil, rfl⟩
  | @cons step e steps used hfirst _ ih =>
    obtain ⟨keys, hfits, hkeys⟩ :=
      ih (fun other hother => hpub other (mem_cons_of_mem step hother))
        fun f hf => hidentified f (mem_cons_of_mem e hf)
    have hmeth : e.method = "publickey" := hfirst.1.trans (hpub step mem_cons_self)
    obtain ⟨identity, hident⟩ := hidentified e mem_cons_self hmeth
    refine ⟨identity :: keys, .cons ?_ hfits, ?_⟩
    · obtain ⟨cred, hcred, hown⟩ := Option.bind_eq_some_iff.mp hident
      rw [hfirst.1] at hcred
      exact mem_filterMap.mpr ⟨cred, mem_filterMap.mpr ⟨e.credentialId, hfirst.2, hcred⟩, hown⟩
    · rw [map_cons, map_cons, hkeys, hident]

theorem canCompleteAuthChain_eq_true {chain : AuthChain} (hhead : chain.head.method = "publickey") :
    canCompleteAuthChain credentials chain = true ↔
      ∃ keys, Representatives (keyPools credentials chain.steps) keys := by
  rw [canCompleteAuthChain]
  split
  · rename_i hempty
    refine iff_of_false Bool.false_ne_true ?_
    rintro ⟨keys, hfits, -⟩
    obtain ⟨pool, hpool, hnil⟩ := any_eq_true.mp hempty
    obtain ⟨i, hi, rfl⟩ := mem_iff_getElem.mp hpool
    have hlen := hfits.length_eq
    have hi' : i < (keyPools credentials chain.steps).length := by
      rw [keyPools, length_map]
      exact hi
    have hmem := hfits.get hi' (by omega)
    simp only [keyPools, get_eq_getElem, getElem_map] at hmem
    rw [isEmpty_iff.mp hnil] at hmem
    cases hmem
  · rw [hhead, bne_self_eq_false]
    exact assignAll_iff (Nat.lt_succ_self _)

/-- **A chain of public-key steps can be completed exactly when some evidence satisfies it.** -/
theorem canCompleteAuthChain_iff {chain : AuthChain}
    (hpub : ∀ step ∈ chain.steps, step.method = "publickey") (purpose : AuthPurpose)
    (userId attemptId : String) :
    canCompleteAuthChain credentials chain = true ↔
      ∃ evidence, evidenceIsValid credentials evidence userId attemptId = true ∧
        (evaluateAuthPolicy credentials purpose [chain] evidence userId attemptId).satisfied =
          true := by
  have hhead : chain.head.method = "publickey" := hpub _ (head_mem chain.nonempty)
  rw [canCompleteAuthChain_eq_true hhead]
  constructor
  · rintro ⟨keys, hfits, hnodup⟩
    obtain ⟨evidence, hevents, hidents, hcompletes, hev⟩ :=
      exists_evidence_of_keys hpub hfits userId attemptId
    have hvalid : evidenceIsValid credentials evidence userId attemptId = true := by
      rw [evidenceIsValid, hevents, decide_eq_true hnodup, Bool.true_and, all_eq_true]
      intro e he
      obtain ⟨huser, hatt, hact⟩ := hev e he
      rw [huser, hatt, hact, beq_self_eq_true, beq_self_eq_true]
      rfl
    refine ⟨evidence, hvalid, (evaluateAuthPolicy_iff hvalid).mpr (.inr ⟨chain, ?_, ?_, ?_, ?_⟩)⟩
    · exact mem_singleton_self chain
    · intro step hstep
      rw [hpub step hstep, hhead]
    · intro _ step hstep
      rw [hpub step hstep]
      decide
    · refine ⟨evidence, List.Sublist.refl evidence, ⟨hcompletes, ?_⟩, ?_⟩
      · have hdist : (evidence.map (keyIdentityOf credentials)).Nodup := by
          rw [hidents]
          exact hnodup.map (Option.some_injective String)
        rw [List.Nodup, pairwise_map] at hdist
        exact hdist.imp fun hne _ _ => hne
      · intro e he _
        have hmem : keyIdentityOf credentials e ∈ keys.map some := by
          rw [← hidents]
          exact mem_map_of_mem he
        obtain ⟨identity, -, hident⟩ := mem_map.mp hmem
        exact ⟨identity, hident.symm⟩
  · rintro ⟨evidence, hvalid, hsat⟩
    rcases (evaluateAuthPolicy_iff hvalid).mp hsat with ⟨hnil, -⟩ | ⟨found, hmem, hacc⟩
    · cases hnil
    obtain rfl := mem_singleton.mp hmem
    obtain ⟨-, -, used, -, hmatch⟩ := hacc
    obtain ⟨keys, hkeys, -⟩ := representatives_of_matchedBy hpub hmatch
    exact ⟨keys, hkeys⟩

end

/-! ### Both -/

/-- **The policy language.**  Evaluation decides acceptance, and availability whether acceptance is
possible. -/
theorem policy_language (credentials : List RegisteredCredential) (purpose : AuthPurpose)
    (userId attemptId : String) :
    (∀ chains evidence, evidenceIsValid credentials evidence userId attemptId = true →
      ((evaluateAuthPolicy credentials purpose chains evidence userId attemptId).satisfied = true ↔
        (chains = [] ∧ purpose = .mfa) ∨
          ∃ chain ∈ chains, chain.Accepts credentials purpose evidence)) ∧
      ∀ chain : AuthChain, (∀ step ∈ chain.steps, step.method = "publickey") →
        (canCompleteAuthChain credentials chain = true ↔
          ∃ evidence, evidenceIsValid credentials evidence userId attemptId = true ∧
            (evaluateAuthPolicy credentials purpose [chain] evidence userId attemptId).satisfied =
              true) :=
  ⟨fun _ _ hvalid => evaluateAuthPolicy_iff hvalid,
    fun _ hpub => canCompleteAuthChain_iff hpub purpose userId attemptId⟩

/-- Two keys, each of which may be used first. -/
def twoKeys : List RegisteredCredential :=
  [⟨"publickey", "key-A", true, some "aa"⟩, ⟨"publickey", "key-B", true, some "bb"⟩]

def twoKeyChain : AuthChain where
  steps := [⟨"publickey", ["key-A", "key-B"]⟩, ⟨"publickey", ["key-A", "key-B"]⟩]
  nonempty := by decide

theorem policy_language_two_keys : twoKeyChain.Accepts twoKeys .login
        [⟨"user", "attempt", "1", "publickey", "key-B"⟩,
          ⟨"user", "attempt", "2", "publickey", "key-A"⟩] ∧
      ∃ evidence, evidenceIsValid twoKeys evidence "user" "attempt" = true ∧
        (evaluateAuthPolicy twoKeys .login [twoKeyChain] evidence "user" "attempt").satisfied =
          true := by
  obtain ⟨hevaluation, havailability⟩ := policy_language twoKeys .login "user" "attempt"
  refine ⟨?_, (havailability twoKeyChain (by decide)).mp (by decide +kernel)⟩
  have hsat := (hevaluation [twoKeyChain]
    [⟨"user", "attempt", "1", "publickey", "key-B"⟩, ⟨"user", "attempt", "2", "publickey", "key-A"⟩]
    (by decide +kernel)).mp (by decide +kernel)
  rcases hsat with ⟨hnil, -⟩ | ⟨chain, hmem, hacc⟩
  · cases hnil
  · obtain rfl := mem_singleton.mp hmem
    exact hacc

end Cfms.Identity
