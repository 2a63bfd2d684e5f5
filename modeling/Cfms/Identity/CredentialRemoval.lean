import Cfms.Identity.PolicyMeaning

/-!
# Removing a credential from the policies

`remove_credential_from_auth_policies` takes the credential out of every pool and drops the chains
that cannot be completed any more.  Without the credential a pruned chain accepts what the chain
accepted (`accepts_prune`) and can be completed when the chain can (`canComplete_prune`), so what is
dropped could not be used.  `removal_only_removes_dependents` puts the parts together.

The credentials are those that the providers list, extensions included; a provider lists each of its
credentials once.
-/

namespace Cfms.Identity

open Lib.AugmentingPath List

/-! ### Statement -/

variable (creds : List RegisteredCredential)

/-- No method lists an identifier twice. -/
def DistinctCredentials : Prop :=
  (creds.map fun c => (c.method, c.credentialId)).Nodup

/-- The other credentials. -/
def withoutCredential (method credentialId : String) : List RegisteredCredential :=
  creds.filter fun c => !(c.method == method && c.credentialId == credentialId)

def activated : List RegisteredCredential :=
  creds.map fun c => { c with active := true }

/-- `remove_credential_from_auth_policies` for the credentials that the registry lists. -/
def pruneAuthPolicies (method credentialId : String)
    (policies : AuthPurpose → Option UserAuthPolicy) : AuthPurpose → Option UserAuthPolicy :=
  fun purpose => (policies purpose).map
    (prunePolicy (activated (withoutCredential creds method credentialId)) method credentialId)

def UserAuthPolicy.Mentions (policy : UserAuthPolicy) (method credentialId : String) : Prop :=
  ∃ chain ∈ policy.chains, ∃ step ∈ chain.steps,
    step.method = method ∧ credentialId ∈ step.credentialIds

/-- The same step, with no other credential lost. -/
def LosesOnly (method credentialId : String) (step pruned : AuthStep) : Prop :=
  pruned.method = step.method ∧
    pruned.credentialIds =
      step.credentialIds.filter fun id => ¬ (step.method = method ∧ id = credentialId)

structure OnlyRemovesDependents (method credentialId : String) (before after : UserAuthPolicy) :
    Prop where
  unmentioned : ¬ before.Mentions method credentialId → after = before
  revision : before.Mentions method credentialId → after.revision = before.revision + 1
  retained : before.Mentions method credentialId →
    ∃ origins : List AuthChain, origins.Sublist before.chains ∧
      List.Forall₂ (fun origin chain : AuthChain =>
        List.Forall₂ (LosesOnly method credentialId) origin.steps chain.steps) origins after.chains
  distinct : before.Mentions method credentialId → (after.chains.map AuthChain.identity).Nodup
  sound : after.chains ≠ [] → ∀ purpose evidence userId attemptId,
    evidenceIsValid (withoutCredential creds method credentialId) evidence userId attemptId =
      true →
    (evaluateAuthPolicy (withoutCredential creds method credentialId) purpose after.chains
      evidence userId attemptId).satisfied = true →
    (evaluateAuthPolicy creds purpose before.chains evidence userId attemptId).satisfied = true
  complete : (∀ chain ∈ before.chains, 1 < chain.steps.length →
      ∀ step ∈ chain.steps, step.method = "publickey") →
    ∀ purpose evidence userId attemptId,
    evidenceIsValid (withoutCredential creds method credentialId) evidence userId attemptId =
      true →
    (evaluateAuthPolicy creds purpose before.chains evidence userId attemptId).satisfied =
      true →
    (evaluateAuthPolicy (withoutCredential creds method credentialId) purpose after.chains
      evidence userId attemptId).satisfied = true
  emptied : after.chains = [] → ∀ chain ∈ before.chains,
    canCompleteAuthChain (withoutCredential creds method credentialId) chain = false

/-! ### Credentials -/

section

variable {creds : List RegisteredCredential} {cred : RegisteredCredential}
variable {method credId : String}

variable (h : DistinctCredentials creds)

include h

theorem activeCredential_eq_some :
    activeCredential creds method credId = some cred ↔
      cred ∈ creds ∧ cred.active = true ∧ cred.method = method ∧ cred.credentialId = credId := by
  constructor
  · intro hfound
    have hmem := mem_of_find?_eq_some hfound
    have hfits := find?_some hfound
    simp only [Bool.and_eq_true, beq_iff_eq] at hfits
    exact ⟨mem_reverse.mp hmem, hfits.1.1, hfits.1.2, hfits.2⟩
  · rintro ⟨hmem, hact, rfl, rfl⟩
    cases hfound : activeCredential creds cred.method cred.credentialId with
    | none =>
      rw [activeCredential, find?_eq_none] at hfound
      exact absurd (by simp [hact]) (hfound cred (mem_reverse.mpr hmem))
    | some other =>
      have hother := mem_reverse.mp (mem_of_find?_eq_some hfound)
      have hfits := find?_some hfound
      simp only [Bool.and_eq_true, beq_iff_eq] at hfits
      congr 1
      apply inj_on_of_nodup_map h hother hmem
      rw [hfits.1.2, hfits.2]

theorem DistinctCredentials.without :
    DistinctCredentials (withoutCredential creds method credId) :=
  List.Nodup.sublist (filter_sublist.map _) h

theorem DistinctCredentials.activated :
    DistinctCredentials (activated creds) := by
  rw [DistinctCredentials, Identity.activated, map_map]
  exact h

theorem activeCredential_without (m id : String) :
    activeCredential (withoutCredential creds method credId) m id =
      if m = method ∧ id = credId then none else activeCredential creds m id := by
  ext cred
  rw [activeCredential_eq_some h.without, withoutCredential, mem_filter]
  split
  · rename_i hremoved
    obtain ⟨rfl, rfl⟩ := hremoved
    refine iff_of_false ?_ nofun
    rintro ⟨⟨-, hother⟩, -, rfl, rfl⟩
    simp at hother
  · rename_i hother
    rw [activeCredential_eq_some h]
    constructor
    · exact fun h => ⟨h.1.1, h.2⟩
    rintro ⟨hmem, hact, rfl, rfl⟩
    refine ⟨⟨hmem, ?_⟩, hact, rfl, rfl⟩
    rw [Bool.not_eq_true', ← Bool.not_eq_true, Bool.and_eq_true, beq_iff_eq, beq_iff_eq]
    exact hother

theorem activeCredential_activated {m id : String}
    (hfound : activeCredential creds m id = some cred) :
    activeCredential (activated creds) m id = some { cred with active := true } := by
  obtain ⟨hmem, -, hmeth, hid⟩ := (activeCredential_eq_some h).mp hfound
  exact (activeCredential_eq_some h.activated).mpr ⟨mem_map_of_mem hmem, rfl, hmeth, hid⟩

end

/-! ### Pruned chains -/

theorem mapM_eq_some_iff {α β : Type} {f : α → Option β} {l : List α} {l' : List β} :
    l.mapM f = some l' ↔ List.Forall₂ (fun a b => f a = some b) l l' := by
  induction l generalizing l' with
  | nil =>
    rw [forall₂_nil_left_iff]
    exact Option.some_inj.trans eq_comm
  | cons a l ih =>
    rw [mapM_cons, forall₂_cons_left_iff]
    constructor
    · intro h
      obtain ⟨b, hb, hrest⟩ := Option.bind_eq_some_iff.mp h
      obtain ⟨rest, htail, heq⟩ := Option.bind_eq_some_iff.mp hrest
      exact ⟨b, rest, hb, ih.mp htail, (Option.some.inj heq).symm⟩
    · rintro ⟨b, rest, hb, htail, rfl⟩
      rw [hb, ih.mpr htail]
      rfl

section

variable {method credId : String} {step pruned : AuthStep}

theorem pruneStep_eq_some : pruneStep method credId step = some pruned ↔
    LosesOnly method credId step pruned ∧ pruned.credentialIds ≠ [] := by
  have hpool : (step.credentialIds.filter fun id =>
      !(step.method == method && id == credId)) =
        step.credentialIds.filter fun id => ¬ (step.method = method ∧ id = credId) := by
    congr 1
    funext id
    by_cases hmeth : step.method = method <;> by_cases hid : id = credId <;>
      simp [hmeth, hid]
  rw [pruneStep, hpool]
  split
  · rename_i hempty
    refine iff_of_false nofun ?_
    rintro ⟨⟨-, hids⟩, hne⟩
    exact hne (hids.trans (isEmpty_iff.mp hempty))
  · rename_i hne
    rw [Option.some.injEq]
    constructor
    · rintro rfl
      exact ⟨⟨rfl, rfl⟩, fun h => hne (isEmpty_iff.mpr h)⟩
    · rintro ⟨⟨hmeth, hids⟩, -⟩
      rw [← hids, ← hmeth]

variable {chain prunedChain : AuthChain}

theorem pruneChain_eq_some : pruneChain method credId chain = some prunedChain ↔
    List.Forall₂ (LosesOnly method credId) chain.steps prunedChain.steps ∧
      ∀ step ∈ prunedChain.steps, step.credentialIds ≠ [] := by
  have hsteps : (∀ steps steps' : List AuthStep,
      List.Forall₂ (fun a b => pruneStep method credId a = some b) steps steps' ↔
        List.Forall₂ (LosesOnly method credId) steps steps' ∧
          ∀ step ∈ steps', step.credentialIds ≠ []) := by
    intro steps steps'
    constructor
    · intro h
      induction h with
      | nil => exact ⟨.nil, nofun⟩
      | cons hfirst _ ih =>
        obtain ⟨hloses, hne⟩ := pruneStep_eq_some.mp hfirst
        exact ⟨.cons hloses ih.1, forall_mem_cons.mpr ⟨hne, ih.2⟩⟩
    · rintro ⟨h, hne⟩
      induction h with
      | nil => exact .nil
      | cons hfirst _ ih =>
        obtain ⟨hfirstNe, hrestNe⟩ := forall_mem_cons.mp hne
        exact .cons (pruneStep_eq_some.mpr ⟨hfirst, hfirstNe⟩) (ih hrestNe)
  rw [← hsteps, ← mapM_eq_some_iff, pruneChain]
  constructor
  · intro h
    obtain ⟨steps, hmap, hchain⟩ := Option.bind_eq_some_iff.mp h
    rw [hmap]
    split at hchain
    · rw [← Option.some.inj hchain]
    · cases hchain
  · intro h
    rw [h, Option.bind_some, dif_pos prunedChain.nonempty]

theorem uses_eq_true : step.uses method credId = true ↔
    step.method = method ∧ credId ∈ step.credentialIds := by
  simp [AuthStep.uses]

theorem mentions_iff {policy : UserAuthPolicy} :
    (policy.chains.any fun chain => chain.steps.any (·.uses method credId)) = true ↔
      policy.Mentions method credId := by
  simp only [any_eq_true, uses_eq_true, UserAuthPolicy.Mentions]

theorem head_method (h : List.Forall₂ (LosesOnly method credId) chain.steps prunedChain.steps) :
    prunedChain.head.method = chain.head.method := by
  obtain ⟨steps, hne⟩ := chain
  obtain ⟨prunedSteps, hprunedNe⟩ := prunedChain
  cases h with
  | nil => exact absurd rfl hne
  | cons hfirst _ => exact hfirst.1

variable {steps prunedSteps : List AuthStep}

theorem methods_prune
    (h : List.Forall₂ (LosesOnly method credId) steps prunedSteps) (P : String → Prop) :
    (∀ step ∈ prunedSteps, P step.method) ↔ ∀ step ∈ steps, P step.method := by
  induction h with
  | nil => simp
  | cons hfirst _ ih => rw [forall_mem_cons, forall_mem_cons, ih, hfirst.1]

variable {creds : List RegisteredCredential}

variable (hremoved : activeCredential creds method credId = none)

include hremoved

theorem stepPools_prune
    (h : List.Forall₂ (LosesOnly method credId) steps prunedSteps) :
    stepPools creds prunedSteps = stepPools creds steps := by
  induction h with
  | nil => rfl
  | @cons step pruned steps prunedSteps hfirst _ ih =>
    simp only [stepPools, map_cons] at ih ⊢
    rw [hfirst.1, hfirst.2, filterMap_filter]
    congr 1
    apply filterMap_congr
    intro id _
    split
    · rfl
    rename_i hlost
    rw [decide_eq_true_eq, not_not] at hlost
    rw [hlost.1, hlost.2, hremoved]

theorem canComplete_prune
    (h : List.Forall₂ (LosesOnly method credId) chain.steps prunedChain.steps) :
    canCompleteAuthChain creds prunedChain = canCompleteAuthChain creds chain := by
  rw [canCompleteAuthChain, canCompleteAuthChain, keyPools, keyPools, stepPools_prune hremoved h,
    head_method h, h.length_eq]

theorem pool_empty_of_pruneChain
    (h : pruneChain method credId chain = none) :
    canCompleteAuthChain creds chain = false := by
  rw [canCompleteAuthChain, if_pos]
  by_contra hnone
  rw [Bool.not_eq_true, any_eq_false] at hnone
  let steps := chain.steps.map fun step => (⟨step.method, step.credentialIds.filter fun id =>
    ¬ (step.method = method ∧ id = credId)⟩ : AuthStep)
  have hne : steps ≠ [] := by
    intro hnil
    exact chain.nonempty (map_eq_nil_iff.mp hnil)
  have hloses : List.Forall₂ (LosesOnly method credId) chain.steps steps := by
    rw [forall₂_map_right_iff, forall₂_same]
    exact fun step _ => ⟨rfl, rfl⟩
  have hpools := stepPools_prune hremoved hloses
  have hsome : pruneChain method credId chain = some ⟨steps, hne⟩ := by
    rw [pruneChain_eq_some]
    refine ⟨hloses, ?_⟩
    intro step hstep hnil
    apply hnone (step.credentialIds.filterMap (activeCredential creds step.method))
    · rw [← hpools]
      exact mem_map_of_mem hstep
    · rw [hnil]
      rfl
  rw [h] at hsome
  cases hsome

omit hremoved

theorem completes_prune {used : List AuthEvidence}
    (h : List.Forall₂ (LosesOnly method credId) steps prunedSteps)
    (hused : ∀ e ∈ used, ¬ (e.method = method ∧ e.credentialId = credId)) :
    List.Forall₂ Completes prunedSteps used ↔ List.Forall₂ Completes steps used := by
  induction h generalizing used with
  | nil => rfl
  | @cons step pruned steps prunedSteps hfirst _ ih =>
    cases used with
    | nil => simp
    | cons e used =>
      rw [forall₂_cons, forall₂_cons, ih fun f hf => hused f (mem_cons_of_mem e hf)]
      refine and_congr_left fun _ => ?_
      rw [Completes, hfirst.1, hfirst.2, mem_filter, decide_eq_true_eq]
      refine and_congr_right fun hmeth => and_iff_left ?_
      rw [← hmeth]
      exact hused e mem_cons_self

end

/-! ### Retained chains -/

section

variable {creds : List RegisteredCredential} {method credId : String}
variable {seen : List (List (String × Finset String))} {chains : List AuthChain}

def dropped (credentials : List RegisteredCredential) (method credentialId : String)
    (chain pruned : AuthChain) : Bool :=
  chain.steps.any (·.uses method credentialId) && !canCompleteAuthChain credentials pruned

theorem retainChains_origins : ∃ origins : List AuthChain, origins.Sublist chains ∧
      List.Forall₂ (fun origin chain : AuthChain =>
        List.Forall₂ (LosesOnly method credId) origin.steps chain.steps) origins
          (retainChains creds method credId seen chains) := by
  induction chains generalizing seen with
  | nil => exact ⟨[], .slnil, .nil⟩
  | cons chain rest ih =>
    rw [retainChains]
    split
    · obtain ⟨origins, hsub, horig⟩ := ih
      exact ⟨origins, hsub.cons chain, horig⟩
    · rename_i pruned hpruned
      split
      · obtain ⟨origins, hsub, horig⟩ := ih
        exact ⟨origins, hsub.cons chain, horig⟩
      · obtain ⟨origins, hsub, horig⟩ := ih
        exact ⟨chain :: origins, hsub.cons_cons chain, .cons (pruneChain_eq_some.mp hpruned).1 horig⟩

theorem retainChains_distinct :
    ((retainChains creds method credId seen chains).map AuthChain.identity).Nodup ∧
      ∀ chain ∈ retainChains creds method credId seen chains, chain.identity ∉ seen := by
  induction chains generalizing seen with
  | nil => exact ⟨nodup_nil, nofun⟩
  | cons chain rest ih =>
    rw [retainChains]
    split
    · exact ih
    rename_i pruned hpruned
    split
    · exact ih
    rename_i hkept
    rw [Bool.or_eq_true, not_or, decide_eq_true_eq] at hkept
    obtain ⟨hnodup, hfresh⟩ := @ih (pruned.identity :: seen)
    rw [map_cons, nodup_cons, forall_mem_cons]
    refine ⟨⟨?_, hnodup⟩, hkept.2, ?_⟩
    · intro hmem
      obtain ⟨other, hother, hsame⟩ := mem_map.mp hmem
      exact hfresh other hother (hsame ▸ mem_cons_self)
    · exact fun other hother hseen => hfresh other hother (mem_cons_of_mem _ hseen)

theorem exists_retained {chain pruned : AuthChain} (hchain : chain ∈ chains)
    (hpruned : pruneChain method credId chain = some pruned)
    (hkept : dropped creds method credId chain pruned = false) :
    pruned.identity ∈ seen ∨ ∃ retained ∈ retainChains creds method credId seen chains,
        retained.identity = pruned.identity := by
  induction chains generalizing seen with
  | nil => cases hchain
  | cons first rest ih =>
    rw [retainChains]
    rcases mem_cons.mp hchain with rfl | hlater
    · rw [hpruned]
      show _ ∨ ∃ retained ∈ (if dropped creds method credId chain pruned ||
        decide (pruned.identity ∈ seen) then _ else _), _
      rw [hkept]
      by_cases hseen : pruned.identity ∈ seen
      · exact .inl hseen
      · rw [if_neg (by simpa using hseen)]
        exact .inr ⟨pruned, mem_cons_self, rfl⟩
    · split
      · exact ih hlater
      · rename_i other hother
        split
        · exact ih hlater
        rcases @ih (other.identity :: seen) hlater with hseen | ⟨retained, hret, hsame⟩
        · rcases mem_cons.mp hseen with heq | hseen
          · exact .inr ⟨other, mem_cons_self, heq.symm⟩
          · exact .inl hseen
        · exact .inr ⟨retained, mem_cons_of_mem other hret, hsame⟩

end

/-! ### Acceptance and availability -/

section

variable {creds : List RegisteredCredential} {purpose : AuthPurpose}
variable {evidence : List AuthEvidence} {chain pruned : AuthChain}

theorem accepts_of_identity (h : chain.identity = pruned.identity)
    (hacc : chain.Accepts creds purpose evidence) :
    pruned.Accepts creds purpose evidence := by
  have hsteps : List.Forall₂ (fun a b : AuthStep => a.method = b.method ∧
      ∀ id, id ∈ a.credentialIds ↔ id ∈ b.credentialIds) chain.steps pruned.steps := by
    rw [AuthChain.identity, AuthChain.identity, ← forall₂_eq_eq_eq, forall₂_map_left_iff,
      forall₂_map_right_iff] at h
    refine h.imp ?_
    intro a b hab
    rw [Prod.mk.injEq] at hab
    refine ⟨hab.1, fun id => ?_⟩
    rw [← mem_toFinset, hab.2, mem_toFinset]
  have hmeths : chain.steps.map AuthStep.method = pruned.steps.map AuthStep.method := by
    rw [← forall₂_eq_eq_eq, forall₂_map_left_iff, forall₂_map_right_iff]
    exact hsteps.imp fun a b hab => hab.1
  have hhead : chain.head.method = pruned.head.method := by
    have hheads := congrArg head? hmeths
    rw [head?_map, head?_map, head?_eq_some_head chain.nonempty,
      head?_eq_some_head pruned.nonempty] at hheads
    exact Option.some.inj hheads
  have hall : ∀ P : String → Prop, (∀ step ∈ chain.steps, P step.method) →
      ∀ step ∈ pruned.steps, P step.method := by
    intro P hP step hstep
    have hmem : step.method ∈ chain.steps.map AuthStep.method := by
      rw [hmeths]
      exact mem_map_of_mem hstep
    obtain ⟨origin, horigin, hsame⟩ := mem_map.mp hmem
    rw [← hsame]
    exact hP origin horigin
  obtain ⟨hsing, hlogin, used, hused, ⟨heach, hdist⟩, hidentified⟩ := hacc
  refine ⟨?_, ?_, used, hused, ⟨?_, hdist⟩, hidentified⟩
  · rw [← hhead]
    exact hall (· = chain.head.method) hsing
  · exact fun hpurp => hall (· ≠ "totp") (hlogin hpurp)
  clear hused hdist hidentified hall hmeths hhead hsing hlogin h
  generalize chain.steps = steps at hsteps heach
  generalize pruned.steps = prunedSteps at hsteps
  induction hsteps generalizing used with
  | nil => exact heach
  | cons hab _ ih =>
    cases heach with
    | cons hfirst hrest =>
      exact .cons ⟨hfirst.1.trans hab.1, (hab.2 _).mp hfirst.2⟩ (ih _ hrest)

variable {method credId userId attemptId : String}

theorem not_removed_of_valid (h : DistinctCredentials creds)
    (hvalid : evidenceIsValid (withoutCredential creds method credId) evidence userId
      attemptId = true) :
    ∀ e ∈ evidence, ¬ (e.method = method ∧ e.credentialId = credId) := by
  intro e he hremoved
  have hsome := isSome_of_evidenceIsValid hvalid he
  rw [activeCredential_without h, if_pos hremoved] at hsome
  cases hsome

theorem valid_of_without (h : DistinctCredentials creds)
    (hvalid : evidenceIsValid (withoutCredential creds method credId) evidence userId
      attemptId = true) : evidenceIsValid creds evidence userId attemptId = true := by
  have hother := not_removed_of_valid h hvalid
  rw [evidenceIsValid, Bool.and_eq_true, all_eq_true] at hvalid ⊢
  refine ⟨hvalid.1, ?_⟩
  intro e he
  have hevent := hvalid.2 e he
  rw [activeCredential_without h, if_neg (hother e he)] at hevent
  exact hevent

theorem MatchedBy.congr {creds' : List RegisteredCredential} {steps : List AuthStep}
    {used : List AuthEvidence}
    (h : ∀ e ∈ used, keyIdentityOf creds e = keyIdentityOf creds' e)
    (hmatch : MatchedBy creds steps used) : MatchedBy creds' steps used := by
  obtain ⟨⟨heach, hdist⟩, hidentified⟩ := hmatch
  refine ⟨⟨heach, hdist.imp_of_mem ?_⟩, ?_⟩
  · intro e f he hf hdiff
    rw [← h e he, ← h f hf]
    exact hdiff
  · intro e he
    rw [← h e he]
    exact hidentified e he

theorem accepts_without (h : DistinctCredentials creds)
    (hvalid : evidenceIsValid (withoutCredential creds method credId) evidence userId
      attemptId = true) :
    chain.Accepts (withoutCredential creds method credId) purpose evidence ↔
      chain.Accepts creds purpose evidence := by
  have hkeys : ∀ e ∈ evidence, keyIdentityOf (withoutCredential creds method credId) e =
      keyIdentityOf creds e := by
    intro e he
    rw [keyIdentityOf, keyIdentityOf, activeCredential_without h,
      if_neg (not_removed_of_valid h hvalid e he)]
  refine and_congr_right fun _ => and_congr_right fun _ => exists_congr fun used => ?_
  refine and_congr_right fun hused => ?_
  constructor
  · exact fun hmatch => hmatch.congr fun e he => hkeys e (hused.subset he)
  · exact fun hmatch => hmatch.congr fun e he => (hkeys e (hused.subset he)).symm

theorem accepts_prune (hprune : List.Forall₂ (LosesOnly method credId) chain.steps pruned.steps)
    (hother : ∀ e ∈ evidence, ¬ (e.method = method ∧ e.credentialId = credId)) :
    pruned.Accepts creds purpose evidence ↔ chain.Accepts creds purpose evidence := by
  have hsteps : ∀ P : String → Prop,
      (∀ step ∈ pruned.steps, P step.method) ↔ ∀ step ∈ chain.steps, P step.method :=
    fun P => methods_prune hprune P
  rw [AuthChain.Accepts, head_method hprune, hsteps (· = chain.head.method), hsteps (· ≠ "totp")]
  refine and_congr_right fun _ => and_congr_right fun _ => exists_congr fun used => ?_
  refine and_congr_right fun hused => ?_
  have heach := completes_prune hprune fun e he => hother e (hused.subset he)
  constructor
  · exact fun h => ⟨⟨heach.mp h.completed.each, h.completed.distinctKeys⟩, h.identified⟩
  · exact fun h => ⟨⟨heach.mpr h.completed.each, h.completed.distinctKeys⟩, h.identified⟩

theorem canComplete_activated (h : DistinctCredentials creds)
    (hcompl : canCompleteAuthChain creds chain = true) :
    canCompleteAuthChain (activated creds) chain = true := by
  have hfound : ∀ (step : AuthStep) (c : RegisteredCredential),
      c ∈ step.credentialIds.filterMap (activeCredential creds step.method) →
        { c with active := true } ∈
          step.credentialIds.filterMap (activeCredential (activated creds) step.method) := by
    intro step c hc
    obtain ⟨id, hid, hact⟩ := mem_filterMap.mp hc
    exact mem_filterMap.mpr ⟨id, hid, activeCredential_activated h hact⟩
  by_cases hhead : chain.head.method = "publickey"
  · rw [canCompleteAuthChain_eq_true hhead] at hcompl ⊢
    obtain ⟨keys, hfits, hnodup⟩ := hcompl
    refine ⟨keys, ?_, hnodup⟩
    rw [keyPools, stepPools, map_map, forall₂_map_left_iff] at hfits ⊢
    refine hfits.imp ?_
    intro step key hkey
    obtain ⟨c, hc, hident⟩ := mem_filterMap.mp hkey
    exact mem_filterMap.mpr ⟨_, hfound step c hc, hident⟩
  · rw [canCompleteAuthChain] at hcompl ⊢
    have hkey : (chain.head.method != "publickey") = true := by simpa using hhead
    rw [if_pos hkey] at hcompl ⊢
    split at hcompl
    · cases hcompl
    rename_i hpools
    rw [if_neg ?_]
    · exact hcompl
    rw [Bool.not_eq_true, any_eq_false] at hpools ⊢
    intro pool hpool hempty
    obtain ⟨step, hstep, rfl⟩ := mem_map.mp hpool
    apply hpools _ (mem_map_of_mem hstep)
    rw [List.isEmpty_iff] at hempty ⊢
    rw [eq_nil_iff_forall_not_mem]
    intro c hc
    have hmem := hfound step c hc
    rw [hempty] at hmem
    cases hmem

theorem canComplete_of_accepts (hacc : chain.Accepts creds purpose evidence)
    (hvalid : evidenceIsValid creds evidence userId attemptId = true)
    (hpub : 1 < chain.steps.length → ∀ step ∈ chain.steps, step.method = "publickey") :
    canCompleteAuthChain creds chain = true := by
  obtain ⟨hsing, -, used, hused, hmatch⟩ := hacc
  by_cases hhead : chain.head.method = "publickey"
  · rw [canCompleteAuthChain_eq_true hhead]
    obtain ⟨keys, hkeys, -⟩ :=
      representatives_of_matchedBy (fun step hstep => (hsing step hstep).trans hhead) hmatch
    exact ⟨keys, hkeys⟩
  · have hlen : chain.steps.length = 1 := by
      have hpos := length_pos_iff.mpr chain.nonempty
      by_contra hne
      exact hhead (hpub (by omega) _ (head_mem chain.nonempty))
    have hact := exists_active_of_completes hmatch.completed.each
      fun e he => isSome_of_evidenceIsValid hvalid (hused.subset he)
    have hpools : (stepPools creds chain.steps).any isEmpty = false := by
      rw [any_eq_false]
      intro pool hpool hempty
      obtain ⟨step, hstep, rfl⟩ := mem_map.mp hpool
      obtain ⟨id, hid, hsome⟩ := hact step hstep
      obtain ⟨c, hc⟩ := Option.isSome_iff_exists.mp hsome
      have hmem := mem_filterMap.mpr ⟨id, hid, hc⟩
      rw [isEmpty_iff.mp hempty] at hmem
      cases hmem
    have hkey : (chain.head.method != "publickey") = true := by simpa using hhead
    rw [canCompleteAuthChain, hpools, if_pos hkey, hlen]
    rfl

end

/-! ### The theorem -/

section

variable {creds : List RegisteredCredential} {method credId : String}
variable {before : UserAuthPolicy}

theorem prunePolicy_of_mentions (creds : List RegisteredCredential)
    (h : before.Mentions method credId) :
    prunePolicy creds method credId before =
      ⟨before.revision + 1, retainChains creds method credId [] before.chains⟩ := by
  rw [prunePolicy, if_pos (mentions_iff.mpr h)]

theorem prunePolicy_of_not_mentions (creds : List RegisteredCredential)
    (h : ¬ before.Mentions method credId) :
    prunePolicy creds method credId before = before := by
  rw [prunePolicy, if_neg fun hany => h (mentions_iff.mp hany)]

theorem exists_pruned (hdist : DistinctCredentials creds) {chain : AuthChain}
    (hchain : chain ∈ before.chains)
    (hcompl : canCompleteAuthChain (withoutCredential creds method credId) chain = true) :
    ∃ retained ∈ (prunePolicy (activated (withoutCredential creds method credId)) method
        credId before).chains,
      ∃ pruned : AuthChain, retained.identity = pruned.identity ∧
        List.Forall₂ (LosesOnly method credId) chain.steps pruned.steps := by
  by_cases hment : before.Mentions method credId
  · have hremoved : activeCredential (activated (withoutCredential creds method credId))
        method credId = none := by
      cases hfound : activeCredential (activated (withoutCredential creds method credId))
          method credId with
      | none => rfl
      | some c =>
        obtain ⟨hmem, -, hmeth, hid⟩ :=
          (activeCredential_eq_some hdist.without.activated).mp hfound
        obtain ⟨origin, horigin, rfl⟩ := mem_map.mp hmem
        have hother := (mem_filter.mp horigin).2
        simp [show origin.method = method from hmeth,
          show origin.credentialId = credId from hid] at hother
    have hforced := canComplete_activated hdist.without hcompl
    rw [prunePolicy_of_mentions _ hment]
    cases hpruned : pruneChain method credId chain with
    | none =>
      rw [pool_empty_of_pruneChain hremoved hpruned] at hforced
      cases hforced
    | some pruned =>
      have hprune := (pruneChain_eq_some.mp hpruned).1
      have hkept : dropped (activated (withoutCredential creds method credId)) method
          credId chain pruned = false := by
        rw [dropped, canComplete_prune hremoved hprune, hforced, Bool.not_true, Bool.and_false]
      have hfound : pruned.identity ∈ ([] : List (List (String × Finset String))) ∨
          ∃ retained ∈ retainChains _ method credId [] before.chains,
            retained.identity = pruned.identity := exists_retained hchain hpruned hkept
      obtain hseen | ⟨retained, hret, hsame⟩ := hfound
      · cases hseen
      · exact ⟨retained, hret, pruned, hsame, hprune⟩
  · rw [prunePolicy_of_not_mentions _ hment]
    refine ⟨chain, hchain, chain, rfl, ?_⟩
    rw [forall₂_same]
    intro step hstep
    refine ⟨rfl, (filter_eq_self.mpr fun id hid => ?_).symm⟩
    rw [decide_eq_true_eq]
    rintro ⟨hmeth, rfl⟩
    exact hment ⟨chain, hchain, step, hstep, hmeth, hid⟩

theorem exists_origin {chain : AuthChain}
    (hchain : chain ∈ (prunePolicy (activated (withoutCredential creds method credId))
      method credId before).chains) :
    ∃ origin ∈ before.chains,
      origin = chain ∨ List.Forall₂ (LosesOnly method credId) origin.steps chain.steps := by
  by_cases hment : before.Mentions method credId
  · rw [prunePolicy_of_mentions _ hment] at hchain
    change chain ∈ retainChains _ method credId [] before.chains at hchain
    obtain ⟨i, hi, rfl⟩ := mem_iff_getElem.mp hchain
    obtain ⟨origins, hsub, horig⟩ := retainChains_origins
    have hlen := horig.length_eq
    have hi' : i < origins.length := hlen ▸ hi
    exact ⟨origins[i], hsub.subset (getElem_mem _), .inr (horig.get hi' hi)⟩
  · rw [prunePolicy_of_not_mentions _ hment] at hchain
    exact ⟨chain, hchain, .inl rfl⟩

/-- **Removing a credential only removes what depended on it.** -/
theorem removal_only_removes_dependents (creds : List RegisteredCredential)
    (hdist : DistinctCredentials creds) (method credId : String)
    (policies : AuthPurpose → Option UserAuthPolicy) (purpose : AuthPurpose) :
    match policies purpose, pruneAuthPolicies creds method credId policies purpose with
    | none, none => True
    | some before, some after =>
      OnlyRemovesDependents creds method credId before after
    | _, _ => False := by
  rw [pruneAuthPolicies]
  cases hpol : policies purpose with
  | none => trivial
  | some before =>
    show OnlyRemovesDependents creds method credId before
      (prunePolicy (activated (withoutCredential creds method credId)) method
        credId before)
    constructor
    · exact prunePolicy_of_not_mentions _
    · intro hment
      rw [prunePolicy_of_mentions _ hment]
    · intro hment
      rw [prunePolicy_of_mentions _ hment]
      exact retainChains_origins
    · intro hment
      rw [prunePolicy_of_mentions _ hment]
      exact retainChains_distinct.1
    · intro hne purpose evidence userId attemptId hvalid hsat
      have hother := not_removed_of_valid hdist hvalid
      obtain ⟨hnil, -⟩ | ⟨chain, hchain, hacc⟩ :=
        (evaluateAuthPolicy_iff hvalid).mp hsat
      · exact absurd hnil hne
      refine (evaluateAuthPolicy_iff (valid_of_without hdist hvalid)).mpr (.inr ?_)
      rw [accepts_without hdist hvalid] at hacc
      obtain ⟨origin, horigin, rfl | hprune⟩ := exists_origin hchain
      · exact ⟨origin, horigin, hacc⟩
      · exact ⟨origin, horigin, (accepts_prune hprune hother).mp hacc⟩
    · intro hpub purpose evidence userId attemptId hvalid hsat
      have hother := not_removed_of_valid hdist hvalid
      refine (evaluateAuthPolicy_iff hvalid).mpr ?_
      obtain ⟨hnil, hmfa⟩ | ⟨chain, hchain, hacc⟩ :=
        (evaluateAuthPolicy_iff (valid_of_without hdist hvalid)).mp hsat
      · refine .inl ⟨?_, hmfa⟩
        rw [prunePolicy_of_not_mentions, hnil]
        rintro ⟨chain, hchain, -⟩
        rw [hnil] at hchain
        cases hchain
      · rw [← accepts_without hdist hvalid] at hacc
        have hcompl := canComplete_of_accepts hacc hvalid (hpub chain hchain)
        obtain ⟨retained, hret, pruned, hsame, hprune⟩ :=
          exists_pruned hdist hchain hcompl
        exact .inr ⟨retained, hret,
          accepts_of_identity hsame.symm ((accepts_prune hprune hother).mpr hacc)⟩
    · intro hempty chain hchain
      by_contra hcompl
      rw [Bool.not_eq_false] at hcompl
      obtain ⟨retained, hret, -⟩ := exists_pruned hdist hchain hcompl
      rw [hempty] at hret
      cases hret

/-- One of two keys goes: the chain that needs both is dropped, and the other keeps the other key. -/
theorem removal_only_removes_dependents_of_key :
    OnlyRemovesDependents twoKeys "publickey" "key-A" ⟨4, [twoKeyChain, ⟨[⟨"publickey",
      ["key-A", "key-B"]⟩], by decide⟩]⟩ ⟨5, [⟨[⟨"publickey", ["key-B"]⟩], by decide⟩]⟩ := by
  have hrem := removal_only_removes_dependents twoKeys
    (by unfold DistinctCredentials; decide) "publickey" "key-A"
    (fun _ => some ⟨4, [twoKeyChain, ⟨[⟨"publickey", ["key-A", "key-B"]⟩], by decide⟩]⟩) .login
  have hpruned : prunePolicy (activated (withoutCredential twoKeys "publickey" "key-A")) "publickey"
      "key-A" ⟨4, [twoKeyChain, ⟨[⟨"publickey", ["key-A", "key-B"]⟩], by decide⟩]⟩ =
        ⟨5, [⟨[⟨"publickey", ["key-B"]⟩], by decide⟩]⟩ := by
    decide +kernel
  exact hrem

end

end Cfms.Identity
