import Mathlib.Data.Fintype.EquivFin
import Cfms.Identity.PolicyMeaning

/-!
# The choice of keys in a dialogue

A user answers the next steps of a public-key policy one after another.  The evaluation offers every
unused key of the step that a furthest state comes to, and does not look ahead: with the pools
`{A, B}` and `{A}`, the answer `A` leaves nothing for the second step, although the chain can be
completed.

An answer keeps the policy open when some chain has a longest match of the evidence that can still
be extended to the end (`KeepsOpen`).  While the answers keep the policy open there is no dead end, and
for a policy of one chain there is one as soon as an answer does not
(`keyDialogue_without_dead_end`).
-/

namespace Cfms.Identity

open Lib.OrderedMatching List
open Lib.AugmentingPath

/-! ### Dialogues -/

/-- An attempt of a user whose credentials do not change. -/
structure KeyAttempt where
  credentials : List RegisteredCredential
  purpose : AuthPurpose
  chains : List AuthChain
  userId : String
  attemptId : String

def KeyAttempt.evaluate (attempt : KeyAttempt) (evidence : List AuthEvidence) :
    AuthPolicyDecision :=
  evaluateAuthPolicy attempt.credentials attempt.purpose attempt.chains evidence attempt.userId
    attempt.attemptId

structure KeyAttempt.IsCompletable (attempt : KeyAttempt) : Prop where
  nonempty : attempt.chains ≠ []
  publicKey : ∀ chain ∈ attempt.chains, ∀ step ∈ chain.steps, step.method = "publickey"
  completable : ∀ chain ∈ attempt.chains, canCompleteAuthChain attempt.credentials chain = true

/-- Evidence in which each item was offered by the evaluation of those before it. -/
inductive KeyAttempt.Offered (attempt : KeyAttempt) : List AuthEvidence → Prop
  | start : attempt.Offered []
  | answer {evidence : List AuthEvidence} {event : AuthEvidence} {step : AuthStep} :
    attempt.Offered evidence → event.userId = attempt.userId →
      event.attemptId = attempt.attemptId → event.eventId ∉ evidence.map AuthEvidence.eventId →
        step ∈ (attempt.evaluate evidence).nextSteps → event.method = step.method →
          event.credentialId ∈ step.credentialIds → attempt.Offered (evidence ++ [event])

/-- The policy is satisfied, or a credential is offered and some further answers satisfy it. -/
def KeyAttempt.NoDeadEnd (attempt : KeyAttempt) (evidence : List AuthEvidence) : Prop :=
  (attempt.evaluate evidence).satisfied = true ∨
    (∃ step ∈ (attempt.evaluate evidence).nextSteps, step.credentialIds ≠ []) ∧
      ∃ further, attempt.Offered (evidence ++ further) ∧
        (attempt.evaluate (evidence ++ further)).satisfied = true

structure Extendable (credentials : List RegisteredCredential) (chain : AuthChain)
    (evidence used : List AuthEvidence) (keys : List String) : Prop where
  sublist : used.Sublist evidence
  matched : MatchedBy credentials (chain.steps.take used.length) used
  longest : ∀ other : List AuthEvidence, other.Sublist evidence →
    MatchedBy credentials (chain.steps.take other.length) other → other.length ≤ used.length
  remaining : Representatives (keyPools credentials (chain.steps.drop used.length)) keys
  unused : ∀ e ∈ used, ∀ key ∈ keys, keyIdentityOf credentials e ≠ some key

/-- Some chain can still be completed from a longest match. -/
def KeyAttempt.KeepsOpen (attempt : KeyAttempt) (evidence : List AuthEvidence) : Prop :=
  ∃ chain ∈ attempt.chains, ∃ used keys, Extendable attempt.credentials chain evidence used keys

/-! ### What is offered -/

section

variable {creds : List RegisteredCredential} {chain : AuthChain}
variable {states : List (ℕ × Finset String)} {evidence : List AuthEvidence}

def progressOf (states : List (ℕ × Finset String)) : ℕ :=
  states.foldl (fun most state => max most state.1) 0

theorem candidateStep_eq_some {progress : ℕ} {state : ℕ × Finset String} {cand : AuthStep} :
    candidateStep creds chain progress state = some cand ↔
      state.1 = progress ∧ ∃ step, chain.steps[state.1]? = some step ∧
        permittedIds creds step state.2 ≠ [] ∧
          cand = ⟨step.method, permittedIds creds step state.2⟩ := by
  unfold candidateStep
  split
  · rename_i hprog
    rw [Option.bind_eq_some_iff]
    constructor
    · rintro ⟨step, hstep, hcand⟩
      dsimp only at hcand
      split at hcand
      · cases hcand
      rename_i hne
      exact ⟨hprog, step, hstep, fun h => hne (isEmpty_iff.mpr h), (Option.some.inj hcand).symm⟩
    · rintro ⟨-, step, hstep, hne, rfl⟩
      refine ⟨step, hstep, ?_⟩
      rw [if_neg fun h => hne (isEmpty_iff.mp h)]
  · rename_i hprog
    exact iff_of_false nofun fun h => hprog h.1

variable {steps : List AuthStep} {step : AuthStep}

theorem mem_appendNew_iff {cand : Option AuthStep} :
    step ∈ appendNew steps cand ↔ step ∈ steps ∨ cand = some step := by
  refine ⟨?_, mem_appendNew⟩
  cases cand with
  | none => exact .inl
  | some new =>
    rw [appendNew]
    split
    · exact .inl
    intro h
    rcases mem_append.mp h with hold | hnew
    · exact .inl hold
    · exact .inr (congrArg some (mem_singleton.mp hnew).symm)

variable {nextSteps : List AuthStep}

theorem mem_addCandidates : step ∈ addCandidates creds chain states nextSteps ↔ step ∈ nextSteps ∨
      ∃ state ∈ states, candidateStep creds chain (progressOf states) state = some step := by
  have hfold : ∀ (l : List (ℕ × Finset String)) (cand : ℕ × Finset String → Option AuthStep)
      (nextSteps : List AuthStep),
      step ∈ l.foldl (fun steps state => appendNew steps (cand state)) nextSteps ↔
        step ∈ nextSteps ∨ ∃ state ∈ l, cand state = some step := by
    intro l cand
    induction l with
    | nil => simp
    | cons first rest ih =>
      intro nextSteps
      rw [foldl_cons, ih, mem_appendNew_iff]
      simp only [mem_cons, exists_eq_or_imp]
      exact or_assoc
  exact hfold states (candidateStep creds chain (progressOf states)) nextSteps

theorem exists_candidate {purpose : AuthPurpose} {chains : List AuthChain}
    (h : step ∈ (evaluateChains creds purpose evidence chains nextSteps).nextSteps) :
    step ∈ nextSteps ∨ ∃ chain ∈ chains, ∃ states,
      matchEvidence creds chain [(0, ∅)] evidence = some states ∧ ∃ state ∈ states,
          candidateStep creds chain (progressOf states) state = some step := by
  induction chains generalizing nextSteps with
  | nil => exact .inl h
  | cons first rest ih =>
    have hlater : ∀ nextSteps,
        step ∈ (evaluateChains creds purpose evidence rest nextSteps).nextSteps →
        step ∈ nextSteps ∨ ∃ chain ∈ first :: rest, ∃ states,
          matchEvidence creds chain [(0, ∅)] evidence = some states ∧
            ∃ state ∈ states,
              candidateStep creds chain (progressOf states) state = some step := by
      intro nextSteps h
      rcases ih h with hold | ⟨chain, hchain, hfound⟩
      · exact .inl hold
      · exact .inr ⟨chain, mem_cons_of_mem first hchain, hfound⟩
    rw [evaluateChains] at h
    split at h
    · split at h
      · cases h
      · rename_i states hstates
        rcases hlater _ h with hold | hfound
        · rcases mem_addCandidates.mp hold with hold | hstate
          · exact .inl hold
          · exact .inr ⟨first, mem_cons_self, states, hstates, hstate⟩
        · exact .inr hfound
    · exact hlater _ h

variable {used : List AuthEvidence} {usedKeys usedKeys' : Finset String}

theorem keys_of_consume (h : consume (takeEvent creds) steps used usedKeys = some usedKeys') :
    ∀ key ∈ usedKeys', key ∈ usedKeys ∨ ∃ e ∈ used, keyIdentityOf creds e = some key := by
  induction steps generalizing used usedKeys with
  | nil =>
    cases used with
    | nil =>
      intro key hkey
      rw [← Option.some.inj h] at hkey
      exact .inl hkey
    | cons e es => cases h
  | cons step steps ih =>
    cases used with
    | nil => cases h
    | cons e es =>
      obtain ⟨keys, htake, hrest⟩ := Option.bind_eq_some_iff.mp h
      intro key hkey
      rcases ih hrest key hkey with hold | ⟨f, hf, hident⟩
      · rcases (takeEvent_eq_some.mp htake).2 with ⟨-, identity, hident, -, rfl⟩ | ⟨-, rfl⟩
        · rcases Finset.mem_insert.mp hold with rfl | hold
          · exact .inr ⟨e, mem_cons_self, hident⟩
          · exact .inl hold
        · exact .inl hold
      · exact .inr ⟨f, mem_cons_of_mem e hf, hident⟩

theorem mem_keys_of_consume (h : consume (takeEvent creds) steps used usedKeys = some usedKeys') :
    (∀ key ∈ usedKeys, key ∈ usedKeys') ∧ ∀ e ∈ used, e.method = "publickey" →
      ∀ key, keyIdentityOf creds e = some key → key ∈ usedKeys' := by
  induction steps generalizing used usedKeys with
  | nil =>
    cases used with
    | nil =>
      rw [← Option.some.inj h]
      exact ⟨fun _ hkey => hkey, nofun⟩
    | cons e es => cases h
  | cons step steps ih =>
    cases used with
    | nil => cases h
    | cons e es =>
      obtain ⟨keys, htake, hrest⟩ := Option.bind_eq_some_iff.mp h
      obtain ⟨hkept, hlater⟩ := ih hrest
      rcases (takeEvent_eq_some.mp htake).2 with ⟨-, identity, hident, -, rfl⟩ | ⟨hother, rfl⟩
      · refine ⟨fun key hkey => hkept key (Finset.mem_insert_of_mem hkey), ?_⟩
        intro f hf hpub key hkey
        rcases mem_cons.mp hf with rfl | hf
        · rw [hident] at hkey
          rw [← Option.some.inj hkey]
          exact hkept identity (Finset.mem_insert_self _ _)
        · exact hlater f hf hpub key hkey
      · refine ⟨hkept, ?_⟩
        intro f hf hpub key hkey
        rcases mem_cons.mp hf with rfl | hf
        · exact absurd hpub hother
        · exact hlater f hf hpub key hkey

theorem exists_state_of_matchedBy (hused : used.Sublist evidence)
    (hmatch : MatchedBy creds (chain.steps.take used.length) used) :
    ∃ keys, (used.length, keys) ∈ followAll (takeEvent creds) chain.steps [(0, ∅)] evidence ∧
      ∀ key ∈ keys, ∃ e ∈ used, keyIdentityOf creds e = some key := by
  obtain ⟨⟨heach, hdist⟩, hidentified⟩ := hmatch
  have hfresh : ∀ e ∈ used, e.method = "publickey" →
      ∃ identity, keyIdentityOf creds e = some identity ∧ identity ∉ (∅ : Finset String) := by
    intro e he hkey
    obtain ⟨identity, hident⟩ := hidentified e he hkey
    exact ⟨identity, hident, Finset.notMem_empty identity⟩
  obtain ⟨keys, hcons⟩ := consume_of_completes heach hfresh hdist
  have hlen := heach.length_eq
  rw [length_take] at hlen
  refine ⟨keys, mem_followAll.mpr ⟨by omega, used, hused, hcons⟩, ?_⟩
  intro key hkey
  exact (keys_of_consume hcons key hkey).resolve_left (Finset.notMem_empty key)

theorem exists_matchedBy_of_state {pos : ℕ} {keys : Finset String}
    (h : (pos, keys) ∈ followAll (takeEvent creds) chain.steps [(0, ∅)] evidence) :
    ∃ used : List AuthEvidence, used.Sublist evidence ∧ used.length = pos ∧
      MatchedBy creds (chain.steps.take used.length) used ∧
        consume (takeEvent creds) (chain.steps.take pos) used ∅ = some keys := by
  obtain ⟨hle, used, hused, hcons⟩ := mem_followAll.mp h
  have hlen := consume_length hcons
  rw [length_take, Nat.min_eq_left hle] at hlen
  refine ⟨used, hused, hlen.symm, ?_, hcons⟩
  rw [← hlen]
  exact ⟨(consume_takeEvent hcons).1, identified_of_consume hcons⟩

theorem MatchedBy.take (h : MatchedBy creds steps used) (n : ℕ) :
    MatchedBy creds (steps.take n) (used.take n) where
  completed := ⟨forall₂_take n h.completed.each,
    h.completed.distinctKeys.sublist (take_sublist n used)⟩
  identified e he := h.identified e (mem_of_mem_take he)

theorem MatchedBy.drop (h : MatchedBy creds steps used) (n : ℕ) :
    MatchedBy creds (steps.drop n) (used.drop n) where
  completed := ⟨forall₂_drop n h.completed.each,
    h.completed.distinctKeys.sublist (drop_sublist n used)⟩
  identified e he := h.identified e (mem_of_mem_drop he)

theorem MatchedBy.length_le {n : ℕ}
    (h : MatchedBy creds (chain.steps.take n) used) : used.length ≤ chain.steps.length := by
  have hlen := h.completed.each.length_eq
  rw [length_take] at hlen
  omega

variable {event : AuthEvidence}

theorem MatchedBy.length_concat {longest : ℕ}
    (hlong : ∀ other : List AuthEvidence, other.Sublist evidence →
      MatchedBy creds (chain.steps.take other.length) other → other.length ≤ longest)
    {other : List AuthEvidence} (hother : other.Sublist (evidence ++ [event]))
    (h : MatchedBy creds (chain.steps.take other.length) other) :
    other.length ≤ longest + 1 := by
  rcases other.eq_nil_or_concat with rfl | ⟨front, last, rfl⟩
  · exact Nat.zero_le _
  rw [concat_eq_append] at hother h ⊢
  rcases sublist_concat_cases hother with hearlier | ⟨-, hfront⟩
  · exact Nat.le_succ_of_le (hlong _ hearlier h)
  have htake := h.take front.length
  rw [take_take, take_left, length_append, Nat.min_eq_left (Nat.le_add_right _ _)] at htake
  have hle := hlong front hfront htake
  rw [length_append, length_singleton]
  omega

theorem MatchedBy.concat {key : String} (h : MatchedBy creds (chain.steps.take used.length) used)
    (hstep : chain.steps[used.length]? = some step) (hcompletes : Completes step event)
    (hkey : keyIdentityOf creds event = some key)
    (hunus : ∀ e ∈ used, keyIdentityOf creds e ≠ some key) :
    MatchedBy creds (chain.steps.take (used ++ [event]).length) (used ++ [event]) := by
  rw [length_append, length_singleton, take_add_one, hstep]
  constructor
  · constructor
    · exact rel_append h.completed.each (.cons hcompletes .nil)
    · rw [pairwise_append]
      refine ⟨h.completed.distinctKeys, pairwise_singleton _ _, ?_⟩
      intro e he f hf _ _
      rw [mem_singleton.mp hf, hkey]
      exact hunus e he
  · intro e he hpub
    rcases mem_append.mp he with hold | hnew
    · exact h.identified e hold hpub
    · rw [mem_singleton.mp hnew]
      exact ⟨key, hkey⟩

end

/-! ### Runs -/

section

variable {attempt : KeyAttempt} {chain : AuthChain} {evidence used : List AuthEvidence}

theorem isSome_of_offered {step : AuthStep} {credId : String}
    (hstep : step ∈ (attempt.evaluate evidence).nextSteps)
    (hid : credId ∈ step.credentialIds) :
    (activeCredential attempt.credentials step.method credId).isSome = true := by
  rw [KeyAttempt.evaluate, evaluateAuthPolicy] at hstep
  split at hstep
  · cases hstep
  split at hstep
  · cases hstep
  rcases exists_candidate hstep with hnil | ⟨chain, -, states, -, state, -, hcand⟩
  · cases hnil
  obtain ⟨-, origin, -, -, rfl⟩ := candidateStep_eq_some.mp hcand
  obtain ⟨-, hperm⟩ := mem_filter.mp hid
  split at hperm
  · cases hperm
  rename_i cred hact
  show (activeCredential attempt.credentials origin.method credId).isSome = true
  rw [hact]
  rfl

theorem KeyAttempt.Offered.valid (h : attempt.Offered evidence) :
    evidenceIsValid attempt.credentials evidence attempt.userId attempt.attemptId = true := by
  induction h with
  | start => rfl
  | @answer evidence event step _ huser hatt hfresh hstep hmeth hid ih =>
    rw [evidenceIsValid, Bool.and_eq_true, decide_eq_true_eq, all_eq_true] at ih ⊢
    refine ⟨?_, ?_⟩
    · rw [map_append, nodup_append]
      refine ⟨ih.1, nodup_singleton _, ?_⟩
      intro id hidOld other hother heq
      rw [map_singleton, mem_singleton] at hother
      exact hfresh (hother ▸ heq ▸ hidOld)
    · intro e he
      rcases mem_append.mp he with hold | hnew
      · exact ih.2 e hold
      rw [mem_singleton.mp hnew, huser, hatt, hmeth, isSome_of_offered hstep hid,
        beq_self_eq_true, beq_self_eq_true]
      rfl

variable (h : attempt.IsCompletable)

include h

variable (hchain : chain ∈ attempt.chains)

include hchain

theorem KeyAttempt.IsCompletable.isConsidered :
    isConsidered attempt.credentials attempt.purpose chain = true := by
  have hpub := h.publicKey chain hchain
  obtain ⟨evidence, hvalid, hsat⟩ :=
    (canCompleteAuthChain_iff hpub attempt.purpose "" "").mp (h.completable chain hchain)
  rcases (evaluateAuthPolicy_iff hvalid).mp hsat with ⟨hnil, -⟩ | ⟨found, hmem, hacc⟩
  · cases hnil
  · obtain rfl := mem_singleton.mp hmem
    exact ((accepts_iff hvalid).mp hacc).1

theorem satisfied_of_matchedBy
    (hoff : attempt.Offered evidence) (hused : used.Sublist evidence)
    (hmatch : MatchedBy attempt.credentials chain.steps used) :
    (attempt.evaluate evidence).satisfied = true := by
  have hconsidered := h.isConsidered hchain
  have hcompl := matchEvidence_eq_none_iff.mpr ⟨used, hused, hmatch⟩
  exact (evaluateAuthPolicy_iff hoff.valid).mpr
    (.inr ⟨chain, hchain, (accepts_iff hoff.valid).mpr ⟨hconsidered, hcompl⟩⟩)

theorem extends_start :
    ∃ keys, Extendable attempt.credentials chain [] [] keys := by
  have hpub := h.publicKey chain hchain
  have hhead : chain.head.method = "publickey" := hpub _ (head_mem chain.nonempty)
  obtain ⟨keys, hkeys⟩ := (canCompleteAuthChain_eq_true hhead).mp (h.completable chain hchain)
  refine ⟨keys, List.Sublist.refl [], ⟨⟨.nil, .nil⟩, nofun⟩, ?_, hkeys, nofun⟩
  intro other hother _
  exact hother.length_le

variable {keys : List String}

/-- **One answer.**  Where a match can be extended, the next key is offered, and it is a match that
can be extended. -/
theorem Extendable.answer
    (hoff : attempt.Offered evidence) {key : String}
    (hext : Extendable attempt.credentials chain evidence used (key :: keys)) :
    (attempt.evaluate evidence).satisfied = true ∨ ∃ event, attempt.Offered (evidence ++ [event]) ∧
      Extendable attempt.credentials chain (evidence ++ [event]) (used ++ [event]) keys ∧
        ∃ step ∈ (attempt.evaluate evidence).nextSteps, step.credentialIds ≠ [] := by
  obtain ⟨hused, hmatch, hlong, ⟨hfits, hnodup⟩, hunus⟩ := hext
  obtain ⟨step, rest, hdrop⟩ : ∃ step rest, chain.steps.drop used.length = step :: rest := by
    cases hdrop : chain.steps.drop used.length with
    | nil =>
      rw [hdrop] at hfits
      cases hfits
    | cons step rest => exact ⟨step, rest, rfl⟩
  have hstep : chain.steps[used.length]? = some step := by
    rw [← head?_drop, hdrop]
    rfl
  have hrest : chain.steps.drop (used.length + 1) = rest := by
    rw [← tail_drop, hdrop]
    rfl
  rw [hdrop] at hfits
  cases hfits with
  | cons hkey hkeys =>
  obtain ⟨cred, hcred, hident⟩ := mem_filterMap.mp hkey
  obtain ⟨id, hid, hact⟩ := mem_filterMap.mp hcred
  obtain ⟨usedKeys, hstate, husedKeys⟩ := exists_state_of_matchedBy hused hmatch
  have hnew : key ∉ usedKeys := by
    intro hmem
    obtain ⟨e, he, hsame⟩ := husedKeys key hmem
    exact hunus e he key mem_cons_self hsame
  have hperm : id ∈ permittedIds attempt.credentials step usedKeys := by
    refine mem_filter.mpr ⟨hid, ?_⟩
    rw [hact]
    simp [hident, hnew]
  have hoffers : ∀ states nextSteps,
      matchEvidence attempt.credentials chain [(0, ∅)] evidence = some states →
        ∃ offered ∈ addCandidates attempt.credentials chain states nextSteps,
          offered.method = step.method ∧ id ∈ offered.credentialIds := by
    intro states nextSteps hstates
    rw [matchEvidence_eq_some hstates]
    refine ⟨⟨step.method, permittedIds attempt.credentials step usedKeys⟩, ?_, rfl, hperm⟩
    refine mem_addCandidates.mpr (.inr ⟨_, hstate, candidateStep_eq_some.mpr
      ⟨?_, step, hstep, ne_nil_of_mem hperm, rfl⟩⟩)
    refine (foldl_max_eq ?_ (Nat.zero_le _) (.inr ⟨_, hstate, rfl⟩)).symm
    rintro ⟨pos, memory⟩ hmem
    obtain ⟨other, hother, rfl, hotherMatched, -⟩ := exists_matchedBy_of_state hmem
    exact hlong other hother hotherMatched
  have heval : attempt.evaluate evidence =
      evaluateChains attempt.credentials attempt.purpose evidence attempt.chains [] := by
    rw [KeyAttempt.evaluate, evaluateAuthPolicy, hoff.valid, if_neg (by simp), if_neg]
    simpa using h.nonempty
  rcases evaluateChains_offers hchain (h.isConsidered hchain) hoffers [] with hdone | hfound
  · exact .inl (heval ▸ hdone)
  obtain ⟨offered, hmem, hmeth, hidOffered⟩ := hfound
  rw [← heval] at hmem
  obtain ⟨eventId, hfresh⟩ :=
    Infinite.exists_notMem_finset (evidence.map AuthEvidence.eventId).toFinset
  rw [mem_toFinset] at hfresh
  let event : AuthEvidence := ⟨attempt.userId, attempt.attemptId, eventId, step.method, id⟩
  have heventKey : keyIdentityOf attempt.credentials event = some key := by
    show (activeCredential attempt.credentials step.method id).bind _ = some key
    rw [hact, Option.bind_some, hident]
  refine .inr ⟨event, .answer hoff rfl rfl hfresh hmem hmeth.symm hidOffered, ?_, offered,
    hmem, ne_nil_of_mem hidOffered⟩
  have hlater := nodup_cons.mp hnodup
  constructor
  · exact hused.append (List.Sublist.refl [event])
  · exact hmatch.concat hstep ⟨rfl, hid⟩ heventKey fun e he => hunus e he key mem_cons_self
  · intro other hother hotherMatched
    rw [length_append]
    exact MatchedBy.length_concat hlong hother hotherMatched
  · rw [length_append, length_singleton, hrest]
    exact ⟨hkeys, hlater.2⟩
  · intro e he k hk
    rcases mem_append.mp he with hold | hnewEvent
    · exact hunus e hold k (mem_cons_of_mem key hk)
    rw [mem_singleton.mp hnewEvent, heventKey]
    intro hsame
    exact hlater.1 (Option.some.inj hsame ▸ hk)

/-- **A match that can be extended is completed by further answers.** -/
theorem Extendable.finish
    (hoff : attempt.Offered evidence)
    (hext : Extendable attempt.credentials chain evidence used keys) :
    ∃ further, attempt.Offered (evidence ++ further) ∧
      (attempt.evaluate (evidence ++ further)).satisfied = true := by
  induction keys generalizing evidence used with
  | nil =>
    have hdrop : chain.steps.drop used.length = [] := by
      have hlen := hext.remaining.1.length_eq
      rw [keyPools, stepPools, length_map, length_map] at hlen
      exact length_eq_zero_iff.mp hlen
    have hmatch := hext.matched
    rw [take_of_length_le (drop_eq_nil_iff.mp hdrop)] at hmatch
    refine ⟨[], ?_, ?_⟩
    · rw [append_nil]
      exact hoff
    · rw [append_nil]
      exact satisfied_of_matchedBy h hchain hoff hext.sublist hmatch
  | cons key keys ih =>
    rcases hext.answer h hchain hoff with hdone | ⟨event, hanswered, hnext, -⟩
    · refine ⟨[], ?_, ?_⟩
      · rw [append_nil]
        exact hoff
      · rw [append_nil]
        exact hdone
    · obtain ⟨further, hfurth, hsat⟩ := ih hanswered hnext
      rw [append_assoc] at hfurth hsat
      exact ⟨event :: further, hfurth, hsat⟩

omit hchain

theorem noDeadEnd_of_keepsOpen (hoff : attempt.Offered evidence)
    (hopen : attempt.KeepsOpen evidence) : attempt.NoDeadEnd evidence := by
  obtain ⟨chain, hchain, used, keys, hext⟩ := hopen
  obtain ⟨further, hfurth, hsat⟩ := hext.finish h hchain hoff
  by_cases hdone : (attempt.evaluate evidence).satisfied = true
  · exact .inl hdone
  refine .inr ⟨?_, further, hfurth, hsat⟩
  cases keys with
  | nil =>
    have hdrop : chain.steps.length ≤ used.length := by
      have hlen := hext.remaining.1.length_eq
      rw [keyPools, stepPools, length_map, length_map, length_drop, length_nil] at hlen
      omega
    have hmatch := hext.matched
    rw [take_of_length_le hdrop] at hmatch
    exact absurd (satisfied_of_matchedBy h hchain hoff hext.sublist hmatch) hdone
  | cons key keys =>
    rcases hext.answer h hchain hoff with hsat | ⟨-, -, -, hoffers⟩
    · exact absurd hsat hdone
    · exact hoffers

end

/-! ### A single chain -/

section

variable {attempt : KeyAttempt} {chain : AuthChain} {evidence : List AuthEvidence}

theorem KeyAttempt.Offered.matched (h : attempt.IsCompletable) (hsing : attempt.chains = [chain])
    (hidents : ∀ c ∈ attempt.credentials, c.method = "publickey" →
      ∃ identity, c.keyIdentity = some identity)
    (hoff : attempt.Offered evidence) :
    MatchedBy attempt.credentials (chain.steps.take evidence.length) evidence := by
  have hmem : chain ∈ attempt.chains := by
    rw [hsing]
    exact mem_singleton_self chain
  induction hoff with
  | start => exact ⟨⟨.nil, .nil⟩, nofun⟩
  | @answer evidence event offered hbef huser hatt hfresh hoffers hmeth hid ih =>
    have hact := isSome_of_offered hoffers hid
    rw [KeyAttempt.evaluate, evaluateAuthPolicy] at hoffers
    split at hoffers
    · cases hoffers
    split at hoffers
    · cases hoffers
    rcases exists_candidate hoffers with
      hnil | ⟨found, hfound, states, hstates, state, hstate, hcand⟩
    · cases hnil
    rw [hsing, mem_singleton] at hfound
    subst hfound
    obtain ⟨hprog, step, hstep, -, rfl⟩ := candidateStep_eq_some.mp hcand
    obtain ⟨pos, keys⟩ := state
    rw [matchEvidence_eq_some hstates] at hstate hprog
    obtain ⟨used, hused, hpos, hmatch, hcons⟩ := exists_matchedBy_of_state hstate
    -- the whole evidence is a match, so that no state is further
    obtain ⟨wholeKeys, hwhole, -⟩ := exists_state_of_matchedBy (List.Sublist.refl evidence) ih
    have hfurthest :
        progressOf (followAll (takeEvent attempt.credentials) found.steps [(0, ∅)] evidence) =
          evidence.length := by
      refine foldl_max_eq ?_ (Nat.zero_le _) (.inr ⟨_, hwhole, rfl⟩)
      rintro ⟨other, memory⟩ hother
      obtain ⟨earlier, hsub, rfl, -⟩ := exists_matchedBy_of_state hother
      exact hsub.length_le
    rw [hfurthest] at hprog
    obtain rfl := hused.eq_of_length (hpos.trans hprog)
    subst hprog
    have hpub : step.method = "publickey" :=
      h.publicKey found hmem step (mem_of_getElem? hstep)
    obtain ⟨cred, hcred⟩ := Option.isSome_iff_exists.mp hact
    have hregistered := mem_of_find?_eq_some hcred
    have hcmeth := find?_some hcred
    simp only [Bool.and_eq_true, beq_iff_eq] at hcmeth
    obtain ⟨identity, hident⟩ := hidents cred (mem_reverse.mp hregistered) (hcmeth.1.2.trans hpub)
    obtain ⟨hperm, hunus⟩ := mem_filter.mp hid
    rw [hcred] at hunus
    simp only [hpub, bne_self_eq_false, Bool.false_or, hident, Option.all_some,
      decide_eq_true_eq] at hunus
    have hkey : keyIdentityOf attempt.credentials event = some identity := by
      rw [keyIdentityOf, hmeth, hcred, Option.bind_some, hident]
    refine hmatch.concat hstep ⟨hmeth, hperm⟩ hkey ?_
    intro e he hsame
    have hemethod : e.method = "publickey" :=
      method_of_completes hmatch.completed.each
        (fun other hother => h.publicKey found hmem other (mem_of_mem_take hother)) e he
    exact hunus ((mem_keys_of_consume hcons).2 e he hemethod identity hsame)

theorem keepsOpen_of_satisfied (h : attempt.IsCompletable) (hsing : attempt.chains = [chain])
    (hidents : ∀ c ∈ attempt.credentials, c.method = "publickey" →
      ∃ identity, c.keyIdentity = some identity)
    {further : List AuthEvidence} (hoff : attempt.Offered evidence)
    (hfurth : attempt.Offered (evidence ++ further))
    (hsat : (attempt.evaluate (evidence ++ further)).satisfied = true) :
    attempt.KeepsOpen evidence := by
  have hmem : chain ∈ attempt.chains := by
    rw [hsing]
    exact mem_singleton_self chain
  have hpub := h.publicKey chain hmem
  rcases (evaluateAuthPolicy_iff hfurth.valid).mp hsat with
    ⟨hnil, -⟩ | ⟨found, hfound, hacc⟩
  · exact absurd hnil h.nonempty
  rw [hsing, mem_singleton] at hfound
  subst hfound
  obtain ⟨-, -, used, hused, hmatch⟩ := hacc
  have hall := hfurth.matched h hsing hidents
  obtain rfl : used = evidence ++ further := by
    refine hused.eq_of_length (Nat.le_antisymm hused.length_le ?_)
    rw [← hmatch.completed.each.length_eq]
    exact hall.length_le
  obtain ⟨keys, hkeys, hident⟩ := representatives_of_matchedBy
    (fun step hstep => hpub step (mem_of_mem_drop hstep)) (hmatch.drop evidence.length)
  rw [drop_left] at hident
  refine ⟨found, hmem, evidence, keys, List.Sublist.refl evidence,
    hoff.matched h hsing hidents, fun other hother _ => hother.length_le, hkeys, ?_⟩
  intro e he key hkey hsame
  obtain ⟨f, hf, hfkey⟩ : ∃ f ∈ further, keyIdentityOf attempt.credentials f = some key := by
    have hmapped : some key ∈ further.map (keyIdentityOf attempt.credentials) := by
      rw [hident]
      exact mem_map_of_mem hkey
    exact mem_map.mp hmapped
  have hmeths : ∀ e ∈ evidence ++ further, e.method = "publickey" :=
    method_of_completes hmatch.completed.each hpub
  have hdist := (pairwise_append.mp hmatch.completed.distinctKeys).2.2 e he f hf
  exact hdist (hmeths e (mem_append_left further he))
    (hmeths f (mem_append_right evidence hf)) (hsame.trans hfkey.symm)

end

/-! ### The dialogue -/

/-- **A dialogue that keeps the policy open has no dead end.**  With one chain, a dialogue that has
no dead end keeps the policy open. -/
theorem keyDialogue_without_dead_end (attempt : KeyAttempt) (h : attempt.IsCompletable) :
    (∀ evidence, attempt.Offered evidence → (evidence ≠ [] → attempt.KeepsOpen evidence) →
      attempt.NoDeadEnd evidence) ∧
      ∀ chain, attempt.chains = [chain] → (∀ c ∈ attempt.credentials, c.method = "publickey" →
          ∃ identity, c.keyIdentity = some identity) →
          ∀ evidence, attempt.Offered evidence → attempt.NoDeadEnd evidence →
            attempt.KeepsOpen evidence := by
  constructor
  · intro evidence hoff hopen
    refine noDeadEnd_of_keepsOpen h hoff ?_
    by_cases hstart : evidence = []
    · subst hstart
      obtain ⟨chain, hchain⟩ := exists_mem_of_ne_nil _ h.nonempty
      obtain ⟨keys, hext⟩ := extends_start h hchain
      exact ⟨chain, hchain, [], keys, hext⟩
    · exact hopen hstart
  · intro chain hsing hidents evidence hoff hend
    rcases hend with hsat | ⟨-, further, hfurth, hsat⟩
    · have hsame : attempt.Offered (evidence ++ []) := by
        rw [append_nil]
        exact hoff
      refine keepsOpen_of_satisfied h hsing hidents hoff hsame ?_
      rw [append_nil]
      exact hsat
    · exact keepsOpen_of_satisfied h hsing hidents hoff hfurth hsat

/-- A chain whose first step admits the only key of its second. -/
def eitherThenFirst : KeyAttempt where
  credentials := twoKeys
  purpose := .login
  chains := [⟨[⟨"publickey", ["key-A", "key-B"]⟩, ⟨"publickey", ["key-A"]⟩], by decide⟩]
  userId := "user"
  attemptId := "attempt"

theorem eitherThenFirst_completable : eitherThenFirst.IsCompletable :=
  ⟨by decide, by decide, by decide +kernel⟩

theorem eitherThenFirst_offers {credId : String} (h : credId ∈ ["key-A", "key-B"]) :
    eitherThenFirst.Offered [⟨"user", "attempt", "1", "publickey", credId⟩] := by
  have hsteps : ⟨"publickey", ["key-A", "key-B"]⟩ ∈ (eitherThenFirst.evaluate []).nextSteps := by
    decide +kernel
  exact .answer .start rfl rfl not_mem_nil hsteps rfl h

theorem eitherThenFirst_keepsOpen :
    eitherThenFirst.KeepsOpen [⟨"user", "attempt", "1", "publickey", "key-B"⟩] := by
  refine ⟨_, mem_singleton_self _, [⟨"user", "attempt", "1", "publickey", "key-B"⟩], ["aa"],
    List.Sublist.refl _, ⟨⟨.cons ⟨rfl, by decide⟩ .nil, pairwise_singleton _ _⟩, ?_⟩,
    fun other hother _ => hother.length_le, ⟨.cons (by decide +kernel) .nil, by decide⟩,
    by decide +kernel⟩
  intro e he _
  rw [mem_singleton.mp he]
  exact ⟨"bb", by decide +kernel⟩

theorem keyDialogue_without_dead_end_other_key :
    eitherThenFirst.NoDeadEnd [⟨"user", "attempt", "1", "publickey", "key-B"⟩] :=
  (keyDialogue_without_dead_end eitherThenFirst eitherThenFirst_completable).1 _
    (eitherThenFirst_offers (by decide)) fun _ => eitherThenFirst_keepsOpen

/-- The answer with the only key of the second step is offered, and nothing is offered after it. -/
theorem keyDialogue_dead_end :
    ¬ ∀ attempt : KeyAttempt, attempt.IsCompletable → ∀ evidence, attempt.Offered evidence →
      attempt.NoDeadEnd evidence := by
  intro hall
  have hend := hall eitherThenFirst eitherThenFirst_completable
    [⟨"user", "attempt", "1", "publickey", "key-A"⟩] (eitherThenFirst_offers (by decide))
  rcases hend with hsat | ⟨⟨step, hstep, -⟩, -⟩
  · revert hsat
    decide +kernel
  · have hnone : (eitherThenFirst.evaluate
        [⟨"user", "attempt", "1", "publickey", "key-A"⟩]).nextSteps = [] := by decide +kernel
    cases hstep

end Cfms.Identity
