import Cfms.Lib.Run
import Cfms.Identity.Dialogue

/-!
# Management never locks an account out

`ensure_authentication_available` decides availability by an assignment of keys to steps, and only
some of the operations run it.  Here availability has a meaning of its own, a chain with a plan for
each stage: the check implies it, the operations that skip the check keep it, and a client that
follows the plans gets through the dialogue of every stage.
-/

namespace Cfms.Identity

open List

open Access (Instant)
open Lib.AugmentingPath
open Lib.Run

/-! ### Availability -/

structure Available (account : Account) : Prop where
  login : ∃ chain, Usable account .login chain ∧
    (account.chains .mfa = [] ∨
      ∃ mfaChain, Usable account .mfa mfaChain ∧ mfaChain.head.method ≠ chain.head.method)
  escalation : account.chains .escalation = [] ∨ ∃ chain, Usable account .escalation chain

section

variable {account : Account} {chain : AuthChain} {purpose : AuthPurpose}

variable {method : String} {steps : List AuthStep}

theorem exists_ids {creds : List RegisteredCredential}
    (h : ∀ step ∈ steps, ∃ id ∈ step.credentialIds,
      (activeCredential creds method id).isSome = true) :
    ∃ ids, List.Forall₂ (fun (step : AuthStep) id => id ∈ step.credentialIds) steps ids ∧
      ∀ id ∈ ids, (activeCredential creds method id).isSome = true := by
  induction steps with
  | nil => exact ⟨[], .nil, nofun⟩
  | cons step rest ih =>
    obtain ⟨id, hid, hact⟩ := h step mem_cons_self
    obtain ⟨ids, hids, hactives⟩ := ih fun other hother => h other (mem_cons_of_mem step hother)
    refine ⟨id :: ids, .cons hid hids, ?_⟩
    intro other hother
    rcases mem_cons.mp hother with rfl | hlater
    · exact hact
    · exact hactives other hlater

theorem exists_ids_of_keys {keys : List String} (hsing : ∀ step ∈ steps, step.method = "publickey")
    (h : List.Forall₂ (fun pool key => key ∈ pool) (keyPools account.listUserCredentials steps)
      keys) :
    ∃ ids, List.Forall₂ (fun (step : AuthStep) id => id ∈ step.credentialIds) steps ids ∧
      (∀ id ∈ ids, (activeCredential account.listUserCredentials "publickey" id).isSome = true) ∧
      ids.map account.keyIdentity = keys.map some := by
  induction steps generalizing keys with
  | nil =>
    cases h
    exact ⟨[], .nil, nofun, rfl⟩
  | cons step rest ih =>
    cases h with
    | @cons _ key _ keys hkey hkeys =>
      obtain ⟨cred, hcred, hident⟩ := mem_filterMap.mp hkey
      obtain ⟨id, hid, hact⟩ := mem_filterMap.mp hcred
      rw [hsing step mem_cons_self] at hact
      obtain ⟨ids, hids, hactives, hmap⟩ :=
        ih (fun other hother => hsing other (mem_cons_of_mem step hother)) hkeys
      refine ⟨id :: ids, .cons hid hids, ?_, ?_⟩
      · intro other hother
        rcases mem_cons.mp hother with rfl | hlater
        · rw [hact]
          rfl
        · exact hactives other hlater
      · rw [map_cons, map_cons, hmap, Account.keyIdentity, hact, Option.bind_some, hident]

/-- **The matching gives a plan.** -/
theorem plan_of_canCompleteAuthChain (hsing : ∀ step ∈ chain.steps, step.method = chain.head.method)
    (h : canCompleteAuthChain account.listUserCredentials chain = true) :
    ∃ ids, Plan account chain ids := by
  unfold canCompleteAuthChain at h
  split at h
  · cases h
  rename_i hpools
  by_cases hkey : chain.head.method = "publickey"
  · rw [if_neg (by simp [hkey])] at h
    obtain ⟨keys, hfits, hnodup⟩ := representatives_of_assignAll h
    rw [hkey] at hsing
    obtain ⟨ids, hids, hact, hmap⟩ := exists_ids_of_keys hsing hfits
    refine ⟨ids, hids, ?_, ?_, ?_⟩
    · rw [hkey]
      exact hact
    · intro _ id hid
      have hmem : account.keyIdentity id ∈ keys.map some := by
        rw [← hmap]
        exact mem_map_of_mem hid
      obtain ⟨key, -, hsome⟩ := mem_map.mp hmem
      rw [← hsome]
      rfl
    · intro _
      rw [hmap]
      exact hnodup.map (Option.some_injective _)
  · have hsteps : ∀ step ∈ chain.steps, ∃ id ∈ step.credentialIds,
        (activeCredential account.listUserCredentials chain.head.method id).isSome = true := by
      intro step hstep
      have hpool : step.credentialIds.filterMap
          (activeCredential account.listUserCredentials step.method) ≠ [] := by
        intro hempty
        apply hpools
        rw [any_eq_true]
        refine ⟨_, mem_map_of_mem hstep, ?_⟩
        rw [hempty]
        rfl
      obtain ⟨cred, hcred⟩ := exists_mem_of_ne_nil _ hpool
      obtain ⟨id, hid, hact⟩ := mem_filterMap.mp hcred
      rw [hsing step hstep] at hact
      refine ⟨id, hid, ?_⟩
      rw [hact]
      rfl
    obtain ⟨ids, hids, hact⟩ := exists_ids hsteps
    exact ⟨ids, hids, hact, fun heq => absurd heq hkey, fun heq => absurd heq hkey⟩

/-- The methods of the registry are those of public keys and two that take one proof in a request,
for which the matching asks for a chain of one step. -/
theorem brief_of_canCompleteAuthChain
    (hsupp : ∃ provider, getProvider chain.head.method = some provider ∧
      purpose ∈ provider.supportedPurposes)
    (h : canCompleteAuthChain account.listUserCredentials chain = true)
    (hkey : chain.head.method ≠ "publickey") : chain.steps.length = 1 := by
  obtain ⟨provider, hprov, -⟩ := hsupp
  have hmem := mem_of_find?_eq_some hprov
  have hmeth : provider.methodId = chain.head.method := by simpa using find?_some hprov
  have hproof : ["password", "totp", "oidc"].contains chain.head.method = true := by
    simp only [authRegistry, mem_cons, not_mem_nil, or_false] at hmem
    rcases hmem with rfl | rfl | rfl
    · rw [← hmeth]
      rfl
    · exact absurd hmeth.symm hkey
    · rw [← hmeth]
      rfl
  unfold canCompleteAuthChain at h
  split at h
  · cases h
  · rw [if_pos (by simpa using hkey), hproof] at h
    simpa using h

theorem usable_of_availableMethods (h : method ∈ account.availableMethods purpose) :
    ∃ chain, Usable account purpose chain ∧ chain.head.method = method := by
  obtain ⟨chain, hchain, rfl⟩ := mem_map.mp h
  obtain ⟨hmember, havail⟩ := mem_filter.mp hchain
  simp only [isAvailable, AuthChain.isSingleMethod, Bool.and_eq_true, all_eq_true,
    beq_iff_eq, Option.any_eq_true, contains_iff_mem, Bool.not_eq_true',
    Bool.and_eq_false_imp] at havail
  obtain ⟨⟨⟨hsing, hsupp⟩, hallow⟩, hcompl⟩ := havail
  refine ⟨chain, ⟨hmember, hsing, hsupp, ?_, brief_of_canCompleteAuthChain hsupp hcompl,
    plan_of_canCompleteAuthChain hsing hcompl⟩, rfl⟩
  intro hlogin hdisallowed
  have hno := hallow hlogin
  rw [Bool.eq_false_iff] at hno
  exact hno (contains_iff_mem.mpr hdisallowed)

/-- **What the check ensures.** -/
theorem available_of_ensure (h : ensureAuthenticationAvailable account = .ok ()) :
    Available account := by
  unfold ensureAuthenticationAvailable at h
  split at h
  · cases h
  rename_i hlogin
  split at h
  · cases h
  rename_i hesc
  constructor
  · simp only [Bool.not_eq_true', Bool.not_eq_false, List.any_eq_true, Bool.or_eq_true,
      List.isEmpty_iff, bne_iff_ne] at hlogin
    obtain ⟨method, hmeth, hmfa⟩ := hlogin
    obtain ⟨chain, husable, rfl⟩ := usable_of_availableMethods hmeth
    refine ⟨chain, husable, ?_⟩
    rcases hmfa with hempty | ⟨mfaMethod, hmfaMethod, hother⟩
    · exact Or.inl hempty
    · obtain ⟨mfaChain, hmfaUsable, rfl⟩ := usable_of_availableMethods hmfaMethod
      exact Or.inr ⟨mfaChain, hmfaUsable, hother⟩
  · by_cases hempty : account.chains .escalation = []
    · exact Or.inl hempty
    · have hsome : account.availableMethods .escalation ≠ [] := by
        simpa [hempty] using hesc
      obtain ⟨method, hmeth⟩ := List.exists_mem_of_ne_nil _ hsome
      obtain ⟨chain, husable, -⟩ := usable_of_availableMethods hmeth
      exact Or.inr ⟨chain, husable⟩

end

/-! ### Operations -/

/-- The status and the policies are the same, and no active credential is lost. -/
structure Extends (account account' : Account) : Prop where
  status : account'.status = account.status
  chains : ∀ purpose, account'.chains purpose = account.chains purpose
  active : ∀ method id credential,
    activeCredential (account.providerCredentials method) method id = some credential →
    activeCredential (account'.providerCredentials method) method id = some credential

section

variable {config : AuthConfig} {account account' : Account} {id : String} {method : String}

variable (h : Extends account account')

include h

theorem Extends.activeCredential {cred : RegisteredCredential}
    (hact : activeCredential account.listUserCredentials method id = some cred) :
    Identity.activeCredential account'.listUserCredentials method id = some cred := by
  rw [activeCredential_listUserCredentials] at hact ⊢
  exact h.active method id cred hact

theorem Extends.isSome
    (hact : (Identity.activeCredential account.listUserCredentials method id).isSome = true) :
    (Identity.activeCredential account'.listUserCredentials method id).isSome = true := by
  obtain ⟨cred, hcred⟩ := Option.isSome_iff_exists.mp hact
  rw [h.activeCredential hcred]
  rfl

theorem Extends.keyIdentity
    (hact : (Identity.activeCredential account.listUserCredentials "publickey" id).isSome =
      true) : account'.keyIdentity id = account.keyIdentity id := by
  obtain ⟨cred, hcred⟩ := Option.isSome_iff_exists.mp hact
  rw [Account.keyIdentity, Account.keyIdentity, hcred, h.activeCredential hcred]

variable {chain : AuthChain}

theorem Extends.plan {ids : List String}
    (hplan : Plan account chain ids) : Plan account' chain ids where
  admitted := hplan.admitted
  active id hid := h.isSome (hplan.active id hid)
  keyed := by
    intro hkey id hid
    have hact := hplan.active id hid
    rw [hkey] at hact
    rw [h.keyIdentity hact]
    exact hplan.keyed hkey id hid
  distinct := by
    intro hkey
    have hsame : ids.map account'.keyIdentity = ids.map account.keyIdentity := by
      refine map_congr_left ?_
      intro id hid
      have hact := hplan.active id hid
      rw [hkey] at hact
      exact h.keyIdentity hact
    rw [hsame]
    exact hplan.distinct hkey

theorem Extends.usable {purpose : AuthPurpose}
    (husable : Usable account purpose chain) : Usable account' purpose chain where
  member := by
    rw [h.chains]
    exact husable.member
  single := husable.single
  supported := husable.supported
  allowed := husable.allowed
  brief := husable.brief
  planned := husable.planned.imp fun _ => h.plan

/-- **Availability survives whatever keeps the policies and the active credentials.** -/
theorem Extends.available (havail : Available account) :
    Available account' where
  login := by
    obtain ⟨chain, husable, hmfa⟩ := havail.login
    refine ⟨chain, h.usable husable, ?_⟩
    rw [h.chains]
    exact hmfa.imp_right fun ⟨mfaChain, hmfaUsable, hother⟩ =>
      ⟨mfaChain, h.usable hmfaUsable, hother⟩
  escalation := by
    rw [h.chains]
    exact havail.escalation.imp_right fun ⟨chain, husable⟩ => ⟨chain, h.usable husable⟩

omit h

theorem providerCredentials_cases (method : String) :
    method = "password" ∨ method = "publickey" ∨ method = "totp" ∨
      ∀ account : Account, account.providerCredentials method = [] := by
  by_cases hpass : method = "password"
  · exact Or.inl hpass
  by_cases hpub : method = "publickey"
  · exact Or.inr (Or.inl hpub)
  by_cases htotp : method = "totp"
  · exact Or.inr (Or.inr (Or.inl htotp))
  refine Or.inr (Or.inr (Or.inr ?_))
  intro account
  have hnone : getProvider method = none := by
    simp [getProvider, authRegistry, passwordAuthProvider, publicKeyAuthProvider,
      totpAuthProvider, Ne.symm hpass, Ne.symm hpub, Ne.symm htotp]
  rw [Account.providerCredentials, hnone]
  rfl

theorem extends_of_providers (hst : account'.status = account.status)
    (hchains : ∀ purpose, account'.chains purpose = account.chains purpose)
    (hpass : ∀ id cred,
      activeCredential (account.providerCredentials "password") "password" id = some cred →
      activeCredential (account'.providerCredentials "password") "password" id = some cred)
    (hpub : ∀ id cred,
      activeCredential (account.providerCredentials "publickey") "publickey" id = some cred →
      activeCredential (account'.providerCredentials "publickey") "publickey" id = some cred)
    (htotp : ∀ id cred,
      activeCredential (account.providerCredentials "totp") "totp" id = some cred →
      activeCredential (account'.providerCredentials "totp") "totp" id = some cred) :
    Extends account account' where
  status := hst
  chains := hchains
  active := by
    intro method id cred hact
    rcases providerCredentials_cases method with rfl | rfl | rfl | hnone
    · exact hpass id cred hact
    · exact hpub id cred hact
    · exact htotp id cred hact
    · rw [hnone] at hact ⊢
      exact hact

theorem registerPublicKey_extends {key : UserAuthPublicKey}
    (h : registerPublicKey account key = .ok account') : Extends account account' := by
  unfold registerPublicKey at h
  split at h
  · cases h
  rename_i hnew
  cases h
  refine extends_of_providers rfl (fun _ => rfl) (fun _ _ h => h) ?_ (fun _ _ h => h)
  intro id cred hact
  have hlist : Account.providerCredentials
      { account with publicKeys := account.publicKeys ++ [key] } "publickey" =
      account.providerCredentials "publickey" ++
        [⟨"publickey", key.id, true, some key.fingerprint⟩] := by
    show (account.publicKeys ++ [key]).map _ = account.publicKeys.map _ ++ _
    rw [map_append]
    rfl
  have hmem := mem_reverse.mp (mem_of_find?_eq_some hact)
  obtain ⟨old, hold, heq⟩ := mem_map.mp (show cred ∈ account.publicKeys.map _ from hmem)
  have hfits := find?_some hact
  simp only [Bool.and_eq_true, beq_iff_eq] at hfits
  have hother : key.id ≠ id := by
    intro hsame
    apply hnew
    rw [any_eq_true]
    refine ⟨old, hold, ?_⟩
    have hid : old.id = id := by
      rw [← hfits.2, ← heq]
    simp [hid, hsame]
  rw [hlist, activeCredential, reverse_append, reverse_singleton,
    singleton_append, find?_cons_of_neg (by simp [hother])]
  exact hact

theorem activeCredential_totp_disabled (h : ∀ cred, account.totp = some cred → cred.enabled = false)
    (id : String) : activeCredential (account.providerCredentials "totp") "totp" id = none := by
  have hlist : account.providerCredentials "totp" =
      (account.totp.map fun c => (⟨"totp", c.credentialId, c.enabled, none⟩ :
        RegisteredCredential)).toList := rfl
  rw [hlist]
  cases htotp : account.totp with
  | none => rfl
  | some cred => simp [activeCredential, h cred htotp]

theorem extends_of_totp {totp : Option UserTotpCredential}
    (h : ∀ cred, account.totp = some cred → cred.enabled = false) :
    Extends account { account with totp := totp } := by
  refine extends_of_providers rfl (fun _ => rfl) (fun _ _ h => h) (fun _ _ h => h) ?_
  intro id cred hact
  rw [activeCredential_totp_disabled h] at hact
  cases hact

theorem setupTotp_extends {credId secret : String}
    (h : setupTotp account credId secret = .ok account') : Extends account account' := by
  unfold setupTotp at h
  split at h
  · rename_i hnone
    cases h
    exact extends_of_totp (by simp [hnone])
  · rename_i cred hsome
    split at h
    · cases h
    rename_i hdis
    cases h
    exact extends_of_totp (by simpa [hsome] using hdis)

theorem confirmTotpSetup_extends {token : String}
    (h : confirmTotpSetup config account token = .ok account') : Extends account account' := by
  unfold confirmTotpSetup at h
  split at h
  · cases h
  rename_i cred hsome
  split at h
  · cases h
  rename_i hdis
  split at h
  · cases h
  · cases h
    exact extends_of_totp (by simpa [hsome] using hdis)

theorem setPassword_extends {new : NewPassword} (h : setPassword account new = .ok account') :
    Extends account account' := by
  unfold setPassword at h
  split at h
  · cases h
  cases h
  refine extends_of_providers rfl (fun _ => rfl) ?_ (fun _ _ h => h) (fun _ _ h => h)
  intro id cred hact
  cases hpass : account.password with
  | none =>
    have hlist : account.providerCredentials "password" = [] := by
      show (account.password.map _).toList = []
      rw [hpass]
      rfl
    rw [hlist] at hact
    cases hact
  | some old =>
    -- The cred keeps its id.
    have hlist : account.providerCredentials "password" =
        [⟨"password", old.credentialId, true, none⟩] := by
      show (account.password.map _).toList = _
      rw [hpass]
      rfl
    rw [hlist] at hact
    exact hact

end

/-! ### Reachable accounts -/

variable (config : AuthConfig)

/-- A committed operation. -/
def manageStep (account : Account) (operation : Operation) : Option Account :=
  (perform config account operation).toOption

structure Operable (account : Account) : Prop where
  active : account.status = .active
  available : Available account

section

variable {config : AuthConfig} {account account' : Account}

theorem replaceAuthPolicy_ok {purpose : AuthPurpose} {chains : List AuthChain} {rev : ℕ}
    (h : replaceAuthPolicy account purpose chains rev = .ok account') :
    ∃ newRevision, account' = account.withPolicy purpose ⟨newRevision, chains⟩ := by
  obtain ⟨_, -, h⟩ := bind_eq_ok.mp h
  split at h
  · split at h
    · cases h
      exact ⟨1, rfl⟩
    · cases h
  · split at h
    · cases h
    · cases h
      exact ⟨rev + 1, rfl⟩

theorem replacePolicies_status {replacements : List PolicyReplacement}
    (h : replacePolicies account replacements = .ok account') :
    account'.status = account.status := by
  induction replacements generalizing account with
  | nil =>
    cases h
    rfl
  | cons replacement rest ih =>
    rw [replacePolicies] at h
    split at h
    · cases h
    obtain ⟨replaced, hrepl, h⟩ := bind_eq_ok.mp h
    obtain ⟨_, rfl⟩ := replaceAuthPolicy_ok hrepl
    have hrest := ih h
    exact hrest

theorem Operable.extends (h : Operable account) (hext : Extends account account') :
    Operable account' :=
  ⟨hext.status.trans h.active, hext.available h.available⟩

theorem available_of_checked {checked : Account}
    (h : (do ensureAuthenticationAvailable checked; pure checked) = Except.ok account') :
    account' = checked ∧ Available account' := by
  obtain ⟨_, hensure, h⟩ := bind_eq_ok.mp h
  cases h
  exact ⟨rfl, available_of_ensure hensure⟩

theorem removeTotp_operable {cred : UserTotpCredential} (hact : account.status = .active)
    (h : removeTotp account cred = .ok account') : Operable account' := by
  obtain ⟨rfl, havail⟩ := available_of_checked h
  exact ⟨hact, havail⟩

/-- **One operation.** -/
theorem operable_perform {operation : Operation} (h : Operable account)
    (hperf : perform config account operation = .ok account') : Operable account' := by
  cases operation with
  | registerPublicKey key => exact h.extends (registerPublicKey_extends hperf)
  | deletePublicKey credId =>
    simp only [perform, deletePublicKey] at hperf
    split at hperf
    · cases hperf
    · obtain ⟨rfl, havail⟩ := available_of_checked hperf
      exact ⟨h.active, havail⟩
  | setPolicies replacements =>
    simp only [perform, setPolicies] at hperf
    split at hperf
    · cases hperf
    obtain ⟨replaced, hrepl, hcheck⟩ := bind_eq_ok.mp hperf
    obtain ⟨rfl, havail⟩ := available_of_checked hcheck
    exact ⟨(replacePolicies_status hrepl).trans h.active, havail⟩
  | setupTotp credId secret => exact h.extends (setupTotp_extends hperf)
  | confirmTotpSetup token => exact h.extends (confirmTotpSetup_extends hperf)
  | deleteTotp password =>
    simp only [perform, deleteTotp] at hperf
    split at hperf
    · cases hperf
    split at hperf
    · cases hperf
    · obtain ⟨_, -, hremove⟩ := bind_eq_ok.mp hperf
      exact removeTotp_operable h.active hremove
  | cancelTotpSetup =>
    simp only [perform, cancelTotpSetup] at hperf
    split at hperf
    · cases hperf
    split at hperf
    · cases hperf
    · exact removeTotp_operable h.active hperf
  | setPassword new => exact h.extends (setPassword_extends hperf)

variable {id : String} {new : NewPassword}

theorem operable_createUser (h : createUser id new = .ok account) : Operable account := by
  obtain ⟨created, hcreat, h⟩ := bind_eq_ok.mp h
  cases hcreat
  obtain ⟨rev, rfl⟩ := replaceAuthPolicy_ok h
  refine ⟨rfl, ⟨⟨[⟨"password", [new.credentialId]⟩], by simp⟩, ?_, Or.inl rfl⟩, Or.inl rfl⟩
  refine ⟨mem_singleton_self _, by simp [AuthChain.head], ⟨passwordAuthProvider, rfl, ?_⟩, ?_,
    fun _ => rfl, [new.credentialId], ?_⟩
  · simp [passwordAuthProvider]
  · simp [loginDisallowedMethods, AuthChain.head]
  refine ⟨.cons (mem_singleton_self _) .nil, ?_, ?_, ?_⟩
  · intro id hid
    rw [mem_singleton.mp hid, activeCredential_listUserCredentials]
    simp [AuthChain.head, Account.providerCredentials, getProvider, authRegistry,
      passwordAuthProvider, Account.withPolicy, activeCredential]
  · simp [AuthChain.head]
  · simp [AuthChain.head]

/-- **Every reachable account** is active with authentication available. -/
theorem operable_run {start : Account} {operations : List Operation}
    (hstart : createUser id new = .ok start)
    (hrun : run (manageStep config) start operations = some account) : Operable account := by
  refine run_invariant (C := fun _ _ => True) (I := Operable) ?_ (operable_createUser hstart)
    (meets_true operations) hrun
  intro before operation after hbef _ hstep
  cases hperf : perform config before operation with
  | error e =>
    rw [manageStep, hperf] at hstep
    cases hstep
  | ok reached =>
    rw [manageStep, hperf] at hstep
    cases hstep
    exact operable_perform hbef hperf

end

/-! ### Getting through the stages -/

def numbered (eventIds : ℕ → String) : ℕ → List String → List SubmittedProof
  | _, [] => []
  | start, id :: rest => (id, eventIds start) :: numbered eventIds (start + 1) rest

section

variable {eventIds : ℕ → String}

@[simp] theorem map_fst_numbered (start : ℕ) (ids : List String) :
    (numbered eventIds start ids).map Prod.fst = ids := by
  induction ids generalizing start with
  | nil => rfl
  | cons id rest ih => simp [numbered, ih]

theorem take_numbered (start k : ℕ) (ids : List String) :
    (numbered eventIds start ids).take k = numbered eventIds start (ids.take k) := by
  induction ids generalizing start k with
  | nil => simp [numbered]
  | cons id rest ih =>
    cases k with
    | zero => rfl
    | succ k => simp [numbered, ih]

theorem mem_numbered {start : ℕ} {ids : List String} {proof : SubmittedProof}
    (h : proof ∈ numbered eventIds start ids) :
    proof.1 ∈ ids ∧ ∃ i, start ≤ i ∧ i < start + ids.length ∧ proof.2 = eventIds i := by
  induction ids generalizing start with
  | nil => cases h
  | cons id rest ih =>
    rcases mem_cons.mp h with rfl | hlater
    · exact ⟨mem_cons_self, start, by simp⟩
    obtain ⟨hmem, i, hle, hlt, hid⟩ := ih hlater
    refine ⟨mem_cons_of_mem id hmem, i, by omega, ?_, hid⟩
    rw [length_cons]
    omega

theorem nodup_numbered (hinj : Function.Injective eventIds) (start : ℕ) (ids : List String) :
    ((numbered eventIds start ids).map Prod.snd).Nodup := by
  induction ids generalizing start with
  | nil => exact nodup_nil
  | cons id rest ih =>
    rw [numbered, map_cons, nodup_cons]
    refine ⟨?_, ih (start + 1)⟩
    intro hmem
    obtain ⟨proof, hproof, hsame⟩ := mem_map.mp hmem
    obtain ⟨-, i, hle, -, hid⟩ := mem_numbered hproof
    have heq := hinj (hid.symm.trans hsame)
    omega

end

/-- `get_login_progress` reports satisfied. -/
def LoginSatisfied (account : Account) (context : AuthenticationContext) : Prop :=
  ∃ progress, getLoginProgress config account context = .ok progress ∧ progress.satisfied = true

section

variable {config : AuthConfig} {account : Account} {now : Instant} {attemptId method : String}
  {evidence : List AuthEvidence} {chain : AuthChain} {eventIds : ℕ → String}

def freshContext (config : AuthConfig) (account : Account) (purpose : AuthPurpose)
    (method attemptId : String) (evidence : List AuthEvidence) : AuthenticationContext :=
  { createAuthenticationContext config account purpose method attemptId with evidence := evidence }

theorem getLoginProgress_fresh (hgood : GoodEvidence account attemptId evidence) :
    getLoginProgress config account (freshContext config account .login method attemptId evidence) =
      loginProgress account (freshContext config account .login method attemptId evidence)
        method := by
  have hvalid : validateAuthenticationContext config account
      (freshContext config account .login method attemptId evidence) [.login, .mfa] = .ok () := by
    refine validateAuthenticationContext_ok.mpr ⟨rfl, ?_, ?_⟩
    · intro purpose hpurp
      rcases mem_cons.mp hpurp with rfl | hmfa
      · rfl
      · rw [mem_singleton.mp hmfa]
        rfl
    · exact hgood.valid fun e he => mem_map_of_mem he
  unfold getLoginProgress
  rw [hvalid]
  rfl

def LoginStageOver (account : Account) (attemptId method : String) (evidence : List AuthEvidence) :
    Prop :=
  (evaluateUserPolicy account .login (evidence.filter (·.method == method)) attemptId (some method)
    none).satisfied = true

variable {ctx : AuthenticationContext}

theorem loginProgress_pending (h : ¬ LoginStageOver account ctx.attemptId method ctx.evidence) :
    loginProgress account ctx method = .ok { evaluateUserPolicy account .login
      (ctx.evidence.filter (·.method == method)) ctx.attemptId (some method) none with
      purpose := some .login } := by
  have hno := Bool.eq_false_iff.mpr h
  simp only [loginProgress, hno]
  rfl

theorem loginProgress_over {mfaEvidence : List AuthEvidence}
    (h : LoginStageOver account ctx.attemptId method ctx.evidence)
    (hrest : ctx.evidence.filter (·.method != method) = mfaEvidence)
    (hone : (mfaEvidence.map AuthEvidence.method).dedup.length ≤ 1) :
    loginProgress account ctx method = .ok { evaluateUserPolicy account .mfa mfaEvidence
      ctx.attemptId (mfaEvidence.head?.map AuthEvidence.method) (some method) with
      purpose := some .mfa } := by
  have hyes : (evaluateUserPolicy account .login (ctx.evidence.filter (·.method == method))
      ctx.attemptId (some method) none).satisfied = true := h
  simp only [loginProgress, hyes, hrest]
  rw [if_neg (by simp), if_neg (by omega)]
  rfl

theorem filter_evidenceOf_same (proofs : List SubmittedProof) :
    (evidenceOf account attemptId method proofs).filter (·.method == method) =
      evidenceOf account attemptId method proofs := by
  rw [filter_eq_self]
  intro e he
  obtain ⟨proof, -, rfl⟩ := mem_evidenceOf.mp he
  exact beq_self_eq_true method

variable {other : String}

theorem filter_evidenceOf_other (hother : method ≠ other) (proofs : List SubmittedProof) :
    (evidenceOf account attemptId method proofs).filter (·.method == other) = [] := by
  rw [filter_eq_nil_iff]
  intro e he
  obtain ⟨proof, -, rfl⟩ := mem_evidenceOf.mp he
  simpa using hother

theorem filterNot_evidenceOf_same (proofs : List SubmittedProof) :
    (evidenceOf account attemptId method proofs).filter (·.method != method) = [] := by
  rw [filter_eq_nil_iff]
  intro e he
  obtain ⟨proof, -, rfl⟩ := mem_evidenceOf.mp he
  simp

theorem filterNot_evidenceOf_other (hother : method ≠ other) (proofs : List SubmittedProof) :
    (evidenceOf account attemptId method proofs).filter (·.method != other) =
      evidenceOf account attemptId method proofs := by
  rw [filter_eq_self]
  intro e he
  obtain ⟨proof, -, rfl⟩ := mem_evidenceOf.mp he
  simpa using hother

/-- A request as far as its attempt goes: bind the account, then submit the proofs. -/
def authenticateWith (config : AuthConfig) (account : Account) (now : Instant) (attemptId : String)
    (attempt : AuthenticationAttempt) (proofs : List SubmittedProof) :
    Except AuthError AuthenticationAttempt := do
  let bound ← attempt.bind config account now attemptId
  submitAll config account now bound proofs

variable {attempt : AuthenticationAttempt}

theorem progress_eq
    (hexpiry : attempt.expiresAt.any (· ≤ now) = false) (hctx : attempt.context = some ctx)
    (hpurp : attempt.purpose ≠ .escalation)
    (hmeth : attempt.purpose = .mfa → some attempt.method ≠ ctx.loginMethod) :
    attempt.progress config account now = getLoginProgress config account ctx := by
  have hexp : attempt.checkExpiry now = .ok () := by
    unfold AuthenticationAttempt.checkExpiry
    rw [hexpiry]
    rfl
  have hbound : attempt.boundContext = .ok ctx := by
    unfold AuthenticationAttempt.boundContext
    rw [hctx]
    rfl
  unfold AuthenticationAttempt.progress
  rw [hexp, hbound]
  show (if attempt.purpose = .escalation then _ else _) = _
  rw [if_neg hpurp]
  cases hlogin : getLoginProgress config account ctx with
  | error e => rfl
  | ok progress =>
    show (if attempt.purpose = .mfa ∧ some attempt.method = ctx.loginMethod then _ else _) = _
    rw [if_neg fun h => hmeth h.1 h.2]
    rfl

def loginAttempt (method : String) : AuthenticationAttempt := { method := method, purpose := .login }

theorem stageOver_login {progress : AuthPolicyDecision}
    (hother : ctx.evidence.filter (·.method != method) = [])
    (h : loginProgress account ctx method = .ok progress) :
    (loginAttempt method).stageOver progress = true ↔
      LoginStageOver account ctx.attemptId method ctx.evidence := by
  by_cases hstage : LoginStageOver account ctx.attemptId method ctx.evidence
  · rw [loginProgress_over hstage hother (Nat.zero_le 1)] at h
    cases h
    exact iff_of_true (Bool.or_true _) hstage
  · rw [loginProgress_pending hstage] at h
    cases h
    refine iff_of_false ?_ hstage
    intro hover
    rcases (Bool.or_eq_true _ _).mp hover with hsat | hpurp
    · exact hstage hsat
    · cases hpurp

variable {proofs : List SubmittedProof}

theorem login_next (h : Usable account .login chain)
    (hplan : Plan account chain (proofs.map Prod.fst)) (hnodup : (proofs.map Prod.snd).Nodup)
    {k : ℕ} (hk : k ≤ proofs.length) :
    ∃ progress, loginProgress account (freshContext config account .login chain.head.method attemptId
        (evidenceOf account attemptId chain.head.method (proofs.take k))) chain.head.method =
        .ok progress ∧
      (loginAttempt chain.head.method).GoesOn progress proofs[k]? := by
  have helig : isEligible .login (some chain.head.method) none chain = true :=
    isEligible_iff.mpr ⟨h.single, fun m hm => (Option.some.inj hm).symm, nofun, h.supported⟩
  by_cases hstage : LoginStageOver account attemptId chain.head.method
      (evidenceOf account attemptId chain.head.method (proofs.take k))
  · exact ⟨_, loginProgress_over hstage (filterNot_evidenceOf_same _) (Nat.zero_le 1),
      Or.inl (Bool.or_true _)⟩
  · refine ⟨_, loginProgress_pending hstage, Or.inr ?_⟩
    show ∃ proof, _ ∧ ∃ offered ∈ (evaluateUserPolicy account .login
      ((evidenceOf account attemptId chain.head.method _).filter _) attemptId _ _).nextSteps, _
    unfold LoginStageOver at hstage
    rw [filter_evidenceOf_same] at hstage ⊢
    exact (h.follows hplan hnodup helig hk).resolve_left hstage

/-- **The login stage.** -/
theorem login_stage (hact : account.status = .active) (h : Usable account .login chain)
    (hinj : Function.Injective eventIds) :
    ∃ ids, (∀ id ∈ ids,
        (activeCredential account.listUserCredentials chain.head.method id).isSome = true) ∧
      authenticateWith config account now attemptId (loginAttempt chain.head.method)
        (numbered eventIds 0 ids) =
        .ok { loginAttempt chain.head.method with
              context := some (freshContext config account .login chain.head.method attemptId
                (evidenceOf account attemptId chain.head.method (numbered eventIds 0 ids))) } ∧
      GoodEvidence account attemptId
        (evidenceOf account attemptId chain.head.method (numbered eventIds 0 ids)) ∧
      LoginStageOver account attemptId chain.head.method
        (evidenceOf account attemptId chain.head.method (numbered eventIds 0 ids)) := by
  obtain ⟨ids, hplan⟩ := h.planned
  have hplan' : Plan account chain ((numbered eventIds 0 ids).map Prod.fst) := by
    rw [map_fst_numbered]
    exact hplan
  have hnodup := nodup_numbered hinj 0 ids
  have hgood : ∀ k, GoodEvidence account attemptId
      (evidenceOf account attemptId chain.head.method ((numbered eventIds 0 ids).take k)) := by
    intro k
    rw [evidenceOf_take]
    exact (hplan'.goodEvidence hnodup).sublist (take_sublist k _)
  have hprog : ∀ k, ((loginAttempt chain.head.method).afterProofs account
      (freshContext config account .login chain.head.method attemptId [])
      ((numbered eventIds 0 ids).take k)).progress config account now =
      loginProgress account (freshContext config account .login chain.head.method attemptId
        (evidenceOf account attemptId chain.head.method ((numbered eventIds 0 ids).take k)))
        chain.head.method := by
    intro k
    refine (progress_eq rfl rfl ?_ ?_).trans (getLoginProgress_fresh (hgood k))
    · exact nofun
    · exact nofun
  obtain ⟨k, progress, hsubm, hreach, hover⟩ := submitAll_until_over hact
    (h.single_proof hplan') (fun k hk => by
      rw [hprog k]
      exact login_next h hplan' hnodup hk)
  have hstage := (stageOver_login (filterNot_evidenceOf_same _)
    ((hprog k).symm.trans hreach)).mp hover
  rw [take_numbered] at hsubm hstage
  refine ⟨ids.take k, fun id hid => hplan.active id (take_subset k ids hid), ?_, ?_, hstage⟩
  · exact hsubm
  · rw [← take_numbered]
    exact hgood k

/-- The attempt of an exchange of an AUTH token. -/
def exchangeAttempt (method : String) (context : AuthenticationContext) (expiresAt : Instant) :
    AuthenticationAttempt :=
  { method := method, purpose := .mfa, context := some context, expiresAt := some expiresAt }

theorem dedup_methods_evidenceOf (proofs : List SubmittedProof) :
    ((evidenceOf account attemptId method proofs).map AuthEvidence.method).dedup.length ≤ 1 := by
  have hsame : (evidenceOf account attemptId method proofs).map AuthEvidence.method =
      replicate proofs.length method := by
    simp [evidenceOf, Function.comp_def]
  rw [hsame]
  cases proofs with
  | nil => exact Nat.zero_le 1
  | cons proof rest => exact (congrArg length (replicate_dedup (Nat.succ_ne_zero _))).le

def mfaProgress (account : Account) (attemptId loginMethod mfaMethod : String)
    (proofs : List SubmittedProof) : AuthPolicyDecision :=
  { evaluateUserPolicy account .mfa (evidenceOf account attemptId mfaMethod proofs) attemptId
      ((evidenceOf account attemptId mfaMethod proofs).head?.map AuthEvidence.method)
      (some loginMethod) with purpose := some .mfa }

variable {login : List SubmittedProof}

theorem loginProgress_mfa {mfaMethod : String} (hother : mfaMethod ≠ method)
    (hlogin : LoginStageOver account attemptId method (evidenceOf account attemptId method login)) :
    loginProgress account (freshContext config account .login method attemptId
        (evidenceOf account attemptId method login ++
          evidenceOf account attemptId mfaMethod proofs)) method =
      .ok (mfaProgress account attemptId method mfaMethod proofs) := by
  have hown : (evidenceOf account attemptId method login ++
      evidenceOf account attemptId mfaMethod proofs).filter (·.method == method) =
      evidenceOf account attemptId method login := by
    rw [filter_append, filter_evidenceOf_same, filter_evidenceOf_other hother, append_nil]
  have hrest : (evidenceOf account attemptId method login ++
      evidenceOf account attemptId mfaMethod proofs).filter (·.method != method) =
      evidenceOf account attemptId mfaMethod proofs := by
    rw [filter_append, filterNot_evidenceOf_same, filterNot_evidenceOf_other hother, nil_append]
  have hover : LoginStageOver account attemptId method (evidenceOf account attemptId method login ++
        evidenceOf account attemptId mfaMethod proofs) := by
    unfold LoginStageOver at hlogin ⊢
    rw [hown]
    rw [filter_evidenceOf_same] at hlogin
    exact hlogin
  exact loginProgress_over hover hrest (dedup_methods_evidenceOf proofs)

theorem mfa_eligible (h : Usable account .mfa chain) (hother : chain.head.method ≠ method)
    (proofs : List SubmittedProof) :
    isEligible .mfa ((evidenceOf account attemptId chain.head.method proofs).head?.map
      AuthEvidence.method) (some method) chain = true := by
  refine isEligible_iff.mpr ⟨h.single, ?_, ?_, h.supported⟩
  · intro m hm
    obtain ⟨e, he, rfl⟩ := Option.map_eq_some_iff.mp hm
    obtain ⟨proof, -, rfl⟩ := mem_evidenceOf.mp (mem_of_head? he)
    rfl
  · intro m hm
    rw [← Option.some.inj hm]
    exact hother.symm

theorem after_nil (h : attempt.context = some ctx) : attempt.after ctx [] = attempt := by
  simp [AuthenticationAttempt.after, ← h]

variable {expiresAt : Instant}

theorem mfa_stage_of_plan (hact : account.status = .active) (h : Usable account .mfa chain)
    (hother : chain.head.method ≠ method) (hexpires : now < expiresAt)
    (hlogin : LoginStageOver account attemptId method (evidenceOf account attemptId method login))
    (hplan : Plan account chain (proofs.map Prod.fst)) (hnodup : (proofs.map Prod.snd).Nodup)
    (hgood : GoodEvidence account attemptId (evidenceOf account attemptId method login ++
      evidenceOf account attemptId chain.head.method proofs)) :
    ∃ k ctx, submitAll config account now
        (exchangeAttempt chain.head.method (freshContext config account .login method attemptId
          (evidenceOf account attemptId method login)) expiresAt) (proofs.take k) =
        .ok (exchangeAttempt chain.head.method ctx expiresAt) ∧
      LoginSatisfied config account ctx := by
  set ctx := freshContext config account .login method attemptId
    (evidenceOf account attemptId method login) with hctx
  set attempt := exchangeAttempt chain.head.method ctx expiresAt with hatt
  have hlater : ∀ k, getLoginProgress config account
      (freshContext config account .login method attemptId
        (evidenceOf account attemptId method login ++
          evidenceOf account attemptId chain.head.method (proofs.take k))) =
      .ok (mfaProgress account attemptId method chain.head.method (proofs.take k)) := by
    intro k
    refine (getLoginProgress_fresh (hgood.sublist ?_)).trans (loginProgress_mfa hother hlogin)
    rw [evidenceOf_take]
    exact (take_sublist k _).append_left _
  have hprog : ∀ k, (attempt.afterProofs account ctx (proofs.take k)).progress config account now =
      .ok (mfaProgress account attemptId method chain.head.method (proofs.take k)) := by
    intro k
    refine (progress_eq ?_ rfl ?_ ?_).trans (hlater k)
    · simpa [hatt, exchangeAttempt, AuthenticationAttempt.afterProofs,
        AuthenticationAttempt.after] using hexpires
    · intro hnot
      cases hnot
    · intro _ hsame
      exact hother (Option.some.inj hsame)
  obtain ⟨k, progress, hsubm, hreach, hover⟩ := submitAll_until_over hact
    (h.single_proof hplan) fun k hk => ⟨_, hprog k, (h.follows hplan hnodup
      (mfa_eligible h hother _) hk).imp_left fun hsat =>
        (Bool.or_eq_true _ _).mpr (Or.inl hsat)⟩
  have heq := Except.ok.inj ((hprog k).symm.trans hreach)
  have hsat : progress.satisfied = true := by
    rcases (Bool.or_eq_true _ _).mp hover with hdone | hpurp
    · exact hdone
    · rw [← heq] at hpurp
      cases hpurp
  rw [after_nil rfl] at hsubm
  exact ⟨k, _, hsubm, progress, (hlater k).trans (congrArg Except.ok heq), hsat⟩

/-- **The MFA stage**, on top of evidence that completes the login. -/
theorem mfa_stage (hact : account.status = .active) (h : Usable account .mfa chain)
    (hinj : Function.Injective eventIds) (hother : chain.head.method ≠ method)
    {loginIds : List String} (hexpires : now < expiresAt)
    (hgoodLogin : GoodEvidence account attemptId
      (evidenceOf account attemptId method (numbered eventIds 0 loginIds)))
    (hlogin : LoginStageOver account attemptId method
      (evidenceOf account attemptId method (numbered eventIds 0 loginIds))) :
    ∃ ids, (∀ id ∈ ids,
        (activeCredential account.listUserCredentials chain.head.method id).isSome = true) ∧
      ∃ ctx, submitAll config account now (exchangeAttempt chain.head.method
          (freshContext config account .login method attemptId
            (evidenceOf account attemptId method (numbered eventIds 0 loginIds))) expiresAt)
          (numbered eventIds loginIds.length ids) =
          .ok (exchangeAttempt chain.head.method ctx expiresAt) ∧
        LoginSatisfied config account ctx := by
  obtain ⟨ids, hplan⟩ := h.planned
  have hplan' : Plan account chain ((numbered eventIds loginIds.length ids).map Prod.fst) := by
    rw [map_fst_numbered]
    exact hplan
  have hnodup : ((numbered eventIds loginIds.length ids).map Prod.snd).Nodup :=
    nodup_numbered hinj loginIds.length ids
  have hgood : GoodEvidence account attemptId
      (evidenceOf account attemptId method (numbered eventIds 0 loginIds) ++
        evidenceOf account attemptId chain.head.method
          (numbered eventIds loginIds.length ids)) := by
    refine hgoodLogin.append (hplan'.goodEvidence hnodup) ?_
    intro e he f hf hsame
    obtain ⟨first, hfirst, rfl⟩ := mem_evidenceOf.mp he
    obtain ⟨second, hsnd, rfl⟩ := mem_evidenceOf.mp hf
    obtain ⟨-, i, -, hi, hidi⟩ := mem_numbered hfirst
    obtain ⟨-, j, hj, -, hidj⟩ := mem_numbered hsnd
    have heq := hinj (hidi.symm.trans ((show first.2 = second.2 from hsame).trans hidj))
    omega
  obtain ⟨k, ctx, hsubm, hsat⟩ :=
    mfa_stage_of_plan hact h hother hexpires hlogin hplan' hnodup hgood
  rw [take_numbered] at hsubm
  exact ⟨ids.take k, fun id hid => hplan.active id (take_subset k ids hid), ctx, hsubm, hsat⟩

def escalationAttempt (method : String) (expiresAt : Instant) : AuthenticationAttempt :=
  { method := method, purpose := .escalation, expiresAt := some expiresAt }

theorem progress_escalation (hexpires : now < expiresAt)
    (hgood : GoodEvidence account attemptId evidence) :
    ({ escalationAttempt method expiresAt with
        context := some (freshContext config account .escalation method attemptId evidence) } :
      AuthenticationAttempt).progress config account now =
      .ok (evaluateUserPolicy account .escalation evidence attemptId (some method) none) := by
  have hvalid : validateAuthenticationContext config account
      (freshContext config account .escalation method attemptId evidence) [.escalation] =
      .ok () := by
    refine validateAuthenticationContext_ok.mpr ⟨rfl, ?_, ?_⟩
    · intro purpose hpurp
      rw [mem_singleton.mp hpurp]
      rfl
    · exact hgood.valid fun e he => mem_map_of_mem he
  have hexp : ({ escalationAttempt method expiresAt with
      context := some (freshContext config account .escalation method attemptId evidence) } :
      AuthenticationAttempt).checkExpiry now = .ok () := by
    unfold AuthenticationAttempt.checkExpiry
    rw [if_neg (by simpa [escalationAttempt] using hexpires)]
    rfl
  unfold AuthenticationAttempt.progress
  rw [hexp]
  show (do
    validateAuthenticationContext config account
      (freshContext config account .escalation method attemptId evidence) [.escalation]
    _) = _
  rw [hvalid]
  rfl

theorem evaluateUserPolicy_purpose {purpose : AuthPurpose} {excludedMethod method : Option String} :
    (evaluateUserPolicy account purpose evidence attemptId method excludedMethod).purpose =
      none := by
  have hchains : ∀ (creds : List RegisteredCredential) (chains : List AuthChain)
      (nextSteps : List AuthStep),
      (evaluateChains creds purpose evidence chains nextSteps).purpose = none := by
    intro creds chains
    induction chains with
    | nil => exact fun _ => rfl
    | cons chain rest ih =>
      intro nextSteps
      rw [evaluateChains]
      split
      · split
        · rfl
        · exact ih _
      · exact ih _
  simp only [evaluateUserPolicy]
  split
  · rfl
  unfold evaluateAuthPolicy
  split
  · rfl
  split
  · rfl
  · exact hchains _ _ _

/-- **The escalation stage.** -/
theorem escalation_stage (hact : account.status = .active)
    (h : Usable account .escalation chain) (hinj : Function.Injective eventIds)
    (hexpires : now < expiresAt) :
    ∃ ids, (∀ id ∈ ids,
        (activeCredential account.listUserCredentials chain.head.method id).isSome = true) ∧
      ∃ attempt progress, authenticateWith config account now attemptId
          (escalationAttempt chain.head.method expiresAt) (numbered eventIds 0 ids) = .ok attempt ∧
        attempt.progress config account now = .ok progress ∧ progress.satisfied = true := by
  obtain ⟨ids, hplan⟩ := h.planned
  have hplan' : Plan account chain ((numbered eventIds 0 ids).map Prod.fst) := by
    rw [map_fst_numbered]
    exact hplan
  have hnodup := nodup_numbered hinj 0 ids
  have helig : isEligible .escalation (some chain.head.method) none chain = true :=
    isEligible_iff.mpr ⟨h.single, fun m hm => (Option.some.inj hm).symm, nofun, h.supported⟩
  have hprog : ∀ k, ((escalationAttempt chain.head.method expiresAt).afterProofs account
      (freshContext config account .escalation chain.head.method attemptId [])
      ((numbered eventIds 0 ids).take k)).progress config account now =
      .ok (evaluateUserPolicy account .escalation (evidenceOf account attemptId chain.head.method
        ((numbered eventIds 0 ids).take k)) attemptId (some chain.head.method) none) := by
    intro k
    refine progress_escalation hexpires ?_
    rw [evidenceOf_take]
    exact (hplan'.goodEvidence hnodup).sublist (take_sublist k _)
  obtain ⟨k, progress, hsubm, hreach, hover⟩ := submitAll_until_over hact
    (h.single_proof hplan') fun k hk => ⟨_, hprog k, (h.follows hplan' hnodup helig
      hk).imp_left fun hsat => (Bool.or_eq_true _ _).mpr (Or.inl hsat)⟩
  have hsat : progress.satisfied = true := by
    have heq := Except.ok.inj ((hprog k).symm.trans hreach)
    rcases (Bool.or_eq_true _ _).mp hover with hdone | hpurp
    · exact hdone
    · rw [← heq, evaluateUserPolicy_purpose] at hpurp
      cases hpurp
  rw [take_numbered] at hsubm hreach
  refine ⟨ids.take k, fun id hid => hplan.active id (take_subset k ids hid), _, progress, ?_,
    hreach, hsat⟩
  refine bind_eq_ok.mpr ⟨_, ?_, hsubm⟩
  unfold AuthenticationAttempt.bind AuthenticationAttempt.checkExpiry
  rw [if_neg (by simpa [escalationAttempt] using hexpires)]
  rfl

end

/-! ### The main theorem -/

/-- Requests for the purpose may use the method. -/
def Supports (method : String) (purpose : AuthPurpose) : Prop :=
  ∃ provider, getProvider method = some provider ∧ purpose ∈ provider.supportedPurposes

def AllActive (account : Account) (method : String) (ids : List String) : Prop :=
  ∀ id ∈ ids, (activeCredential account.listUserCredentials method id).isSome = true

/-- Valid proofs by active credentials lead through the login, through one exchange by another
method if MFA is asked for, and through the escalation if it asks for proofs. -/
structure NotLockedOut (account : Account) (now expiresAt : Instant) (attemptId : String)
    (eventIds : ℕ → String) : Prop where
  login : ∃ loginMethod loginIds context, Supports loginMethod .login ∧
    AllActive account loginMethod loginIds ∧
    authenticateWith config account now attemptId (loginAttempt loginMethod)
      (numbered eventIds 0 loginIds) =
      .ok { loginAttempt loginMethod with context := some context } ∧
    (account.chains .mfa = [] → LoginSatisfied config account context) ∧
    (account.chains .mfa ≠ [] → ∃ mfaMethod mfaIds context', mfaMethod ≠ loginMethod ∧
      Supports mfaMethod .mfa ∧ AllActive account mfaMethod mfaIds ∧
      submitAll config account now (exchangeAttempt mfaMethod context expiresAt)
        (numbered eventIds loginIds.length mfaIds) =
        .ok (exchangeAttempt mfaMethod context' expiresAt) ∧
      LoginSatisfied config account context')
  escalation : account.chains .escalation ≠ [] → ∃ method ids attempt progress,
    Supports method .escalation ∧ AllActive account method ids ∧
    authenticateWith config account now attemptId (escalationAttempt method expiresAt)
      (numbered eventIds 0 ids) = .ok attempt ∧
    attempt.progress config account now = .ok progress ∧ progress.satisfied = true

section

variable {config : AuthConfig} {account : Account} {now expiresAt : Instant} {attemptId : String}
  {eventIds : ℕ → String}

theorem loginSatisfied_of_no_mfa {method : String} {proofs : List SubmittedProof}
    (hmfa : account.chains .mfa = [])
    (hgood : GoodEvidence account attemptId (evidenceOf account attemptId method proofs))
    (hlogin : LoginStageOver account attemptId method (evidenceOf account attemptId method proofs)) :
    LoginSatisfied config account (freshContext config account .login method attemptId
      (evidenceOf account attemptId method proofs)) := by
  refine ⟨_, (getLoginProgress_fresh hgood).trans
    (loginProgress_over hlogin (filterNot_evidenceOf_same _) (Nat.zero_le 1)), ?_⟩
  show (evaluateUserPolicy account .mfa [] _ _ _).satisfied = true
  simp [evaluateUserPolicy, hmfa, evaluateAuthPolicy, evidenceIsValid]

theorem notLockedOut_of_operable (h : Operable account) (hexpires : now < expiresAt)
    (hinj : Function.Injective eventIds) :
    NotLockedOut config account now expiresAt attemptId eventIds where
  login := by
    obtain ⟨chain, husable, hmfa⟩ := h.available.login
    obtain ⟨ids, hids, hsubm, hgood, hover⟩ := login_stage h.active husable hinj
    refine ⟨chain.head.method, ids, _, husable.supported, hids, hsubm, ?_, ?_⟩
    · intro hempty
      exact loginSatisfied_of_no_mfa hempty hgood hover
    · intro hasked
      obtain ⟨mfaChain, hmfaUsable, hother⟩ := hmfa.resolve_left hasked
      obtain ⟨mfaIds, hmfaIds, ctx, hexchange, hsat⟩ :=
        mfa_stage h.active hmfaUsable hinj hother hexpires hgood hover
      exact ⟨mfaChain.head.method, mfaIds, ctx, hother, hmfaUsable.supported, hmfaIds, hexchange,
        hsat⟩
  escalation := by
    intro hchains
    obtain ⟨chain, husable⟩ := h.available.escalation.resolve_left hchains
    obtain ⟨ids, hids, attempt, progress, hsubm, hprog, hsat⟩ :=
      escalation_stage h.active husable hinj hexpires
    exact ⟨chain.head.method, ids, attempt, progress, husable.supported, hids, hsubm, hprog, hsat⟩

/-- **Authentication management never locks an account out.** -/
theorem never_locked_out {id : String} {new : NewPassword} {start : Account}
    {operations : List Operation} (hstart : createUser id new = .ok start)
    (hrun : run (manageStep config) start operations = some account) (hexpires : now < expiresAt)
    (hinj : Function.Injective eventIds) :
    NotLockedOut config account now expiresAt attemptId eventIds :=
  notLockedOut_of_operable (operable_run hstart hrun) hexpires hinj

/-- A supply of distinct event ids. -/
def tally (n : ℕ) : String := String.ofList (List.replicate n 'i')

theorem tally_injective : Function.Injective tally := by
  intro n m h
  have hlists : replicate n 'i' = replicate m 'i' := by
    rw [← String.toList_ofList (l := replicate n 'i'),
      ← String.toList_ofList (l := replicate m 'i')]
    exact congrArg String.toList h
  simpa using congrArg length hlists

def twoFactorSetup : List Operation :=
  [.registerPublicKey ⟨"k", "der", "fingerprint"⟩,
    .setPolicies [⟨.mfa, 0, [⟨[⟨"publickey", ["k"]⟩], by simp⟩]⟩]]

/-- A new account after that setup. -/
def twoFactorAccount : Account :=
  ((createUser "user" ⟨"p", "secret", 5, "key", none⟩).toOption.bind fun start =>
    run (manageStep plainConfig) start twoFactorSetup).getD
    ⟨"", .disabled, "", fun _ => none, none, none, []⟩

theorem never_locked_out_two_factor : twoFactorAccount.chains .mfa ≠ [] ∧
      NotLockedOut plainConfig twoFactorAccount 10 20 "attempt" tally :=
  ⟨cons_ne_nil _ _,
    never_locked_out
      (show createUser "user" ⟨"p", "secret", 5, "key", none⟩ = .ok _ from rfl)
      (show run (manageStep plainConfig) _ twoFactorSetup = some twoFactorAccount from rfl)
      (by decide) tally_injective⟩

end

end Cfms.Identity
