import Cfms.Lib.AugmentingPath
import Cfms.Identity.Sessions

/-!
# Managing authentication

The commands that change the credentials and policies of an account: `commands/auth_policies.py`,
`commands/credentials.py`, `commands/users.py`, and the handlers of `handlers/auth_management.py`
and `security/handlers/totp.py` that run them.  A command that raises leaves the account as it was.

The permissions of the requester, and the handlers' checks of the request, only decide whether a
command runs; they are left out.
-/

namespace Cfms.Identity

open Access (Instant)
open Lib.AugmentingPath

/-! ### Availability -/

variable (creds : List RegisteredCredential)

def stepPools (steps : List AuthStep) : List (List RegisteredCredential) :=
  steps.map fun step => step.credentialIds.filterMap (activeCredential creds step.method)

def keyPools (steps : List AuthStep) : List (List String) :=
  (stepPools creds steps).map (·.filterMap RegisteredCredential.keyIdentity)

def canCompleteAuthChain (chain : AuthChain) : Bool :=
  if (stepPools creds chain.steps).any List.isEmpty then false
  else if chain.head.method != "publickey" then
    chain.steps.length == 1 || !(["password", "totp", "oidc"].contains chain.head.method)
  else
    let keys := keyPools creds chain.steps
    assignAll keys (keys.flatten.length + 1) (List.range keys.length) fun _ => none

variable (account : Account)

/-- The chain counts for `ensure_authentication_available`. -/
def isAvailable (purpose : AuthPurpose) (chain : AuthChain) : Bool :=
  chain.isSingleMethod &&
    (getProvider chain.head.method).any (·.supportedPurposes.contains purpose) &&
    !(purpose == .login && loginDisallowedMethods.contains chain.head.method) &&
    canCompleteAuthChain account.listUserCredentials chain

/-- `available[purpose]`. -/
def Account.availableMethods (purpose : AuthPurpose) : List String :=
  ((account.chains purpose).filter (isAvailable account purpose)).map (·.head.method)

inductive ManagementError
  /-- `AuthPolicyConflict`. -/
  | conflict
  /-- `AuthPolicyUnavailable`. -/
  | unavailable (reason : String)
  /-- `ValueError`. -/
  | invalid (message : String)
  | failure (code : ℕ) (message : String)
  deriving DecidableEq

def ensureAuthenticationAvailable : Except ManagementError Unit :=
  if !(account.availableMethods .login).any fun loginMethod =>
      (account.chains .mfa).isEmpty || (account.availableMethods .mfa).any (· != loginMethod) then
    throw (.unavailable "login_unavailable")
  else if !(account.chains .escalation).isEmpty && (account.availableMethods .escalation).isEmpty then
    throw (.unavailable "escalation_unavailable")
  else pure ()

/-! ### Policies -/

/-- `identity` of a chain: the methods and the sets of credentials of its steps. -/
def AuthChain.identity (chain : AuthChain) : List (String × Finset String) :=
  chain.steps.map fun step => (step.method, step.credentialIds.toFinset)

/-- `replace_auth_policy`: the checks of one step. -/
def checkStep (purpose : AuthPurpose) (credentials : List RegisteredCredential) (step : AuthStep) :
    Except ManagementError Unit :=
  if purpose = .login ∧ loginDisallowedMethods.contains step.method then
    throw (.invalid "Authentication method is not permitted for login")
  else
    match getProvider step.method with
    | none => throw (.invalid "Unknown authentication method")
    | some provider =>
      if !provider.supportedPurposes.contains purpose then
        throw (.invalid "Authentication method does not support the purpose")
      else if !decide step.credentialIds.Nodup then throw (.invalid "Duplicate credential selector")
      else if step.credentialIds.any fun id =>
          !credentials.any fun c => c.method == step.method && c.credentialId == id then
        throw (.invalid "Policy references an unregistered credential")
      else pure ()

/-- `replace_auth_policy`: the loop over the chains. -/
def checkChains (purpose : AuthPurpose) (credentials : List RegisteredCredential) :
    List (List (String × Finset String)) → List AuthChain → Except ManagementError Unit
  | _, [] => pure ()
  | seen, chain :: rest =>
    if chain.identity ∈ seen then throw (.invalid "Duplicate authentication chain")
    else if !chain.isSingleMethod then
      throw (.invalid "An authentication chain must use exactly one method")
    else do
      chain.steps.forM (checkStep purpose credentials)
      checkChains purpose credentials (chain.identity :: seen) rest

def Account.withPolicy (purpose : AuthPurpose) (policy : UserAuthPolicy) : Account :=
  { account with policies := Function.update account.policies purpose (some policy) }

/-- `replace_auth_policy`.  The shape of the chains is checked when they are parsed. -/
def replaceAuthPolicy (purpose : AuthPurpose) (chains : List AuthChain) (expectedRevision : ℕ) :
    Except ManagementError Account := do
  checkChains purpose account.listUserCredentials [] chains
  match account.policies purpose with
  | none =>
    if expectedRevision = 0 then pure (account.withPolicy purpose ⟨1, chains⟩) else throw .conflict
  | some policy =>
    if expectedRevision = 0 ∨ policy.revision ≠ expectedRevision then throw .conflict
    else pure (account.withPolicy purpose ⟨expectedRevision + 1, chains⟩)

structure PolicyReplacement where
  purpose : AuthPurpose
  expectedRevision : ℕ
  chains : List AuthChain

/-- The loop of `core.user.authentication.policy.set`. -/
def replacePolicies (account : Account) : List PolicyReplacement → Except ManagementError Account
  | [] => pure account
  | replacement :: rest =>
    if account.revision replacement.purpose ≠ replacement.expectedRevision then throw .conflict
    else do
      let replaced ← replaceAuthPolicy account replacement.purpose replacement.chains
        replacement.expectedRevision
      replacePolicies replaced rest

/-- `RequestSetUserAuthPoliciesHandler`; the purposes of one request are distinct. -/
def setPolicies (replacements : List PolicyReplacement) : Except ManagementError Account :=
  if !decide (replacements.map PolicyReplacement.purpose).Nodup ∨ replacements = [] then
    throw (.failure 400 "Invalid request data")
  else do
    let replaced ← replacePolicies account replacements
    ensureAuthenticationAvailable replaced
    pure replaced

def AuthStep.uses (step : AuthStep) (method credentialId : String) : Bool :=
  step.method == method && step.credentialIds.contains credentialId

/-- A step without the credential; `none` when nothing is left. -/
def pruneStep (method credentialId : String) (step : AuthStep) : Option AuthStep :=
  let pool := step.credentialIds.filter fun id => !(step.method == method && id == credentialId)
  if pool.isEmpty then none else some ⟨step.method, pool⟩

/-- A chain without the credential; `none` when a step has nothing left. -/
def pruneChain (method credentialId : String) (chain : AuthChain) : Option AuthChain :=
  (chain.steps.mapM (pruneStep method credentialId)).bind fun steps =>
    if h : steps ≠ [] then some ⟨steps, h⟩ else none

/-- The loop over the chains of `remove_credential_from_auth_policies`. -/
def retainChains (credentials : List RegisteredCredential) (method credentialId : String) :
    List (List (String × Finset String)) → List AuthChain → List AuthChain
  | _, [] => []
  | seen, chain :: rest =>
    match pruneChain method credentialId chain with
    | none => retainChains credentials method credentialId seen rest
    | some pruned =>
      if chain.steps.any (·.uses method credentialId) && !canCompleteAuthChain credentials pruned ||
          decide (pruned.identity ∈ seen) then
        retainChains credentials method credentialId seen rest
      else pruned :: retainChains credentials method credentialId (pruned.identity :: seen) rest

/-- The policy of one purpose after a credential is removed. -/
def prunePolicy (method credentialId : String) (policy : UserAuthPolicy) : UserAuthPolicy :=
  if policy.chains.any fun chain => chain.steps.any (·.uses method credentialId) then
    ⟨policy.revision + 1, retainChains creds method credentialId [] policy.chains⟩
  else policy

def removeCredentialFromAuthPolicies (method credentialId : String) : Account :=
  let creds := (account.listUserCredentials.filter fun c =>
    !(c.method == method && c.credentialId == credentialId)).map fun c => { c with active := true }
  { account with
    policies := fun purpose =>
      (account.policies purpose).map (prunePolicy creds method credentialId) }

/-! ### Credentials -/

/-- `RequestRegisterUserAuthPublicKeyHandler`, with the id that is drawn for the key. -/
def registerPublicKey (key : UserAuthPublicKey) : Except ManagementError Account :=
  if account.publicKeys.any fun k => k.id == key.id || k.fingerprint == key.fingerprint then
    throw (.failure 409 "Public key is already registered")
  else pure { account with publicKeys := account.publicKeys ++ [key] }

/-- `RequestDeleteUserAuthPublicKeyHandler`. -/
def deletePublicKey (credentialId : String) : Except ManagementError Account :=
  if !account.publicKeys.any (·.id == credentialId) then throw (.failure 404 "Public key not found")
  else do
    let pruned := removeCredentialFromAuthPolicies account "publickey" credentialId
    let remaining :=
      { pruned with publicKeys := account.publicKeys.filter (·.id != credentialId) }
    ensureAuthenticationAvailable remaining
    pure remaining

/-- `setup_totp`, run when TOTP is not enabled; an existing credential keeps its id. -/
def setupTotp (credentialId secret : String) : Except ManagementError Account :=
  match account.totp with
  | none => pure { account with totp := some ⟨credentialId, secret, false⟩ }
  | some credential =>
    if credential.enabled then
      throw (.failure 400 "TOTP credential is already enabled. Please cancel it first.")
    else pure { account with totp := some ⟨credential.credentialId, secret, false⟩ }

variable (config : AuthConfig)

/-- `RequestConfirmTotpSetupHandler`.  A credential that is not enabled accepts no backup code, which
is a code whose check would change what is stored. -/
def confirmTotpSetup (account : Account) (token : String) : Except ManagementError Account :=
  match account.totp with
  | none => throw (.failure 400 "TOTP credential has not been set up. Please set it up first.")
  | some credential =>
    if credential.enabled then throw (.failure 400 "TOTP credential is already enabled.")
    else if config.checkTotp credential.secret token ≠ some credential.secret then
      throw (.failure 401 "Invalid verification code")
    else pure { account with totp := some { credential with enabled := true } }

def removeTotp (credential : UserTotpCredential) :
    Except ManagementError Account := do
  let pruned := removeCredentialFromAuthPolicies account "totp" credential.credentialId
  let remaining := { pruned with totp := none }
  ensureAuthenticationAvailable remaining
  pure remaining

/-- The password that `RequestDeleteTotpHandler` asks of the owner is right, and the account active. -/
def checkOwner (account : Account) (password : Option String) : Except ManagementError Unit :=
  match password with
  | none => pure ()
  | some password =>
    if (account.password.bind fun c => config.checkPassword c.passHash password).isNone then
      throw (.failure 401 "Invalid password")
    else if account.status ≠ .active then throw (.failure 4003 "User account is not active")
    else pure ()

/-- `RequestDeleteTotpHandler`; the owner gives the password, an administrator none. -/
def deleteTotp (account : Account) (password : Option String) : Except ManagementError Account :=
  match account.totp with
  | none => throw (.failure 400 "TOTP not enabled or user not found")
  | some credential =>
    if !credential.enabled then throw (.failure 400 "TOTP not enabled or user not found")
    else do
      checkOwner config account password
      removeTotp account credential

/-- `RequestCancelTotpSetupHandler`. -/
def cancelTotpSetup : Except ManagementError Account :=
  match account.totp with
  | none => throw (.failure 400 "No pending TOTP setup to cancel.")
  | some credential =>
    if credential.enabled then throw (.failure 400 "No pending TOTP setup to cancel.")
    else removeTotp account credential

/-- What `set_password` draws and is given. -/
structure NewPassword where
  /-- Of the credential, if there is none yet. -/
  credentialId : String
  passHash : String
  /-- `time.time()`, or 0 when the password must be changed after the next login. -/
  modifiedAt : Instant
  secretKey : String
  expectedSigningKey : Option String

def setPassword (new : NewPassword) : Except ManagementError Account :=
  if new.expectedSigningKey.any fun key =>
      key != account.secretKey || account.status != .active then
    throw (.failure 401 "Authentication credentials changed; restart login")
  else
    let credentialId := (account.password.map UserPasswordCredential.credentialId).getD
      new.credentialId
    pure { account with
      password := some ⟨credentialId, new.passHash, new.modifiedAt⟩
      secretKey := new.secretKey }

/-- `create_user` with a password. -/
def createUser (id : String) (new : NewPassword) : Except ManagementError Account := do
  let account ← setPassword ⟨id, .active, "", fun _ => none, none, none, []⟩
    { new with expectedSigningKey := none }
  replaceAuthPolicy account .login [⟨[⟨"password", [new.credentialId]⟩], by simp⟩] 0

/-- The committed operations on the authentication of an account. -/
inductive Operation
  | registerPublicKey (key : UserAuthPublicKey)
  | deletePublicKey (credentialId : String)
  | setPolicies (replacements : List PolicyReplacement)
  | setupTotp (credentialId secret : String)
  | confirmTotpSetup (token : String)
  | deleteTotp (password : Option String)
  | cancelTotpSetup
  | setPassword (new : NewPassword)

def perform (account : Account) : Operation → Except ManagementError Account
  | .registerPublicKey key => registerPublicKey account key
  | .deletePublicKey credentialId => deletePublicKey account credentialId
  | .setPolicies replacements => setPolicies account replacements
  | .setupTotp credentialId secret => setupTotp account credentialId secret
  | .confirmTotpSetup token => confirmTotpSetup config account token
  | .deleteTotp password => deleteTotp config account password
  | .cancelTotpSetup => cancelTotpSetup account
  | .setPassword new => setPassword account new

end Cfms.Identity
